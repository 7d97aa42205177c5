import Recsync.Recast.Keepalive
import Recsync.System.Letters

set_option autoImplicit false

/- The pings keep a connection up on which nothing else is sent. -/
namespace Recsync.System

open Protocol Recast Recast.CastReceiver Bytes

/-- The connection after the upload, with its clocks. -/
structure Paced where
  link : Keepalive
  /-- the time since the ping timer was started -/
  timer : Nat := 0
  /-- the time since the last ping or pong was sent -/
  transit : Nat := 0
  /-- the time since the client has read something -/
  waiting : Nat := 0

inductive PacedEvent where
  /-- a unit of time passes -/
  | passes
  /-- the client reads a message and answers it -/
  | read
  /-- the next header or body is there -/
  | arrive
  /-- the reactor looks at the timer -/
  | expire
  deriving DecidableEq, Repr

namespace Paced

variable (chance : Chance) (timeout lag latency : Nat)

def step (s : Paced) : PacedEvent → Paced
  | .passes => { s with timer := s.timer + 1, transit := s.transit + 1, waiting := s.waiting + 1 }
  | .read =>
    if s.link.toClient = [] then s
    else { s with link := s.link.step chance .read, transit := 0, waiting := 0 }
  | .arrive =>
    -- `recvHeader` starts the timer again
    { s with
      link := s.link.step chance .arrive
      timer := if s.link.toServer ≠ [] ∧ s.link.expecting = getInitialState then 0 else s.timer }
  | .expire =>
    if s.link.armed ∧ timeout ≤ s.timer then
      { s with link := s.link.step chance .expire, timer := 0, transit := 0 }
    else s

def run (s : Paced) (events : List PacedEvent) : Paced := events.foldl (step chance timeout) s

/-- The timer is not more than `lag` late, and a message takes no longer than `latency`. -/
def Prompt (s : Paced) (e : PacedEvent) : Prop :=
  e = .passes → (s.link.armed = true → s.timer < timeout + lag) ∧
    (s.link.outstanding ≠ [] → s.transit < latency)

instance (s : Paced) (e : PacedEvent) : Decidable (s.Prompt timeout lag latency e) :=
  inferInstanceAs (Decidable (_ → _ ∧ _))

def OnTime (s : Paced) : List PacedEvent → Prop
  | [] => True
  | e :: rest => s.Prompt timeout lag latency e ∧ (s.step chance timeout e).OnTime rest

def decideOnTime (s : Paced) : (events : List PacedEvent) →
    Decidable (s.OnTime chance timeout lag latency events)
  | [] => .isTrue trivial
  | e :: rest =>
    have := (s.step chance timeout e).decideOnTime rest
    inferInstanceAs (Decidable (_ ∧ _))

instance (s : Paced) (events : List PacedEvent) :
    Decidable (s.OnTime chance timeout lag latency events) :=
  decideOnTime chance timeout lag latency s events

/-- Only pings and pongs are on their way, and the clocks are within their bounds. -/
structure Up (s : Paced) : Prop where
  valid : s.link.Valid
  alive : s.link.server.alive = true
  armed : s.link.armed = true
  pings : ∀ f ∈ s.link.toClient, f.msgId = Ping.msgId
  pongs : ∀ f ∈ s.link.toServer, f.msgId = Pong.msgId
  timely : s.timer ≤ timeout + lag
  /-- nothing is on its way, or the header of the pong has come -/
  heard : s.link.outstanding = [] ∨ s.link.expecting ≠ getInitialState →
    s.waiting ≤ s.timer + latency
  asked : s.link.toClient ≠ [] → s.timer ≤ s.transit ∧ s.transit ≤ latency ∧
    s.waiting ≤ timeout + lag + latency + s.transit
  answered : s.link.toServer ≠ [] → s.timer ≤ latency + s.transit ∧ s.transit ≤ latency ∧
    s.waiting ≤ s.transit

section Steps

variable {chance : Chance} {timeout lag latency : Nat} {s : Paced}

/-- Without messages on their way both directions are empty. -/
theorem Up.idle (up : s.Up timeout lag latency) (none : s.link.outstanding = []) :
    s.link.toClient = [] ∧ s.link.toServer = [] := by
  rw [Keepalive.outstanding, List.append_eq_nil_iff, List.map_eq_nil_iff, List.map_eq_nil_iff,
    List.filter_eq_nil_iff, List.filter_eq_nil_iff] at none
  constructor
  · rw [List.eq_nil_iff_forall_not_mem]
    intro f member
    exact none.1 f member (decide_eq_true (up.pings f member))
  · rw [List.eq_nil_iff_forall_not_mem]
    intro f member
    exact none.2 f member (decide_eq_true (up.pongs f member))

/-- The messages on their way, with their kinds. -/
theorem Up.outstanding (up : s.Up timeout lag latency) : s.link.outstanding =
    s.link.toClient.map Frame.body ++ s.link.toServer.map Frame.body := by
  have pings : s.link.toClient.filter (fun f => f.msgId = Ping.msgId) = s.link.toClient := by
    rw [List.filter_eq_self]
    exact fun f member => decide_eq_true (up.pings f member)
  have pongs : s.link.toServer.filter (fun f => f.msgId = Pong.msgId) = s.link.toServer := by
    rw [List.filter_eq_self]
    exact fun f member => decide_eq_true (up.pongs f member)
  rw [Keepalive.outstanding, pings, pongs]

/-- Nothing is on its way, or a ping, or its answer. -/
theorem Up.cases (up : s.Up timeout lag latency) :
    s.link.server.phase = 1 ∧ s.link.toClient = [] ∧ s.link.toServer = [] ∨
      ∃ f nonce, f.body = ofUInt 4 nonce ∧ s.link.server.phase = 2 ∧
        (s.link.toClient = [f] ∧ s.link.toServer = [] ∨
          s.link.toClient = [] ∧ s.link.toServer = [f]) := by
  rcases up.valid.agreed with ⟨first, none⟩ | ⟨second, nonce, -, -, one⟩
  · exact Or.inl ⟨first, up.idle none⟩
  · right
    rw [up.outstanding] at one
    rcases List.append_eq_singleton_iff.mp one with ⟨client, server⟩ | ⟨client, server⟩
    · obtain ⟨f, there, body⟩ := List.map_eq_singleton_iff.mp server
      exact ⟨f, nonce, body, second, Or.inr ⟨List.map_eq_nil_iff.mp client, there⟩⟩
    · obtain ⟨f, there, body⟩ := List.map_eq_singleton_iff.mp client
      exact ⟨f, nonce, body, second, Or.inl ⟨there, List.map_eq_nil_iff.mp server⟩⟩

/-- The receiver waits for a header when no pong is on its way. -/
theorem Up.waits_header (up : s.Up timeout lag latency) (none : s.link.toServer = []) :
    s.link.expecting = getInitialState := by
  rcases up.valid.parsing up.alive with header | ⟨f, rest, queue, -⟩
  · exact header
  · rw [none] at queue
    cases queue

theorem Up.passes (up : s.Up timeout lag latency) (prompt : s.Prompt timeout lag latency .passes) :
    (s.step chance timeout .passes).Up timeout lag latency := by
  obtain ⟨soon, quick⟩ := prompt rfl
  have early := soon up.armed
  refine ⟨up.valid, up.alive, up.armed, up.pings, up.pongs, early, ?_, ?_, ?_⟩
  · intro heard
    have := up.heard heard
    simp only [step]
    omega
  · intro client
    have moving := quick fun none => client (up.idle none).1
    have := up.asked client
    simp only [step]
    omega
  · intro server
    have moving := quick fun none => server (up.idle none).2
    have := up.answered server
    simp only [step]
    omega

/-- The client reads the ping and sends the pong. -/
theorem Up.read (range : ∀ n, chance.randint n < 2 ^ 32) (up : s.Up timeout lag latency) :
    (s.step chance timeout .read).Up timeout lag latency := by
  have valid := Keepalive.step_valid range up.valid .read
  rcases up.cases with ⟨-, client, -⟩ | ⟨f, nonce, -, -, ⟨client, server⟩ | ⟨client, -⟩⟩
  · simpa only [step, client, if_true] using up
  · have before := up.asked (by rw [client]; exact List.cons_ne_nil f [])
    have sent : s.link.step chance .read = { s.link with toClient := [], toServer := echo f } := by
      simp only [Keepalive.step, client, server, List.nil_append]
    rw [sent] at valid
    simp only [step, client, List.cons_ne_nil, if_false, sent]
    refine ⟨valid, up.alive, up.armed, by simp, ?_, up.timely, fun _ => Nat.zero_le _, by simp, ?_⟩
    · intro g member
      rw [echo] at member
      split at member
      · rw [List.mem_singleton.mp member]
      · cases member
    · intro _
      refine ⟨?_, Nat.zero_le _, Nat.zero_le _⟩
      show s.timer ≤ latency + 0
      omega
  · simpa only [step, client, if_true] using up

theorem Up.arrive_header (range : ∀ n, chance.randint n < 2 ^ 32) (up : s.Up timeout lag latency)
    {f : Frame} {nonce : Nat} (body : f.body = ofUInt 4 nonce) (client : s.link.toClient = [])
    (server : s.link.toServer = [f]) (header : s.link.expecting = getInitialState) :
    (s.step chance timeout .arrive).Up timeout lag latency := by
  have valid := Keepalive.step_valid range up.valid .arrive
  have filled : f.body ≠ [] := by
    intro empty
    have length := congrArg List.length (body.symm.trans empty)
    rw [length_ofUInt] at length
    cases length
  have heard : s.link.step chance .arrive =
      { s.link with expecting := (announced f).getD getInitialState, armed := true } := by
    rw [Keepalive.step, if_pos up.alive, Keepalive.arrive_header server header, if_neg filled,
      ← server]
  have before := up.answered (by rw [server]; exact List.cons_ne_nil f [])
  have here : s.link.toServer ≠ [] := by rw [server]; exact List.cons_ne_nil f []
  rw [heard] at valid
  simp only [step, heard, here, header, ne_eq, not_false_eq_true, and_self, if_true]
  refine ⟨valid, up.alive, rfl, up.pings, up.pongs, Nat.zero_le _, ?_, ?_, ?_⟩
  · intro _
    show s.waiting ≤ 0 + latency
    omega
  · intro some
    exact absurd client some
  · intro _
    exact ⟨Nat.zero_le _, before.2⟩

theorem Up.arrive_body (range : ∀ n, chance.randint n < 2 ^ 32) (up : s.Up timeout lag latency)
    {f : Frame} (client : s.link.toClient = []) (server : s.link.toServer = [f])
    (header : s.link.expecting ≠ getInitialState) :
    (s.step chance timeout .arrive).Up timeout lag latency := by
  have valid := Keepalive.step_valid range up.valid .arrive
  obtain ⟨f', rest, queue, expected⟩ := (up.valid.parsing up.alive).resolve_left header
  obtain ⟨rfl, rfl⟩ : f = f' ∧ [] = rest := List.cons.inj (server.symm.trans queue)
  have pong : f.msgId = Pong.msgId := up.pongs f (by rw [server]; exact List.mem_singleton_self f)
  obtain ⟨-, -, initial, first⟩ :=
    @Keepalive.arrive_pong chance s.link up.valid f [] server expected pong
  have whole := @Keepalive.arrive_body chance s.link f [] server expected
  have arrived : s.link.step chance .arrive = { s.link with
      expecting := getInitialState
      server := { s.link.server with phase := 1 }
      toServer := [] } := by
    rw [whole] at initial first
    have after : (afterFrame chance s.link.server f).2 = { s.link.server with phase := 1 } := first
    have header : (afterFrame chance s.link.server f).1 = getInitialState := initial
    have quiet : Keepalive.newPings s.link.server { s.link.server with phase := 1 } = [] :=
      Keepalive.newPings_same rfl
    rw [Keepalive.step, if_pos up.alive, whole, after, header]
    simp [Keepalive.serverTo, quiet]
  have soon := up.heard (Or.inr header)
  rw [arrived] at valid
  simp only [step, arrived, header, and_false, if_false]
  refine ⟨valid, up.alive, up.armed, up.pings, by simp, up.timely, fun _ => soon, ?_, by simp⟩
  intro some
  exact absurd client some

theorem Up.arrive (range : ∀ n, chance.randint n < 2 ^ 32) (up : s.Up timeout lag latency) :
    (s.step chance timeout .arrive).Up timeout lag latency := by
  have nothing (server : s.link.toServer = []) : s.step chance timeout .arrive = s := by
    have stays : s.link.step chance .arrive = s.link := by
      rw [Keepalive.step, if_pos up.alive, Keepalive.arrive, server]
    simp only [step, stays, server, ne_eq, not_true_eq_false, false_and, if_false]
  rcases up.cases with ⟨-, -, server⟩ | ⟨f, nonce, body, -, ⟨-, server⟩ | ⟨client, server⟩⟩
  · rw [nothing server]
    exact up
  · rw [nothing server]
    exact up
  · by_cases header : s.link.expecting = getInitialState
    · exact up.arrive_header range body client server header
    · exact up.arrive_body range client server header

/-- The timer expires, and not while a ping is out. -/
theorem Up.expire (range : ∀ n, chance.randint n < 2 ^ 32) (quick : 2 * latency < timeout)
    (up : s.Up timeout lag latency) : (s.step chance timeout .expire).Up timeout lag latency := by
  by_cases due : timeout ≤ s.timer
  · rcases up.cases with ⟨first, client, server⟩ | ⟨f, nonce, -, -, ⟨client, -⟩ | ⟨-, server⟩⟩
    · have valid := Keepalive.step_valid range up.valid .expire
      have idle : s.link.server.phase ≠ 2 := by
        rw [first]
        decide
      have sent : Keepalive.newPings s.link.server (pinged chance s.link.server) =
          [chance.randint s.link.server.effects.length] := Keepalive.newPings_of rfl rfl
      have pings : s.link.step chance .expire = { s.link with
          server := pinged chance s.link.server
          toClient := [pingFrame (chance.randint s.link.server.effects.length)] } := by
        simp only [Keepalive.step, up.armed, if_true, writePing_idle chance idle,
          Keepalive.serverTo, sent]
        simp [client]
      have header := up.waits_header server
      have soon := up.heard (Or.inl (by rw [up.outstanding, client, server]; rfl))
      have timely := up.timely
      rw [pings] at valid
      rw [step, if_pos ⟨up.armed, due⟩, pings]
      refine ⟨valid, up.alive, up.armed, ?_, up.pongs, Nat.zero_le _, ?_, ?_, ?_⟩
      · intro f member
        rw [List.mem_singleton.mp member]
        rfl
      · rintro (none | other)
        · simp [Keepalive.outstanding, pingFrame] at none
        · exact absurd header other
      · intro _
        refine ⟨Nat.zero_le _, Nat.zero_le _, ?_⟩
        show s.waiting ≤ timeout + lag + latency + 0
        omega
      · intro some
        exact absurd server some
    · have before := up.asked (by rw [client]; exact List.cons_ne_nil f [])
      omega
    · have before := up.answered (by rw [server]; exact List.cons_ne_nil f [])
      omega
  · simpa only [step, due, and_false, if_false] using up

theorem Up.step (range : ∀ n, chance.randint n < 2 ^ 32) (quick : 2 * latency < timeout)
    (up : s.Up timeout lag latency) {e : PacedEvent} (prompt : s.Prompt timeout lag latency e) :
    (s.step chance timeout e).Up timeout lag latency := by
  cases e with
  | passes => exact up.passes prompt
  | read => exact up.read range
  | arrive => exact up.arrive range
  | expire => exact up.expire range quick

theorem Up.run (range : ∀ n, chance.randint n < 2 ^ 32) (quick : 2 * latency < timeout)
    (up : s.Up timeout lag latency) {events : List PacedEvent}
    (onTime : s.OnTime chance timeout lag latency events) :
    (s.run chance timeout events).Up timeout lag latency := by
  induction events generalizing s with
  | nil => exact up
  | cons e rest ih => exact ih (up.step range quick onTime.1) onTime.2

/-- How long the client waits in a state in which the connection is up. -/
theorem Up.waits (up : s.Up timeout lag latency) :
    s.waiting ≤ timeout + lag + 2 * latency := by
  have timely := up.timely
  rcases up.cases with ⟨-, client, server⟩ | ⟨f, nonce, -, -, ⟨client, -⟩ | ⟨-, server⟩⟩
  · have soon := up.heard (Or.inl (by rw [up.outstanding, client, server]; rfl))
    omega
  · have asked := up.asked (by rw [client]; exact List.cons_ne_nil f [])
    omega
  · have answered := up.answered (by rw [server]; exact List.cons_ne_nil f [])
    omega

end Steps

/-- The server has received the upload and sent a ping. -/
structure Uploaded (k : Keepalive) : Prop where
  alive : k.server.alive = true
  armed : k.armed = true
  phase : k.server.phase = 2
  received : k.toServer = []
  sent : ∀ f ∈ k.toClient, f.msgId = Ping.msgId

theorem Uploaded.up {timeout lag latency : Nat} {k : Keepalive} (uploaded : Uploaded k)
    (valid : k.Valid) {waiting : Nat} (since : waiting ≤ latency) :
    Up timeout lag latency { link := k, waiting } := by
  refine ⟨valid, uploaded.alive, uploaded.armed, uploaded.sent, ?_, Nat.zero_le _, ?_, ?_, ?_⟩
  · intro f member
    rw [uploaded.received] at member
    cases member
  · intro _
    show waiting ≤ 0 + latency
    omega
  · intro _
    refine ⟨Nat.zero_le _, Nat.zero_le _, ?_⟩
    show waiting ≤ timeout + lag + latency + 0
    omega
  · intro some
    exact absurd uploaded.received some

/-- After an upload the pings keep the connection up: as long as two messages together take less
than the period of the server, the timer does not close it, and the client never waits for longer
than the period, the lateness of the reactor and the time of two messages. -/
theorem pings_keep_up (chance : Chance) (range : ∀ n, chance.randint n < 2 ^ 32)
    {timeout lag latency : Nat} (quick : 2 * latency < timeout) {before : List KeepaliveEvent}
    (uploaded : Uploaded (Keepalive.run chance before)) {waiting : Nat} (since : waiting ≤ latency)
    {events : List PacedEvent}
    (onTime : OnTime chance timeout lag latency
      { link := Keepalive.run chance before, waiting } events) :
    let s := run chance timeout { link := Keepalive.run chance before, waiting } events
    s.link.server.alive = true ∧ s.waiting ≤ timeout + lag + 2 * latency := by
  intro s
  have up : s.Up timeout lag latency :=
    (uploaded.up (Keepalive.run_valid range before) since).run range quick onTime
  exact ⟨up.alive, up.waits⟩

def uploading : List KeepaliveEvent :=
  [.read, .send (clientGreetingFrame 7), .arrive, .arrive, .send uploadDoneFrame, .arrive, .arrive]

def twoPings : List PacedEvent :=
  List.replicate 3 .passes ++ [.read] ++ List.replicate 2 .passes ++ [.arrive, .passes, .arrive] ++
    List.replicate 15 .passes ++ [.expire] ++ List.replicate 3 .passes ++ [.read, .arrive, .arrive]

theorem pings_keep_up_twoPings :
    Uploaded (Keepalive.run {} uploading) ∧
      (run {} 15 { link := Keepalive.run {} uploading, waiting := 1 } twoPings).waiting ≤ 15 + 1 + 2
        * 3 := by
  have uploaded : Uploaded (Keepalive.run {} uploading) :=
    ⟨by decide +kernel, by decide +kernel, by decide +kernel, by decide +kernel, by decide +kernel⟩
  refine ⟨uploaded, ?_⟩
  exact (pings_keep_up {} (fun _ => Nat.two_pow_pos 32) (by decide) uploaded (by decide)
    (by decide +kernel)).2

end Paced

end Recsync.System
