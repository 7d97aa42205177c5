import Recsync.Protocol.Codec
import Recsync.Recast.Connection

set_option autoImplicit false

/- The pings of the server and the pongs of the client. -/
namespace Recsync.Recast

open Protocol CastReceiver Bytes

/-- `messages.Ping(nonce).frame()`. -/
def pingFrame (nonce : Nat) : Frame := ⟨Ping.msgId, ofUInt 4 nonce, by decide, by simp⟩

/-- `messages.ServerGreeting(0).frame()`. -/
def greetingFrame : Frame := ⟨ServerGreeting.msgId, ofUInt 1 0, by decide, by simp⟩

/-- What `doCasterTCPPhase` sends for a message of the server after its upload. -/
def echo (f : Frame) : List Frame :=
  if enough : f.msgId = Ping.msgId ∧ 4 ≤ f.body.length then
    [⟨Pong.msgId, f.body.take 4, by decide, by
      rw [List.length_take]
      have := f.short
      omega⟩]
  else []

/-- The server side of a connection, the messages on their way, and the timer. -/
structure Keepalive where
  expecting : Expecting := getInitialState
  server : CastReceiver := {}
  /-- the ping timer is running -/
  armed : Bool := true
  /-- from the client, as long as the server has not received all of it -/
  toServer : List Frame := []
  /-- from the server, as long as the client has not read it -/
  toClient : List Frame := [greetingFrame]

inductive KeepaliveEvent where
  /-- the client sends a message other than a pong -/
  | send (f : Frame)
  /-- the client reads a message and answers it -/
  | read
  /-- the next header or body is there -/
  | arrive
  /-- the timer expires -/
  | expire

namespace Keepalive

def nonces (effects : List Effect) : List Nat :=
  effects.filterMap fun
    | .ping nonce => some nonce
    | _ => none

/-- The nonces that the receiver has sent on its way from `r` to `r'`. -/
def newPings (r r' : CastReceiver) : List Nat := nonces (r'.effects.drop r.effects.length)

variable (chance : Chance)

/-- The server goes on to `r`; `writePing` restarts the timer. -/
def serverTo (s : Keepalive) (r : CastReceiver) : Keepalive :=
  { s with
    server := r
    armed := s.armed || !(newPings s.server r).isEmpty
    toClient := s.toClient ++ (newPings s.server r).map pingFrame }

/-- The header of the first message arrives, or its body when the header was there already. -/
def arrive (s : Keepalive) : Keepalive :=
  match s.toServer with
  | [] => s
  | f :: rest =>
    if s.expecting = getInitialState then
      let next := (receiver chance).handle (s.expecting, s.server) f.header
      { s.serverTo next.2 with
        expecting := next.1
        armed := true
        toServer := if f.body = [] then rest else f :: rest }
    else
      let next := (receiver chance).handle (s.expecting, s.server) f.body
      { s.serverTo next.2 with expecting := next.1, toServer := rest }

def step (s : Keepalive) : KeepaliveEvent → Keepalive
  | .send f => if f.msgId = Pong.msgId then s else { s with toServer := s.toServer ++ [f] }
  | .read =>
    match s.toClient with
    | [] => s
    | f :: rest => { s with toClient := rest, toServer := s.toServer ++ echo f }
  | .arrive => if s.server.alive then s.arrive chance else s
  | .expire =>
    if s.armed then
      match writePing chance s.server with
      | .ok _ r => { s with armed := false }.serverTo r
      | .error _ r => { s with armed := false }.serverTo r
    else s

def run (events : List KeepaliveEvent) : Keepalive := events.foldl (step chance) {}

/-- The bodies of the pings that were not read and of the pongs that were not received. -/
def outstanding (s : Keepalive) : List (List UInt8) :=
  ((s.toClient.filter fun f => f.msgId = Ping.msgId).map Frame.body) ++
    ((s.toServer.filter fun f => f.msgId = Pong.msgId).map Frame.body)

/-- The phase tells whether a ping is unanswered, and which. -/
def Agreed (s : Keepalive) : Prop :=
  s.server.phase = 1 ∧ s.outstanding = [] ∨
    s.server.phase = 2 ∧ ∃ nonce, s.server.nonce = some nonce ∧ nonce < 2 ^ 32 ∧
      s.outstanding = [ofUInt 4 nonce]

section Pings

variable {chance}

theorem newPings_of {r r' : CastReceiver} {more : List Effect} {sent : List Nat}
    (effects : r'.effects = r.effects ++ more) (these : nonces more = sent) :
    newPings r r' = sent := by
  rw [newPings, effects, List.drop_left, these]

theorem newPings_same {r r' : CastReceiver} (effects : r'.effects = r.effects) :
    newPings r r' = [] := newPings_of (effects.trans (List.append_nil _).symm) rfl

/-- The ping state stays as it is, or a ping was sent in phase 1. -/
def PingStep (chance : Chance) (r r' : CastReceiver) : Prop :=
  r'.phase = r.phase ∧ r'.nonce = r.nonce ∧ newPings r r' = [] ∨
    r.phase = 1 ∧ r'.phase = 2 ∧ ∃ k, r'.nonce = some (chance.randint k) ∧
      newPings r r' = [chance.randint k]

theorem pinged_step {r : CastReceiver} (first : r.phase = 1) : PingStep chance r (pinged chance r) :=
  Or.inr ⟨first, rfl, r.effects.length, rfl, newPings_of rfl rfl⟩

theorem finished_step (r : CastReceiver) (number : Nat) :
    PingStep chance r (finished chance r number) := by
  unfold finished
  split
  · rename_i first
    exact Or.inr ⟨first, rfl, _, rfl, newPings_of (List.append_assoc _ _ _) rfl⟩
  · exact Or.inl ⟨rfl, rfl, newPings_of rfl rfl⟩

/-- No function but `recvPong` ends a ping, and only a greeting that is refused closes the
connection. -/
theorem reaction_step {body : List UInt8} {r : CastReceiver} {fn : RxFn}
    {result : EStateM.Result Failure CastReceiver (Option Expecting)}
    (reaction : Reaction chance body r fn result) (other : fn ≠ .recvPong) :
    PingStep chance r (resultState result) ∧
      ((resultState result).disconnecting = true →
        r.disconnecting = true ∨ fn = .recvClientGreeting) := by
  cases reaction with
  | ignored _ _ _ => exact ⟨Or.inl ⟨rfl, rfl, newPings_same rfl⟩, Or.inl⟩
  | refused kind _ =>
    refine ⟨Or.inl ⟨rfl, rfl, newPings_same rfl⟩, fun _ => Or.inr ?_⟩
    exact kind.resolve_right fun pong => other pong.1
  | greeted g _ _ => exact ⟨Or.inl ⟨rfl, rfl, newPings_of rfl rfl⟩, Or.inl⟩
  | ponged p _ _ => exact absurd rfl other
  | mismatched p nonce _ _ _ => exact absurd rfl other
  | called number call _ _ _ => exact ⟨Or.inl ⟨rfl, rfl, newPings_of rfl rfl⟩, Or.inl⟩
  | failed failure _ _ _ => exact ⟨Or.inl ⟨rfl, rfl, newPings_same rfl⟩, Or.inl⟩
  | orphaned _ => exact ⟨Or.inl ⟨rfl, rfl, newPings_of rfl rfl⟩, Or.inl⟩
  | done number _ =>
    refine ⟨finished_step r number, fun closing => Or.inl ?_⟩
    simpa [resultState, finished, pinged, apply_ite] using closing
  | doneAtOnce number _ =>
    refine ⟨finished_step r number, fun closing => Or.inl ?_⟩
    simpa [resultState, finished, pinged, apply_ite] using closing

end Pings

section Outstanding

variable (first second : List Frame)

def pings (frames : List Frame) : List (List UInt8) :=
  (frames.filter fun f => f.msgId = Ping.msgId).map Frame.body

def pongs (frames : List Frame) : List (List UInt8) :=
  (frames.filter fun f => f.msgId = Pong.msgId).map Frame.body

theorem outstanding_eq (s : Keepalive) : s.outstanding = pings s.toClient ++ pongs s.toServer := rfl

@[simp] theorem pings_append : pings (first ++ second) = pings first ++ pings second := by
  simp [pings]

@[simp] theorem pongs_append : pongs (first ++ second) = pongs first ++ pongs second := by
  simp [pongs]

@[simp] theorem pings_pingFrame (nonces : List Nat) :
    pings (nonces.map pingFrame) = nonces.map (ofUInt 4) := by
  induction nonces with
  | nil => rfl
  | cons nonce nonces ih => simpa [pings, pingFrame] using ih

theorem pongs_cons_other {f : Frame} (other : f.msgId ≠ Pong.msgId) (rest : List Frame) :
    pongs (f :: rest) = pongs rest := by
  simp [pongs, other]

theorem pongs_cons_pong {f : Frame} (pong : f.msgId = Pong.msgId) (rest : List Frame) :
    pongs (f :: rest) = f.body :: pongs rest := by
  simp [pongs, pong]

theorem pings_cons (f : Frame) (rest : List Frame) :
    pings (f :: rest) = (if f.msgId = Ping.msgId then [f.body] else []) ++ pings rest := by
  by_cases ping : f.msgId = Ping.msgId <;> simp [pings, ping]

end Outstanding

/-- The receiver waits for a header, or for the body of the first message. -/
def Parsing (s : Keepalive) : Prop :=
  s.server.alive = true → s.expecting = getInitialState ∨
    ∃ f rest, s.toServer = f :: rest ∧ announced f = some s.expecting

section Step

variable {chance} {s : Keepalive}

theorem Agreed.congr {s' : Keepalive} (agreed : s.Agreed) (phase : s'.server.phase = s.server.phase)
    (nonce : s'.server.nonce = s.server.nonce) (same : s'.outstanding = s.outstanding) :
    s'.Agreed := by
  unfold Agreed
  rw [phase, nonce, same]
  exact agreed

theorem Agreed.serverTo (range : ∀ n, chance.randint n < 2 ^ 32) (agreed : s.Agreed)
    {r : CastReceiver} (step : PingStep chance s.server r) : (s.serverTo r).Agreed := by
  rcases step with ⟨phase, nonce, quiet⟩ | ⟨first, second, k, nonce, sent⟩
  · apply agreed.congr phase nonce
    simp [outstanding_eq, Keepalive.serverTo, quiet]
  · rcases agreed with ⟨-, nothing⟩ | ⟨waiting, -⟩
    · refine Or.inr ⟨second, chance.randint k, nonce, range k, ?_⟩
      rw [outstanding_eq, List.append_eq_nil_iff] at nothing
      show pings (s.toClient ++ (newPings s.server r).map pingFrame) ++ pongs s.toServer = _
      rw [pings_append, pings_pingFrame, sent, nothing.1, nothing.2]
      rfl
    · rw [first] at waiting
      cases waiting

theorem echo_ping {f : Frame} (ping : f.msgId = Ping.msgId) {nonce : Nat}
    (body : f.body = ofUInt 4 nonce) : pongs (echo f) = [ofUInt 4 nonce] := by
  have enough : f.msgId = Ping.msgId ∧ 4 ≤ f.body.length := ⟨ping, by simp [body]⟩
  rw [echo, dif_pos enough, pongs_cons_pong rfl]
  simp [pongs, body, List.take_of_length_le]

theorem echo_other {f : Frame} (other : f.msgId ≠ Ping.msgId) : echo f = [] :=
  dif_neg fun both => other both.1

theorem read_agreed (agreed : s.Agreed) : (s.step chance .read).Agreed := by
  cases queue : s.toClient with
  | nil =>
    simp only [step, queue]
    exact agreed
  | cons f rest =>
    simp only [step, queue]
    refine agreed.congr rfl rfl ?_
    simp only [outstanding_eq, queue, pings_cons, pongs_append]
    by_cases ping : f.msgId = Ping.msgId
    · rcases agreed with ⟨-, nothing⟩ | ⟨-, nonce, -, -, one⟩
      · simp [outstanding_eq, queue, pings_cons, ping] at nothing
      · rw [outstanding_eq, queue, pings_cons, if_pos ping] at one
        simp only [List.cons_append, List.nil_append, List.cons.injEq, List.append_eq_nil_iff] at one
        rw [echo_ping ping one.1, one.2.1, one.2.2, if_pos ping, one.1]
        rfl
    · simp [echo_other ping, ping, pongs]

theorem send_agreed (agreed : s.Agreed) (f : Frame) : (s.step chance (.send f)).Agreed := by
  by_cases pong : f.msgId = Pong.msgId
  · simp only [step, if_pos pong]
    exact agreed
  · simp only [step, if_neg pong]
    refine agreed.congr rfl rfl ?_
    simp [outstanding_eq, pongs, pong]

theorem expire_agreed (range : ∀ n, chance.randint n < 2 ^ 32) (agreed : s.Agreed) :
    (s.step chance .expire).Agreed := by
  by_cases armed : s.armed = true
  · by_cases waiting : s.server.phase = 2
    · simp only [step, if_pos armed, writePing_missed chance waiting]
      exact Agreed.serverTo (s := { s with armed := false }) range agreed
        (Or.inl ⟨rfl, rfl, newPings_same rfl⟩)
    · have first : s.server.phase = 1 := by
        rcases agreed with ⟨first, -⟩ | ⟨second, -⟩
        · exact first
        · exact absurd second waiting
      simp only [step, if_pos armed, writePing_idle chance waiting]
      exact Agreed.serverTo (s := { s with armed := false }) range agreed (pinged_step first)
  · simp only [step, if_neg armed]
    exact agreed

/-- A pong that has not been received is the answer to the ping that is out. -/
theorem Agreed.pong (agreed : s.Agreed) {f : Frame} {rest : List Frame}
    (queue : s.toServer = f :: rest) (pong : f.msgId = Pong.msgId) :
    ∃ nonce, s.server.nonce = some nonce ∧ f.body = ofUInt 4 nonce ∧
      Pong.decode f.body = .ok ⟨nonce⟩ ∧ pings s.toClient = [] ∧ pongs rest = [] := by
  rcases agreed with ⟨-, nothing⟩ | ⟨-, nonce, known, range, one⟩
  · simp [outstanding_eq, queue, pongs_cons_pong pong] at nothing
  · rw [outstanding_eq, queue, pongs_cons_pong pong, List.append_eq_singleton_iff] at one
    have parts : pings s.toClient = [] ∧ f.body = ofUInt 4 nonce ∧ pongs rest = [] := by
      rcases one with ⟨nothing, same⟩ | ⟨-, nothing⟩
      · obtain ⟨body, others⟩ := List.cons.inj same
        exact ⟨nothing, body, others⟩
      · cases nothing
    refine ⟨nonce, known, parts.2.1, ?_, parts.1, parts.2.2⟩
    have encoded : (⟨nonce⟩ : Pong).encode = .ok f.body := by
      apply (pack_eq_ok_iff _ _).mpr
      exact ⟨by simpa using range, by simp [packed, parts.2.1]⟩
    exact one_field Pong.mk (fun _ => rfl) "Pong" encoded

theorem rxfn_pong : rxfn Pong.msgId = (.recvPong, 4) := rfl

theorem announced_pong {f : Frame} {e : Expecting} (expected : announced f = some e) :
    (e.fn = .recvPong → f.msgId = Pong.msgId) ∧
      (f.msgId = Pong.msgId → f.body.length = 4 → e.fn = .recvPong) := by
  have only : (rxfn f.msgId).1 = .recvPong → f.msgId = Pong.msgId := by
    unfold rxfn
    split
    · simp
    · split
      · exact fun _ => ‹_›
      · repeat' split
        all_goals simp
  unfold announced at expected
  split at expected
  · cases expected
  · split at expected
    · rename_i brief
      cases expected
      refine ⟨by simp, ?_⟩
      intro pong length
      rw [pong, rxfn_pong, length] at brief
      exact absurd brief.2 (by decide)
    · cases expected
      refine ⟨only, ?_⟩
      intro pong _
      show (rxfn f.msgId).1 = .recvPong
      rw [pong, rxfn_pong]

theorem arrive_header {f : Frame} {rest : List Frame} (queue : s.toServer = f :: rest)
    (header : s.expecting = getInitialState) :
    s.arrive chance = { s with
      expecting := (announced f).getD getInitialState
      armed := true
      toServer := if f.body = [] then rest else f :: rest } := by
  have quiet : s.serverTo s.server = s := by
    simp [serverTo, newPings_same]
  simp only [arrive, queue, if_pos header]
  rw [header, handle_header]
  simp only [quiet]

theorem arrive_body {f : Frame} {rest : List Frame} (queue : s.toServer = f :: rest)
    (expected : announced f = some s.expecting) :
    s.arrive chance = { s.serverTo (afterFrame chance s.server f).2 with
      expecting := (afterFrame chance s.server f).1
      toServer := rest } := by
  have body : s.expecting ≠ getInitialState := by
    intro same
    apply announced_fn expected
    rw [same]
    rfl
  have whole : afterFrame chance s.server f =
      (receiver chance).handle (s.expecting, s.server) f.body := by
    simp only [afterFrame, expected]
  simp only [arrive, queue, if_neg body, whole]

theorem Agreed.pop (agreed : s.Agreed) {f : Frame} {rest : List Frame}
    (queue : s.toServer = f :: rest) (other : f.msgId ≠ Pong.msgId) (expecting : Expecting) :
    { s with expecting, toServer := rest }.Agreed := by
  refine agreed.congr rfl rfl ?_
  rw [outstanding_eq, outstanding_eq, queue, pongs_cons_other other]

theorem afterFrame_pong {f : Frame} {e : Expecting} (expected : announced f = some e)
    (pong : e.fn = .recvPong) {r : CastReceiver} {nonce : Nat} (known : r.nonce = some nonce)
    (decoded : Pong.decode f.body = .ok ⟨nonce⟩) :
    afterFrame chance r f = (getInitialState, { r with phase := 1 }) := by
  have ran : CastReceiver.run chance f.body e.fn r =
      .ok (some getInitialState) { r with phase := 1 } := by
    rw [pong]
    show recvPong f.body r = _
    rw [recvPong_decoded decoded, known]
    simp
  simp only [afterFrame, expected]
  exact handle_ok chance ran

theorem afterFrame_other {f : Frame} {e : Expecting} (expected : announced f = some e)
    (other : e.fn ≠ .recvPong) (r : CastReceiver) :
    PingStep chance r (afterFrame chance r f).2 ∧
      ((afterFrame chance r f).2.disconnecting = true →
        r.disconnecting = true ∨ e.fn = .recvClientGreeting) := by
  obtain ⟨failed, handled⟩ := handle_resultState chance e r f.body
  have reaction := reaction_step (run_reacts chance (announced_fn expected) f.body r) other
  simp only [afterFrame, expected]
  rw [handled]
  exact reaction

structure Valid (s : Keepalive) : Prop where
  agreed : s.Agreed
  parsing : s.Parsing

/-- The answer to the ping arrives. -/
theorem arrive_pong (valid : s.Valid) {f : Frame} {rest : List Frame}
    (queue : s.toServer = f :: rest) (expected : announced f = some s.expecting)
    (pong : f.msgId = Pong.msgId) :
    s.expecting.fn = .recvPong ∧ (s.arrive chance).Agreed ∧
      (s.arrive chance).expecting = getInitialState ∧
      (s.arrive chance).server = { s.server with phase := 1 } := by
  obtain ⟨nonce, known, body, decoded, noPing, noPong⟩ := valid.agreed.pong queue pong
  have answer : s.expecting.fn = .recvPong :=
    (announced_pong expected).2 pong (by simp [body])
  have after := @afterFrame_pong chance f s.expecting expected answer s.server nonce known decoded
  rw [arrive_body queue expected, after]
  refine ⟨answer, Or.inl ⟨rfl, ?_⟩, rfl, rfl⟩
  have quiet : newPings s.server { s.server with phase := 1 } = [] := newPings_same rfl
  simp [outstanding_eq, serverTo, quiet, noPing, noPong]

theorem arrive_valid (range : ∀ n, chance.randint n < 2 ^ 32) (valid : s.Valid)
    (alive : s.server.alive = true) : (s.arrive chance).Valid := by
  cases queue : s.toServer with
  | nil =>
    have same : s.arrive chance = s := by simp only [arrive, queue]
    rw [same]
    exact valid
  | cons f rest =>
    rcases valid.parsing alive with header | ⟨f', rest', queue', expected⟩
    · rw [arrive_header queue header]
      constructor
      · by_cases empty : f.body = []
        · simp only [if_pos empty]
          have other : f.msgId ≠ Pong.msgId := by
            intro pong
            obtain ⟨nonce, -, body, -⟩ := valid.agreed.pong queue pong
            have length := congrArg List.length body
            simp [empty] at length
          exact (valid.agreed.pop queue other getInitialState).congr rfl rfl rfl
        · simp only [if_neg empty]
          refine valid.agreed.congr rfl rfl ?_
          rw [outstanding_eq, outstanding_eq, queue]
      · intro _
        cases expected : announced f with
        | none => exact Or.inl rfl
        | some e =>
          have body : f.body ≠ [] := by
            intro empty
            simp [announced, empty] at expected
          exact Or.inr ⟨f, rest, by simp [body], by simp [expected]⟩
    · obtain ⟨rfl, rfl⟩ := List.cons.inj (queue.symm.trans queue')
      by_cases pong : f.msgId = Pong.msgId
      · obtain ⟨-, agreed, header, -⟩ := @arrive_pong chance s valid f rest queue expected pong
        exact ⟨agreed, fun _ => Or.inl header⟩
      · have other : s.expecting.fn ≠ .recvPong := fun answer =>
          pong ((announced_pong expected).1 answer)
        rw [arrive_body queue expected]
        constructor
        · exact (valid.agreed.serverTo range (afterFrame_other expected other s.server).1).pop queue
            pong _
        · intro still
          exact Or.inl (afterFrame_header chance s.server f still)

theorem step_valid (range : ∀ n, chance.randint n < 2 ^ 32) (valid : s.Valid) (e : KeepaliveEvent) :
    (s.step chance e).Valid := by
  cases e with
  | send f =>
    refine ⟨send_agreed valid.agreed f, ?_⟩
    by_cases pong : f.msgId = Pong.msgId
    · simp only [step, if_pos pong]
      exact valid.parsing
    · simp only [step, if_neg pong]
      intro alive
      rcases valid.parsing alive with header | ⟨g, rest, queue, expected⟩
      · exact Or.inl header
      · exact Or.inr ⟨g, rest ++ [f], by simp [queue], expected⟩
  | read =>
    refine ⟨read_agreed valid.agreed, ?_⟩
    cases queue : s.toClient with
    | nil =>
      simp only [step, queue]
      exact valid.parsing
    | cons f rest =>
      simp only [step, queue]
      intro alive
      rcases valid.parsing alive with header | ⟨g, others, first, expected⟩
      · exact Or.inl header
      · exact Or.inr ⟨g, others ++ echo f, by simp [first], expected⟩
  | arrive =>
    by_cases alive : s.server.alive = true
    · simp only [step, if_pos alive]
      exact arrive_valid range valid alive
    · simp only [step, if_neg alive]
      exact valid
  | expire =>
    refine ⟨expire_agreed range valid.agreed, ?_⟩
    by_cases armed : s.armed = true
    · by_cases waiting : s.server.phase = 2
      · simp only [step, if_pos armed, writePing_missed chance waiting]
        intro alive
        simp [serverTo, CastReceiver.alive] at alive
      · simp only [step, if_pos armed, writePing_idle chance waiting]
        exact valid.parsing
    · simp only [step, if_neg armed]
      exact valid.parsing

theorem run_valid (range : ∀ n, chance.randint n < 2 ^ 32) (events : List KeepaliveEvent) :
    (run chance events).Valid := by
  have start : ({} : Keepalive).Valid := by
    refine ⟨Or.inl ⟨rfl, ?_⟩, fun _ => Or.inl rfl⟩
    decide
  unfold run
  generalize ({} : Keepalive) = s at start
  induction events generalizing s with
  | nil => exact start
  | cons e events ih => exact ih _ (step_valid range start e)

/-- A frame that makes the server close the connection comes where a greeting is expected. -/
theorem arrive_closes (valid : s.Valid) (alive : s.server.alive = true)
    (opened : s.server.disconnecting = false)
    (closed : (s.arrive chance).server.disconnecting = true) :
    s.expecting.fn = .recvClientGreeting := by
  cases queue : s.toServer with
  | nil =>
    simp only [arrive, queue] at closed
    exact absurd (closed.symm.trans opened) (by simp)
  | cons f rest =>
    rcases valid.parsing alive with header | ⟨f', rest', queue', expected⟩
    · rw [arrive_header queue header] at closed
      exact absurd (closed.symm.trans opened) (by simp)
    · by_cases pong : f'.msgId = Pong.msgId
      · obtain ⟨-, -, -, same⟩ := @arrive_pong chance s valid f' rest' queue' expected pong
        rw [same] at closed
        exact absurd (closed.symm.trans opened) (by simp)
      · have other : s.expecting.fn ≠ .recvPong := fun answer =>
          pong ((announced_pong expected).1 answer)
        rw [arrive_body queue' expected] at closed
        rcases (afterFrame_other expected other s.server).2 closed with before | greeting
        · rw [opened] at before
          cases before
        · exact greeting

/-- Only the timer and a refused greeting close the connection, the timer when a ping is out. -/
theorem step_closes (valid : s.Valid) (e : KeepaliveEvent)
    (opened : s.server.disconnecting = false)
    (closed : (s.step chance e).server.disconnecting = true) :
    e = .expire ∧ s.server.phase = 2 ∧ s.outstanding ≠ [] ∨
      e = .arrive ∧ s.expecting.fn = .recvClientGreeting := by
  have unchanged {s' : Keepalive} (same : s'.server = s.server)
      (closed : s'.server.disconnecting = true) : False := by
    rw [same, opened] at closed
    cases closed
  cases e with
  | send f =>
    refine absurd closed fun closed => unchanged ?_ closed
    simp only [step]
    split <;> rfl
  | read =>
    refine absurd closed fun closed => unchanged ?_ closed
    simp only [step]
    split <;> rfl
  | arrive =>
    refine Or.inr ⟨rfl, ?_⟩
    by_cases alive : s.server.alive = true
    · simp only [step, if_pos alive] at closed
      exact arrive_closes valid alive opened closed
    · simp only [step, if_neg alive] at closed
      exact absurd closed fun closed => unchanged rfl closed
  | expire =>
    refine Or.inl ⟨rfl, ?_⟩
    by_cases armed : s.armed = true
    · by_cases waiting : s.server.phase = 2
      · refine ⟨waiting, ?_⟩
        rcases valid.agreed with ⟨first, -⟩ | ⟨-, nonce, -, -, one⟩
        · rw [waiting] at first
          cases first
        · simp [one]
      · simp only [step, if_pos armed, writePing_idle chance waiting] at closed
        have still : (pinged chance s.server).disconnecting = true := closed
        exact absurd (still.symm.trans opened) (by simp)
    · simp only [step, if_neg armed] at closed
      exact absurd closed fun closed => unchanged rfl closed

end Step

/-- In every run of the server, the client, the messages between them and the timer: a ping or a
pong is on its way exactly in phase 2, only one, with the nonce of the server; `recvPong` gets that
nonce; and when the timer closes the connection the ping is unanswered. -/
theorem ping_pong_agree (chance : Chance) (range : ∀ n, chance.randint n < 2 ^ 32)
    (events : List KeepaliveEvent) :
    let s := run chance events
    s.outstanding.length ≤ 1 ∧ (s.outstanding.length = 1 ↔ s.server.phase = 2) ∧
      (∀ body ∈ s.outstanding, ∃ nonce, s.server.nonce = some nonce ∧ body = ofUInt 4 nonce) ∧
      (s.server.alive = true → s.expecting.fn = .recvPong → ∃ f rest nonce,
        s.toServer = f :: rest ∧ Pong.decode f.body = .ok ⟨nonce⟩ ∧ s.server.nonce = some nonce) ∧
      (∀ e, s.server.disconnecting = false → (s.step chance e).server.disconnecting = true →
        e = .expire ∧ s.server.phase = 2 ∧ s.outstanding ≠ [] ∨
          e = .arrive ∧ s.expecting.fn = .recvClientGreeting) := by
  intro s
  have valid : s.Valid := run_valid range events
  have phases : s.outstanding.length ≤ 1 ∧ (s.outstanding.length = 1 ↔ s.server.phase = 2) ∧
      ∀ body ∈ s.outstanding, ∃ nonce, s.server.nonce = some nonce ∧ body = ofUInt 4 nonce := by
    rcases valid.agreed with ⟨first, nothing⟩ | ⟨second, nonce, known, -, one⟩
    · simp [nothing, first]
    · refine ⟨by simp [one], by simp [one, second], ?_⟩
      intro body member
      rw [one, List.mem_singleton] at member
      exact ⟨nonce, known, member⟩
  refine ⟨phases.1, phases.2.1, phases.2.2, ?_, fun e => step_closes valid e⟩
  intro alive answer
  rcases valid.parsing alive with header | ⟨f, rest, queue, expected⟩
  · rw [header] at answer
    cases answer
  · obtain ⟨nonce, known, -, decoded, -⟩ :=
      valid.agreed.pong queue ((announced_pong expected).1 answer)
    exact ⟨f, rest, nonce, queue, decoded, known⟩

/-- The timer expires, the client reads the ping and its pong arrives. -/
theorem ping_pong_agree_once :
    (∀ n, (({} : Chance).randint n) < 2 ^ 32) ∧
      (run {} [.read, .expire, .read, .arrive]).outstanding.length ≤ 1 ∧
      (run {} [.read, .expire, .read, .arrive]).expecting.fn = .recvPong := by
  have range : ∀ n, (({} : Chance).randint n) < 2 ^ 32 := fun n => Nat.two_pow_pos 32
  exact ⟨range, (ping_pong_agree {} range [.read, .expire, .read, .arrive]).1, by decide +kernel⟩

end Keepalive

end Recsync.Recast
