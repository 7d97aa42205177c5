import Recsync.Lib.Runs
import Recsync.System.InStep

set_option autoImplicit false

/- Neither the client nor the server waits for the other one for ever. -/
namespace Recsync.System

open Protocol Recast CastReceiver
open Runs (Busy AtRest Ranked)

section Commits

variable {cfg : SessionConfig} {factory : Factory}

/-- No commit fails at once. -/
def Patient (factory : Factory) : Prop := ∀ n, factory n ≠ some (.error .other)

/-- The session has not asked for the end of the connection. -/
def Content (s : CollectionSession) : Prop := s.Ordered ∧ .loseConnection ∉ s.log

open CollectionSession in
theorem settledLog_content {settled : List (Transaction × Outcome)}
    {p : Deferred.Chain ChainStep CommitError Unit × List ChainEvent} {flushed : List Transaction}
    (state : ChainState flushed settled p) :
    .loseConnection ∈ p.2 ↔ .error .other ∈ settled.map Prod.snd := by
  rw [state.loseConnection_iff, ← state.outcomes_eq, outcomes, List.mem_filterMap]
  constructor
  · intro fired
    exact ⟨_, fired, rfl⟩
  · rintro ⟨e, member, same⟩
    cases e with
    | fired outcome =>
      obtain rfl := Option.some.inj same
      exact member
    | commit t => cases same
    | loseConnection => cases same

open CollectionSession in
theorem chainCommit_content (patient : Patient factory) {s : CollectionSession}
    {flushed : List Transaction} {settled : List (Transaction × Outcome)}
    (state : ChainState flushed settled (s.commitChain, s.log)) (silent : .loseConnection ∉ s.log)
    (t : Transaction) : .loseConnection ∉ (s.chainCommit factory t).log := by
  have fine : .error .other ∉ settled.map Prod.snd := mt (settledLog_content state).mpr silent
  rcases chainCommit_cases factory state t with ⟨-, committed⟩ | waits
  · have quiet : .loseConnection ∉ settledLog settled := by
      intro asked
      apply fine
      have fired := (loseConnection_mem_settledLog settled).mp asked
      rw [← outcomes_settledLog, outcomes, List.mem_filterMap]
      exact ⟨_, fired, rfl⟩
    have log : (s.chainCommit factory t).log = _ := congrArg Prod.snd committed
    have one : queueLinks [t] = [commitLink t, abortLink t] := rfl
    rw [one, runCallbacks_commit] at log
    rw [log]
    cases answer : factory (handed (settledLog settled)).length with
    | none => simpa using quiet
    | some outcome =>
      have other : aborted outcome = [] := by
        cases outcome with
        | ok u => rfl
        | error e =>
          cases e with
          | cancelledError => rfl
          | other => exact absurd answer (patient _)
      dsimp only
      rw [runCallbacks_abort, other]
      simpa [Deferred.runCallbacks] using quiet
  · exact mt (settledLog_content waits).mp fine

theorem flush_content (patient : Patient factory) {s : CollectionSession} (content : Content s) :
    Content (s.flush factory) := by
  refine ⟨CollectionSession.flush_ordered factory content.1, ?_⟩
  by_cases dirty : s.dirty = true
  · obtain ⟨⟨settled, state⟩, silent⟩ := content
    rw [CollectionSession.flush_dirty factory dirty]
    apply chainCommit_content patient
    · exact state
    · exact silent
  · rw [CollectionSession.flush_clean factory dirty]
    exact content.2

theorem call_content (patient : Patient factory) {s : CollectionSession} (content : Content s)
    (clock : Clock) (c : SessionCall) : Content (s.call cfg factory clock c) :=
  CollectionSession.call_maintains cfg factory (fun _ now => flush_content patient now)
    (fun _ _ _ now => now) content clock c

end Commits

section Calm

variable {env : Surroundings}

theorem foldl_apply_content (patient : ∀ number, Patient (env.factory number)) (clock : Clock)
    (effects : List Effect) {sessions : List CollectionSession}
    (content : ∀ t ∈ sessions, Content t) :
    ∀ t ∈ effects.foldl (Connection.apply env clock) sessions, Content t := by
  induction effects generalizing sessions with
  | nil => exact content
  | cons e effects ih =>
    apply ih
    cases e with
    | addClient =>
      intro t member
      rcases List.mem_append.mp member with old | new
      · exact content t old
      · rw [List.mem_singleton.mp new]
        exact ⟨CollectionSession.opened_ordered _ _ _, List.not_mem_nil⟩
    | session number call =>
      exact Connection.forall_modify content number fun t now =>
        call_content (patient number) now clock call
    | isDone active => exact content
    | ping nonce => exact content

theorem not_lost {sessions : List CollectionSession} (content : ∀ t ∈ sessions, Content t) :
    Connection.lost sessions = false := by
  apply List.any_eq_false.mpr
  intro t member
  have silent := (content t member).2
  rw [Bool.not_eq_true, List.any_eq_false]
  intro e logged
  cases e with
  | loseConnection => exact absurd logged silent
  | commit t => simp
  | fired outcome => simp

/-- The connection is there and no session wants to end it. -/
structure Calm (s : Link) : Prop where
  alive : s.keepalive.server.alive = true
  content : ∀ t ∈ s.sessions, Content t

/-- An event that is no expiry of the timer and no end of a commit. -/
def Prompt : LinkEvent → Prop
  | .send | .read | .arrive _ => True
  | _ => False

/-- Nothing is left to be sent, read or received. -/
def Settled (s : Link) : Prop :=
  s.todo = [] ∧ s.keepalive.toServer = [] ∧ s.keepalive.toClient = []

def serverWeight (f : Frame) : Nat := if f.msgId = Pong.msgId then 2 else 5

def clientWeight (f : Frame) : Nat := if f.msgId = Ping.msgId then 3 else 1

def total (weigh : Frame → Nat) : List Frame → Nat
  | [] => 0
  | f :: rest => weigh f + total weigh rest

theorem total_append (weigh : Frame → Nat) (first second : List Frame) :
    total weigh (first ++ second) = total weigh first + total weigh second := by
  induction first with
  | nil => exact (Nat.zero_add _).symm
  | cons f rest ih =>
    rw [List.cons_append, total, total, ih, Nat.add_assoc]

/-- The rank: how much is left to be done. A ping weighs more than its pong, Upload Done more than a ping. -/
def weight (s : Link) : Nat :=
  6 * s.todo.length + total serverWeight s.keepalive.toServer +
    total clientWeight s.keepalive.toClient +
      if s.keepalive.expecting = getInitialState then 1 else 0

variable {serverKey : Nat} {letters : List Letter} {s : Link}

/-- The greeting is still to be sent. -/
theorem Good.todo_of_connected (good : Good env serverKey letters s)
    (phase : s.phase = .connected) :
    s.todo ≠ [] := by
  obtain ⟨arrived, inFlight, later, answers, flow⟩ := good.flow
  obtain ⟨rfl, rfl⟩ := flow.fresh phase
  rw [flow.todo, ← show script letters = later from flow.split]
  exact List.cons_ne_nil _ _

theorem sendNext_advances (good : Good env serverKey letters s) (calm : Calm s)
    (more : s.todo ≠ []) (phase : ClientPhase) :
    weight (s.sendNext env phase) < weight s ∧ Calm (s.sendNext env phase) := by
  obtain ⟨arrived, inFlight, later, answers, flow⟩ := good.flow
  cases later with
  | nil => exact absurd flow.todo more
  | cons item later =>
    have next : s.sendNext env phase = { s with
        keepalive := { s.keepalive with
          toServer := s.keepalive.toServer ++ [item.frame serverKey] }
        phase
        todo := later.map (Item.frame serverKey) } := by
      rw [Link.sendNext, flow.todo]
      simp only [List.map_cons, Keepalive.step, if_neg (item.frame_noPong serverKey)]
    have five : serverWeight (item.frame serverKey) = 5 := if_neg (item.frame_noPong serverKey)
    rw [next]
    refine ⟨?_, calm.alive, calm.content⟩
    simp only [weight, flow.todo, List.map_cons, total_append, total, List.length_cons,
      List.length_map, five]
    omega

theorem readGreeting_advances (good : Good env serverKey letters s) (calm : Calm s)
    (waiting : s.phase = .waiting) :
    weight s.readGreeting < weight s ∧ Calm s.readGreeting := by
  obtain ⟨more, queue⟩ := good.greeting (by simp [waiting])
  have next : s.readGreeting = { s with
      keepalive := { s.keepalive with toClient := more }, phase := .talking } := by
    simp only [Link.readGreeting, queue]
    rfl
  have one : clientWeight greetingFrame = 1 := rfl
  rw [next]
  refine ⟨?_, calm.alive, calm.content⟩
  simp only [weight, queue, total, one]
  omega

theorem total_echo_le (f : Frame) : total serverWeight (echo f) + 1 ≤ clientWeight f := by
  unfold echo clientWeight
  by_cases ping : f.msgId = Ping.msgId
  · rw [if_pos ping]
    split
    · exact Nat.le_refl 3
    · exact Nat.le_add_left 1 2
  · rw [if_neg ping, dif_neg fun both => ping both.1]
    exact Nat.le_refl 1

theorem readNext_advances (calm : Calm s) {f : Frame} {rest : List Frame}
    (queue : s.keepalive.toClient = f :: rest) :
    let s' := { s with keepalive := s.keepalive.step env.chance .read }
    weight s' < weight s ∧ Calm s' := by
  have lighter := total_echo_le f
  simp only [Keepalive.step, queue]
  refine ⟨?_, calm.alive, calm.content⟩
  simp only [weight, queue, total_append, total]
  omega

theorem total_pingFrame (pings : List Nat) :
    total clientWeight (pings.map pingFrame) = 3 * pings.length := by
  induction pings with
  | nil => rfl
  | cons nonce pings ih =>
    have three : clientWeight (pingFrame nonce) = 3 := rfl
    simp only [List.map_cons, total, List.length_cons, ih, three]
    omega

theorem alive_iff (r : CastReceiver) :
    r.alive = true ↔ r.disconnecting = false ∧ r.failed = none := by
  simp [CastReceiver.alive]

theorem arrive_calm (normal : Normal env) (patient : ∀ number, Patient (env.factory number))
    (good : Good env serverKey letters s) (calm : Calm s) (clock : Clock) :
    Calm (s.step env (.arrive clock)) := by
  have arrives := good.arrive normal clock
  have content : ∀ t ∈ (s.step env (.arrive clock)).sessions, Content t :=
    foldl_apply_content patient clock _ calm.content
  have opened : s.keepalive.server.disconnecting = false := ((alive_iff _).mp calm.alive).1
  have still : (s.step env (.arrive clock)).keepalive.server.disconnecting = false := by
    show ((s.keepalive.step env.chance .arrive).server.disconnecting ||
      Connection.lost (s.step env (.arrive clock)).sessions) = false
    rw [arrives.1, opened, not_lost content]
    rfl
  exact ⟨(alive_iff _).mpr ⟨still, arrives.2.unfailed⟩, content⟩

theorem arrive_nothing (calm : Calm s) (empty : s.keepalive.toServer = []) (clock : Clock) :
    s.step env (.arrive clock) = s := by
  have same : s.keepalive.step env.chance .arrive = s.keepalive := by
    rw [Keepalive.step, if_pos calm.alive, Keepalive.arrive, empty]
  simp only [Link.step, same, List.drop_length, List.foldl_nil, Link.withSessions,
    not_lost calm.content, Bool.or_false]

theorem announced_filled {f : Frame} (filled : f.body ≠ []) :
    (announced f).getD getInitialState ≠ getInitialState := by
  cases expected : announced f with
  | none =>
    have some : ¬ f.body.length = 0 := mt List.length_eq_zero_iff.mp filled
    rw [announced, dif_neg some] at expected
    split at expected <;> cases expected
  | some e =>
    intro same
    apply announced_fn expected
    rw [show e = getInitialState from same]
    rfl

/-- The server goes on to the next header or body. -/
theorem arrive_advances (normal : Normal env) (good : Good env serverKey letters s)
    (calm : Calm s) (more : s.keepalive.toServer ≠ []) (clock : Clock) :
    weight (s.step env (.arrive clock)) < weight s := by
  have arrives : s.keepalive.step env.chance .arrive = s.keepalive.arrive env.chance :=
    if_pos calm.alive
  have same : weight (s.step env (.arrive clock)) =
      weight { s with keepalive := s.keepalive.arrive env.chance } := by
    rw [← arrives]
    rfl
  rw [same]
  cases queue : s.keepalive.toServer with
  | nil => exact absurd queue more
  | cons f rest =>
    rcases good.valid.parsing calm.alive with header | ⟨f', rest', queue', expected⟩
    · have body := good.filled queue
      rw [Keepalive.arrive_header queue header, if_neg body]
      simp only [weight, queue, if_neg (announced_filled body), if_pos header]
      omega
    · obtain ⟨arrival, after⟩ := good.arriveBody normal calm.alive queue' expected clock
      obtain ⟨pings, toClient, few, answered⟩ := arrival.toClient
      have opened : s.keepalive.server.disconnecting = false := ((alive_iff _).mp calm.alive).1
      have idle := arrival.expecting
        ((alive_iff _).mpr ⟨arrival.disconnecting.trans opened, after.unfailed⟩)
      have busy : s.keepalive.expecting ≠ getInitialState := by
        intro header
        apply announced_fn expected
        rw [header]
        rfl
      simp only [weight, arrival.toServer, toClient, queue', total_append, total, total_pingFrame,
        if_pos idle, if_neg busy]
      by_cases pong : f'.msgId = Pong.msgId
      · have two : serverWeight f' = 2 := if_pos pong
        rw [answered pong, two, List.length_nil]
        omega
      · have five : serverWeight f' = 5 := if_neg pong
        rw [five]
        omega

/-- As long as something is left, one of the two can go on. -/
theorem advance (normal : Normal env) (patient : ∀ number, Patient (env.factory number))
    (good : Good env serverKey letters s) (calm : Calm s) (unsettled : ¬ Settled s) :
    ∃ e, Prompt e ∧ weight (s.step env e) < weight s ∧ Calm (s.step env e) := by
  cases phase : s.phase with
  | connected =>
    refine ⟨.send, trivial, ?_⟩
    simp only [Link.step, phase]
    exact sendNext_advances good calm (good.todo_of_connected phase) .waiting
  | waiting =>
    refine ⟨.read, trivial, ?_⟩
    simp only [Link.step, phase]
    exact readGreeting_advances good calm phase
  | refused => exact absurd phase good.accepted
  | talking =>
    cases todo : s.todo with
    | cons f todo' =>
      refine ⟨.send, trivial, ?_⟩
      simp only [Link.step, phase]
      exact sendNext_advances good calm (by rw [todo]; exact List.cons_ne_nil _ _) .talking
    | nil =>
      cases toClient : s.keepalive.toClient with
      | cons f rest =>
        have empty : s.todo.isEmpty = true := by rw [todo]; rfl
        refine ⟨.read, trivial, ?_⟩
        simp only [Link.step, phase, if_pos empty]
        have next := @readNext_advances env s calm f rest toClient
        simp only [phase] at next
        exact next
      | nil =>
        have more : s.keepalive.toServer ≠ [] :=
          fun toServer => unsettled ⟨todo, toServer, toClient⟩
        exact ⟨.arrive {}, trivial, arrive_advances normal good calm more {},
          arrive_calm normal patient good calm {}⟩

/-- A session that asks for the end of the connection gets it. -/
theorem step_lost (asked : Connection.lost s.sessions = true →
    s.keepalive.server.disconnecting = true)
    (e : LinkEvent) (lost : Connection.lost (s.step env e).sessions = true) :
    (s.step env e).keepalive.server.disconnecting = true := by
  have client (own : e = .send ∨ e = .read) :
      (s.step env e).keepalive.server.disconnecting = true := by
    obtain ⟨server, sessions⟩ := Good.step_client env s own
    rw [server]
    rw [sessions] at lost
    exact asked lost
  cases e with
  | send => exact client (Or.inl rfl)
  | read => exact client (Or.inr rfl)
  | arrive clock => exact (Bool.or_eq_true _ _).mpr (Or.inr lost)
  | fires number outcome => exact (Bool.or_eq_true _ _).mpr (Or.inr lost)
  | expire =>
    have already := asked lost
    by_cases armed : s.keepalive.armed = true
    · by_cases waiting : s.keepalive.server.phase = 2
      · simp only [Link.step, Keepalive.step, if_pos armed, writePing_missed env.chance waiting]
        rfl
      · simp only [Link.step, Keepalive.step, if_pos armed, writePing_idle env.chance waiting]
        exact already
    · simp only [Link.step, Keepalive.step, if_neg armed]
      exact already

theorem run_lost (events : List LinkEvent) {s : Link}
    (asked : Connection.lost s.sessions = true → s.keepalive.server.disconnecting = true) :
    Connection.lost (s.run env events).sessions = true →
      (s.run env events).keepalive.server.disconnecting = true := by
  induction events generalizing s with
  | nil => exact asked
  | cons e events ih => exact ih (step_lost asked e)

theorem calm_of_alive (good : Good env serverKey letters s)
    (asked : Connection.lost s.sessions = true → s.keepalive.server.disconnecting = true)
    (alive : s.keepalive.server.alive = true) : Calm s := by
  refine ⟨alive, ?_⟩
  intro t member
  constructor
  · obtain ⟨arrived, inFlight, later, answers, flow⟩ := good.flow
    have served := flow.served
    cases arrived with
    | nil => simp [served.2.2] at member
    | cons first before =>
      obtain ⟨-, events, -, -, sessions⟩ := served
      rw [sessions, List.mem_singleton] at member
      rw [member]
      exact CollectionSession.run_ordered _ _ (CollectionSession.opened_ordered _ _ _) events
  · intro wanted
    have lost : Connection.lost s.sessions = true :=
      List.any_eq_true.mpr ⟨t, member, List.any_eq_true.mpr ⟨_, wanted, rfl⟩⟩
    have opened := ((alive_iff _).mp alive).1
    rw [asked lost] at opened
    cases opened

/-- A step of the messages changes nothing, or it lowers the rank. -/
theorem prompt_step (normal : Normal env) (patient : ∀ number, Patient (env.factory number))
    (good : Good env serverKey letters s) (calm : Calm s) {e : LinkEvent} (prompt : Prompt e) :
    Calm (s.step env e) ∧ (s.step env e = s ∨ weight (s.step env e) < weight s) := by
  have same : Calm s ∧ (s = s ∨ weight s < weight s) := ⟨calm, Or.inl rfl⟩
  have sends (more : s.todo ≠ []) (phase : ClientPhase) : Calm (s.sendNext env phase) ∧
      (s.sendNext env phase = s ∨ weight (s.sendNext env phase) < weight s) :=
    (sendNext_advances good calm more phase).symm.imp_right Or.inr
  cases e with
  | send =>
    simp only [Link.step]
    cases phase : s.phase with
    | connected =>
      exact sends (good.todo_of_connected phase) .waiting
    | waiting => exact same
    | refused => exact same
    | talking =>
      cases todo : s.todo with
      | nil =>
        have idle : s.sendNext env .talking = s := by rw [Link.sendNext, todo]
        dsimp only
        rw [idle]
        exact same
      | cons f more => exact sends (by rw [todo]; exact List.cons_ne_nil _ _) .talking
  | read =>
    simp only [Link.step]
    cases phase : s.phase with
    | connected => exact same
    | waiting => exact (readGreeting_advances good calm phase).symm.imp_right Or.inr
    | refused => exact same
    | talking =>
      dsimp only
      split
      · cases toClient : s.keepalive.toClient with
        | nil =>
          have idle : s.keepalive.step env.chance .read = s.keepalive := by
            simp only [Keepalive.step, toClient]
          rw [idle]
          rw [← phase]
          exact same
        | cons f rest =>
          rw [← phase]
          exact (@readNext_advances env s calm f rest toClient).symm.imp_right Or.inr
      · exact same
  | arrive clock =>
    refine ⟨arrive_calm normal patient good calm clock, ?_⟩
    by_cases more : s.keepalive.toServer = []
    · exact Or.inl (arrive_nothing calm more clock)
    · exact Or.inr (arrive_advances normal good calm more clock)
  | expire => cases prompt
  | fires number outcome => cases prompt

theorem prompt_ranked (normal : Normal env) (patient : ∀ number, Patient (env.factory number)) :
    Ranked (Link.step env) Prompt (fun s => Good env serverKey letters s ∧ Calm s) weight where
  keeps _ e now prompt := ⟨now.1.step normal e, (prompt_step normal patient now.1 now.2 prompt).1⟩
  lowers _ _ now prompt := (prompt_step normal patient now.1 now.2 prompt).2

theorem settled_of_rest (normal : Normal env) (patient : ∀ number, Patient (env.factory number))
    (good : Good env serverKey letters s) (calm : Calm s)
    (rest : AtRest (Link.step env) Prompt s) : Settled s := by
  by_contra unsettled
  obtain ⟨e, prompt, lighter, -⟩ := advance normal patient good calm unsettled
  rw [rest e prompt] at lighter
  omega

end Calm

/-- The upload is through: everything is sent, read and received, no ping is unanswered, and the
session has got all calls. -/
structure Link.Complete (letters : List Letter) (s : Link) : Prop where
  settled : Settled s
  alive : s.keepalive.server.alive = true
  answered : s.keepalive.server.phase = 1
  received : sessionCalls s.keepalive.server.effects = letters.map Letter.call ++ [.done]

theorem Good.complete {env : Surroundings} {serverKey : Nat} {letters : List Letter} {s : Link}
    (good : Good env serverKey letters s) (settled : Settled s)
    (alive : s.keepalive.server.alive = true) : s.Complete letters := by
  have nothing : s.keepalive.outstanding = [] := by
    rw [Keepalive.outstanding_eq, settled.2.1, settled.2.2]
    rfl
  have answered : s.keepalive.server.phase = 1 := by
    rcases good.valid.agreed with ⟨first, -⟩ | ⟨-, nonce, -, -, one⟩
    · exact first
    · rw [nothing] at one
      cases one
  have delivered : Good.Delivered s := ⟨settled.1, by rw [settled.2.1]; simp⟩
  exact ⟨settled, alive, answered, (good.flow_delivered delivered).2⟩

/-- From every state that a run of a client and a server can reach, as long as the connection is
there, the messages alone lead to the end of the upload: each step lowers the rank, unless it
changes nothing, so the two can take no more steps than the rank says, and when they can take none
the upload is through. -/
theorem link_settles {env : Surroundings} (normal : Normal env)
    (patient : ∀ number, Patient (env.factory number)) (serverKey : Nat) (letters : List Letter)
    (events : List LinkEvent)
    (alive : ((Link.start serverKey letters).run env events).keepalive.server.alive = true) :
    let s := (Link.start serverKey letters).run env events
    (∀ e, Prompt e → s.step env e = s ∨ weight (s.step env e) < weight s) ∧
      (∀ more, Busy (Link.step env) Prompt s more →
        more.length ≤ weight s ∧ (s.run env more).keepalive.server.alive = true ∧
          (AtRest (Link.step env) Prompt (s.run env more) → (s.run env more).Complete letters)) ∧
      ∃ more, Busy (Link.step env) Prompt s more ∧ (s.run env more).Complete letters := by
  intro s
  have good : Good env serverKey letters s :=
    (Good.start normal serverKey letters).run normal events
  have calm : Calm s :=
    calm_of_alive good (run_lost events (by simp [Link.start, Connection.lost])) alive
  have ranked := @prompt_ranked env serverKey letters normal patient
  have ends {more : List LinkEvent} (busy : Busy (Link.step env) Prompt s more)
      (rest : AtRest (Link.step env) Prompt (s.run env more)) :
        (s.run env more).Complete letters := by
    obtain ⟨⟨after, quiet⟩, -⟩ := ranked.busy ⟨good, calm⟩ busy
    exact after.complete (settled_of_rest normal patient after quiet rest) quiet.alive
  refine ⟨fun e prompt => ranked.lowers s e ⟨good, calm⟩ prompt, ?_, ?_⟩
  · intro more busy
    obtain ⟨⟨-, quiet⟩, fewer⟩ := ranked.busy ⟨good, calm⟩ busy
    exact ⟨by omega, quiet.alive, ends busy⟩
  · obtain ⟨more, busy, rest⟩ := ranked.comes_to_rest _ ⟨good, calm⟩ (Nat.le_refl _)
    exact ⟨more, busy, ends busy rest⟩

/-- The record is on its way and a ping is out. -/
theorem link_settles_pinged :
    ∃ more, Busy (Link.step quietServer) Prompt
        ((Link.start 5 pvLetters).run quietServer (pingedUpload.take 7)) more ∧
      sessionCalls (((Link.start 5 pvLetters).run quietServer
        (pingedUpload.take 7)).run quietServer more).keepalive.server.effects =
          [.addRecord 1 "ai" "pv", .done] := by
  have patient : ∀ number, Patient (quietServer.factory number) := by
    intro number n answer
    cases answer
  obtain ⟨-, -, more, busy, complete⟩ := link_settles quietServer_normal patient 5 pvLetters
    (pingedUpload.take 7) (by decide +kernel)
  exact ⟨more, busy, complete.received⟩

end Recsync.System
