import Recsync.Recast.CommitChain
import Recsync.Recast.Frames

set_option autoImplicit false

/- A connection with the sessions that were opened for it. -/
namespace Recsync.Recast

open Protocol CastReceiver

def Frame.Greets (f : Frame) : Prop :=
  f.msgId = ClientGreeting.msgId ∧
    ∃ g, ClientGreeting.decode f.body = .ok g ∧ g.clientType = 0

/-- The effect opens no session, and a call goes to the session `sess`. -/
def Effect.Within (sess : Option Nat) (e : Effect) : Prop :=
  e ≠ .addClient ∧ ∀ number call, e = .session number call → sess = some number

section Effects

variable (chance : Chance)

/-- What a function leaves behind besides the greeting. -/
structure Keeps (r r' : CastReceiver) : Prop where
  sess : r'.sess = r.sess
  sessions : r'.sessions = r.sessions
  effects : ∃ more, r'.effects = r.effects ++ more ∧ ∀ e ∈ more, e.Within r.sess

structure Opens (r r' : CastReceiver) : Prop where
  sess : r'.sess = some r.sessions
  sessions : r'.sessions = r.sessions + 1
  effects : r'.effects = r.effects ++ [.addClient]

theorem Keeps.refl (r : CastReceiver) : Keeps r r := ⟨rfl, rfl, [], by simp, by simp⟩

theorem finished_keeps {r : CastReceiver} {number : Nat} (session : r.sess = some number) :
    Keeps r (finished chance r number) := by
  have within : ∀ e ∈ [Effect.isDone r.active, .session number .done], e.Within r.sess := by
    intro e member
    simp only [List.mem_cons, List.not_mem_nil, or_false] at member
    rcases member with rfl | rfl
    · exact ⟨by simp, by simp⟩
    · refine ⟨by simp, ?_⟩
      intro n call same
      cases same
      exact session
  unfold finished
  split
  · refine ⟨rfl, rfl, _, List.append_assoc _ _ _, ?_⟩
    intro e member
    rcases List.mem_append.mp member with old | last
    · exact within e old
    · simp only [List.mem_singleton] at last
      exact ⟨by simp [last], by simp [last]⟩
  · exact ⟨rfl, rfl, _, rfl, within⟩

def resultState : EStateM.Result Failure CastReceiver (Option Expecting) → CastReceiver
  | .ok _ r => r
  | .error _ r => r

theorem reaction_keeps {body : List UInt8} {r : CastReceiver} {fn : RxFn}
    {result : EStateM.Result Failure CastReceiver (Option Expecting)}
    (reaction : Reaction chance body r fn result) :
    (∃ g, fn = .recvClientGreeting ∧ ClientGreeting.decode body = .ok g ∧ g.clientType = 0) ∧
        Opens r (resultState result) ∨
      (∀ g, ClientGreeting.decode body = .ok g → fn = .recvClientGreeting → g.clientType ≠ 0) ∧
        Keeps r (resultState result) := by
  cases reaction with
  | ignored greeting _ _ => exact Or.inr ⟨fun _ _ same => absurd same greeting, Keeps.refl r⟩
  | refused _ other => exact Or.inr ⟨other, ⟨rfl, rfl, [], by simp [resultState], by simp⟩⟩
  | greeted g decoded plain => exact Or.inl ⟨⟨g, rfl, decoded, plain⟩, rfl, rfl, rfl⟩
  | ponged p decoded known =>
    exact Or.inr ⟨fun _ _ same => (by cases same), ⟨rfl, rfl, [], by simp [resultState], by simp⟩⟩
  | mismatched p nonce decoded known other =>
    exact Or.inr ⟨fun _ _ same => (by cases same), ⟨rfl, rfl, [], by simp [resultState], by simp⟩⟩
  | called number call session _ kind =>
    refine Or.inr ⟨fun _ _ same => (by rcases kind with rfl | rfl | rfl <;> cases same), rfl, rfl, _,
      rfl, ?_⟩
    intro e member
    obtain rfl : e = .session number call := by simpa using member
    refine ⟨by simp, ?_⟩
    intro n c same
    cases same
    exact session
  | failed failure greeting _ _ => exact Or.inr ⟨fun _ _ same => absurd same greeting, Keeps.refl r⟩
  | orphaned missing =>
    refine Or.inr ⟨fun _ _ same => (by cases same), rfl, rfl, _, rfl, ?_⟩
    intro e member
    obtain rfl : e = .isDone r.active := by simpa using member
    exact ⟨by simp, by simp⟩
  | done number session =>
    exact Or.inr ⟨fun _ _ same => (by cases same), finished_keeps chance session⟩
  | doneAtOnce number session =>
    exact Or.inr ⟨fun _ _ same => (by cases same), finished_keeps chance session⟩

theorem announced_greeting {f : Frame} {e : Expecting} (expected : announced f = some e)
    (greeting : e.fn = .recvClientGreeting) : f.msgId = ClientGreeting.msgId := by
  have only : (rxfn f.msgId).1 = .recvClientGreeting → f.msgId = ClientGreeting.msgId := by
    unfold rxfn
    split
    · exact fun _ => ‹_›
    · repeat' split
      all_goals simp
  unfold announced at expected
  split at expected
  · cases expected
  · split at expected
    · cases expected
      cases greeting
    · cases expected
      exact only greeting

theorem announced_of_greets {f : Frame} (greets : f.Greets) :
    ∃ e, announced f = some e ∧ e.fn = .recvClientGreeting := by
  obtain ⟨id, g, decoded, -⟩ := greets
  have exactly : f.body.length = 8 := by
    apply Classical.byContradiction
    intro other
    obtain ⟨message, wrong⟩ := requireLength_wrong other "ClientGreeting"
    simp only [ClientGreeting.decode, ClientGreeting.payloadSize, wrong] at decoded
    cases decoded
  have known : rxfn f.msgId = (.recvClientGreeting, 8) := by
    rw [id]
    rfl
  refine ⟨⟨.recvClientGreeting, f.body.length, by omega⟩, ?_, rfl⟩
  unfold announced
  rw [known, dif_neg (by omega), if_neg (by omega)]

theorem handle_resultState (e : Expecting) (r : CastReceiver) (data : List UInt8) :
    ∃ failed, ((receiver chance).handle (e, r) data).2 =
      { resultState (run chance data e.fn r) with failed } := by
  match ran : run chance data e.fn r with
  | .ok (some next) r' => exact ⟨r'.failed, congrArg Prod.snd (handle_ok chance ran)⟩
  | .ok none r' => exact ⟨r'.failed, congrArg Prod.snd (handle_none chance ran)⟩
  | .error failure r' => exact ⟨some failure, congrArg Prod.snd (handle_error chance ran)⟩

/-- A frame opens one session when it is a greeting that is accepted, and none else. -/
theorem afterFrame_keeps (r : CastReceiver) (f : Frame) :
    f.Greets ∧ Opens r (afterFrame chance r f).2 ∨ ¬ f.Greets ∧ Keeps r (afterFrame chance r f).2 := by
  unfold afterFrame
  cases expected : announced f with
  | none =>
    refine Or.inr ⟨?_, Keeps.refl r⟩
    intro greets
    obtain ⟨e, same, -⟩ := announced_of_greets greets
    rw [expected] at same
    cases same
  | some e =>
    obtain ⟨failed, handled⟩ := handle_resultState chance e r f.body
    show f.Greets ∧ Opens r ((receiver chance).handle (e, r) f.body).2 ∨
      ¬ f.Greets ∧ Keeps r ((receiver chance).handle (e, r) f.body).2
    rw [handled]
    rcases reaction_keeps chance (run_reacts chance (announced_fn expected) f.body r) with
      ⟨⟨g, greeting, decoded, plain⟩, opens⟩ | ⟨other, keeps⟩
    · exact Or.inl ⟨⟨announced_greeting expected greeting, g, decoded, plain⟩,
        opens.sess, opens.sessions, opens.effects⟩
    · refine Or.inr ⟨?_, keeps.sess, keeps.sessions, keeps.effects⟩
      intro greets
      obtain ⟨e', same, greeting⟩ := announced_of_greets greets
      obtain ⟨-, g, decoded, plain⟩ := greets
      rw [expected] at same
      cases same
      exact other g decoded greeting plain

end Effects

/-- What a connection meets: its address, the ids of the session objects, the answers of the
factory to each session, and chance. -/
structure Surroundings where
  chance : Chance := {}
  host : String
  port : Nat
  cfg : SessionConfig := {}
  /-- `id(self)` of the sessions, in the order in which they are made -/
  srcid : Nat → Nat
  factory : Nat → Factory

structure Connection where
  receiver : CastReceiver := {}
  /-- the sessions that `addClient` has made -/
  sessions : List CollectionSession := []
  /-- the sessions on which `close` was called -/
  closed : List Nat := []

inductive ConnectionEvent where
  | frame (f : Frame) (clock : Clock)
  /-- the ping timer expires -/
  | timer
  /-- the Deferred of the running commit of a session fires -/
  | fires (number : Nat) (outcome : Outcome)

namespace Connection

variable (env : Surroundings)

def apply (clock : Clock) (sessions : List CollectionSession) : Effect → List CollectionSession
  | .addClient => sessions ++ [.opened env.host env.port (env.srcid sessions.length)]
  | .session number call =>
    sessions.modify number fun s => s.call env.cfg (env.factory number) clock call
  | _ => sessions

/-- Some session has asked the transport to lose the connection. -/
def lost (sessions : List CollectionSession) : Bool :=
  sessions.any fun s => s.log.any fun
    | .loseConnection => true
    | _ => false

/-- The transport is disconnecting from the moment on at which a session asks for it. -/
def withSessions (c : Connection) (sessions : List CollectionSession) : Connection :=
  { c with
    sessions
    receiver := { c.receiver with disconnecting := c.receiver.disconnecting || lost sessions } }

def step (c : Connection) : ConnectionEvent → Connection
  | .frame f clock =>
    if c.receiver.alive then
      let r := (afterFrame env.chance c.receiver f).2
      let news := r.effects.drop c.receiver.effects.length
      { c with receiver := r }.withSessions (news.foldl (apply env clock) c.sessions)
    else c
  | .timer =>
    match writePing env.chance c.receiver with
    | .ok _ r => { c with receiver := r }
    | .error _ r => { c with receiver := r }
  | .fires number outcome =>
    c.withSessions (c.sessions.modify number fun s => s.fire (env.factory number) outcome)

def run (c : Connection) (events : List ConnectionEvent) : Connection := events.foldl (step env) c

def connectionLost (c : Connection) : Connection :=
  let receiver := { c.receiver with
    effects := c.receiver.effects ++ [.isDone c.receiver.active]
    sess := none }
  match c.receiver.sess with
  | none => { c with receiver }
  | some number =>
    { receiver
      sessions := c.sessions.modify number fun s => s.close (env.factory number)
      closed := c.closed ++ [number] }

def Live (s : CollectionSession) : Prop := s.Ordered ∧ s.Connected ∧ s.SameSource

theorem opened_live (host : String) (port srcid : Nat) :
    Live (.opened host port srcid) :=
  ⟨CollectionSession.opened_ordered host port srcid, ⟨rfl, by simp [CollectionSession.opened]⟩,
    ⟨rfl, by simp [CollectionSession.opened]⟩⟩

theorem call_live {s : CollectionSession} (live : Live s) (cfg : SessionConfig) (factory : Factory)
    (clock : Clock) (call : SessionCall) : Live (s.call cfg factory clock call) :=
  ⟨CollectionSession.step_ordered cfg factory live.1 (.call clock call),
    CollectionSession.call_connected cfg factory live.2.1 clock call,
    CollectionSession.call_sameSource cfg factory live.2.2 clock call⟩

theorem fire_live {s : CollectionSession} (live : Live s) (factory : Factory) (outcome : Outcome) :
    Live (s.fire factory outcome) := by
  have ordered := CollectionSession.fire_ordered factory live.1 outcome
  obtain ⟨commitChain, log, same⟩ := CollectionSession.fire_eq_chain factory s outcome
  refine ⟨ordered, ?_⟩
  rw [same]
  exact live.2

/-- A property of all sessions survives a change of one of them that keeps it. -/
theorem forall_modify {I : CollectionSession → Prop} {sessions : List CollectionSession}
    (all : ∀ s ∈ sessions, I s) (number : Nat) {f : CollectionSession → CollectionSession}
    (keeps : ∀ s, I s → I (f s)) : ∀ s ∈ sessions.modify number f, I s := by
  intro s member
  obtain ⟨i, here⟩ := List.mem_iff_getElem?.mp member
  rw [List.getElem?_modify] at here
  obtain ⟨old, found, rfl⟩ := Option.map_eq_some_iff.mp here
  have before := all old (List.mem_of_getElem? found)
  split
  · exact keeps old before
  · exact before

/-- A connection that is not lost yet: its last session is the one of the receiver. -/
structure Open (c : Connection) : Prop where
  counted : c.receiver.sessions = c.sessions.length
  last : c.receiver.sess = if c.sessions.length = 0 then none else some (c.sessions.length - 1)
  unclosed : c.closed = []
  live : ∀ s ∈ c.sessions, Live s

theorem foldl_apply_within (clock : Clock) {sess : Option Nat} (effects : List Effect)
    (within : ∀ e ∈ effects, e.Within sess) {sessions : List CollectionSession}
    (live : ∀ s ∈ sessions, Live s) :
    (effects.foldl (apply env clock) sessions).length = sessions.length ∧
      ∀ s ∈ effects.foldl (apply env clock) sessions, Live s := by
  induction effects generalizing sessions with
  | nil => exact ⟨rfl, live⟩
  | cons e effects ih =>
    have others : ∀ e ∈ effects, e.Within sess := fun e later => within e (List.mem_cons_of_mem _ later)
    rw [List.foldl_cons]
    cases e with
    | addClient => exact absurd rfl (within _ List.mem_cons_self).1
    | session number call =>
      obtain ⟨length, after⟩ := ih others (forall_modify live number fun s now =>
        call_live now env.cfg (env.factory number) clock call)
      exact ⟨length.trans (List.length_modify ..), after⟩
    | isDone active => exact ih others live
    | ping nonce => exact ih others live

/-- The event is an accepted greeting on a connection that is still there. -/
def Opening (c : Connection) (e : ConnectionEvent) : Prop :=
  ∃ f clock, e = .frame f clock ∧ c.receiver.alive = true ∧ f.Greets

/-- A receiver that opened a session brings one session more to the connection. -/
theorem frame_opens {c : Connection} (opened : c.Open) {r : CastReceiver}
    (opens : Opens c.receiver r) (clock : Clock) :
    let c' := ({ c with receiver := r }).withSessions
      ((r.effects.drop c.receiver.effects.length).foldl (apply env clock) c.sessions)
    c'.Open ∧ c'.sessions.length = c.sessions.length + 1 := by
  intro c'
  have sessions : c'.sessions =
      c.sessions ++ [.opened env.host env.port (env.srcid c.sessions.length)] := by
    simp [c', withSessions, opens.effects, apply]
  have count : c'.sessions.length = c.sessions.length + 1 := by
    rw [sessions, List.length_append, List.length_singleton]
  refine ⟨⟨?_, ?_, opened.unclosed, ?_⟩, count⟩
  · rw [count]
    exact opens.sessions.trans (congrArg (· + 1) opened.counted)
  · rw [count, if_neg (Nat.succ_ne_zero _)]
    exact opens.sess.trans (congrArg some opened.counted)
  · intro s member
    rw [sessions] at member
    rcases List.mem_append.mp member with old | new
    · exact opened.live s old
    · rw [List.mem_singleton.mp new]
      exact opened_live _ _ _

/-- A receiver that opened no session leaves their number as it is. -/
theorem frame_keeps {c : Connection} (opened : c.Open) {r : CastReceiver}
    (keeps : Keeps c.receiver r) (clock : Clock) :
    let c' := ({ c with receiver := r }).withSessions
      ((r.effects.drop c.receiver.effects.length).foldl (apply env clock) c.sessions)
    c'.Open ∧ c'.sessions.length = c.sessions.length := by
  intro c'
  obtain ⟨more, effects, within⟩ := keeps.effects
  have sessions : c'.sessions = more.foldl (apply env clock) c.sessions := by
    simp only [c', withSessions, effects, List.drop_left]
  obtain ⟨count, live⟩ := foldl_apply_within env clock more within opened.live
  rw [← sessions] at count live
  refine ⟨⟨?_, ?_, opened.unclosed, live⟩, count⟩
  · rw [count]
    exact keeps.sessions.trans opened.counted
  · rw [count]
    exact keeps.sess.trans opened.last

theorem step_open {c : Connection} (opened : c.Open) (e : ConnectionEvent) :
    (c.step env e).Open ∧
      (c.Opening e ∧ (c.step env e).sessions.length = c.sessions.length + 1 ∨
        ¬ c.Opening e ∧ (c.step env e).sessions.length = c.sessions.length) := by
  cases e with
  | frame f clock =>
    by_cases alive : c.receiver.alive = true
    · simp only [step, if_pos alive]
      rcases afterFrame_keeps env.chance c.receiver f with ⟨greets, opens⟩ | ⟨other, keeps⟩
      · obtain ⟨stays, count⟩ := frame_opens env opened opens clock
        exact ⟨stays, Or.inl ⟨⟨f, clock, rfl, alive, greets⟩, count⟩⟩
      · obtain ⟨stays, count⟩ := frame_keeps env opened keeps clock
        refine ⟨stays, Or.inr ⟨?_, count⟩⟩
        rintro ⟨f', clock', same, -, greets⟩
        cases same
        exact other greets
    · have same : c.step env (.frame f clock) = c := if_neg alive
      rw [same]
      refine ⟨opened, Or.inr ⟨?_, rfl⟩⟩
      rintro ⟨f', clock', same, still, -⟩
      exact alive still
  | timer =>
    have quiet : ¬ c.Opening .timer := by
      rintro ⟨f, clock, same, -⟩
      cases same
    by_cases waiting : c.receiver.phase = 2
    · simp only [step, writePing_missed env.chance waiting]
      exact ⟨⟨opened.counted, opened.last, opened.unclosed, opened.live⟩, Or.inr ⟨quiet, trivial⟩⟩
    · simp only [step, writePing_idle env.chance waiting]
      exact ⟨⟨opened.counted, opened.last, opened.unclosed, opened.live⟩, Or.inr ⟨quiet, trivial⟩⟩
  | fires number outcome =>
    have quiet : ¬ c.Opening (.fires number outcome) := by
      rintro ⟨f, clock, same, -⟩
      cases same
    have length : (c.sessions.modify number fun s => s.fire (env.factory number) outcome).length =
        c.sessions.length := List.length_modify ..
    refine ⟨⟨?_, ?_, opened.unclosed, ?_⟩, Or.inr ⟨quiet, length⟩⟩
    · exact opened.counted.trans length.symm
    · refine opened.last.trans ?_
      simp only [step, withSessions, length]
    · exact forall_modify opened.live number fun s now => fire_live now _ outcome

theorem run_open (events : List ConnectionEvent) : (run env {} events).Open := by
  induction events using List.reverseRecOn with
  | nil => exact ⟨rfl, rfl, rfl, by simp [run]⟩
  | append_singleton events e ih =>
    rw [run, List.foldl_append]
    exact (step_open env ih e).1

/-- No greeting is accepted while the connection has a session. -/
def GreetedOnce (events : List ConnectionEvent) : Prop :=
  Runs.EveryStep (fun before e =>
    (run env {} before).Opening e → (run env {} before).receiver.sess = none) events

theorem greetedOnce_iff (events : List ConnectionEvent) :
    GreetedOnce env events ↔ (run env {} events).sessions.length ≤ 1 := by
  induction events using List.reverseRecOn with
  | nil =>
    simp only [run, List.foldl_nil, List.length_nil, Nat.zero_le, iff_true]
    exact Runs.EveryStep.nil _
  | append_singleton events e ih =>
    have opened := run_open env events
    have last : (run env {} (events ++ [e])) = (run env {} events).step env e := by
      simp [run]
    obtain ⟨-, count⟩ := step_open env opened e
    rw [← last] at count
    constructor
    · intro once
      have before : (run env {} events).sessions.length ≤ 1 := ih.mp once.take
      rcases count with ⟨opening, longer⟩ | ⟨-, same⟩
      · have alone := once events e [] rfl opening
        rw [opened.last] at alone
        split at alone
        · omega
        · cases alone
      · omega
    · intro few
      have once : GreetedOnce env events := by
        apply ih.mpr
        rcases count with ⟨-, longer⟩ | ⟨-, same⟩ <;> omega
      apply Runs.EveryStep.append once
      intro opening
      rcases count with ⟨-, longer⟩ | ⟨quiet, -⟩
      · rw [opened.last, if_pos (by omega)]
      · exact absurd opening quiet

/-- Once its commits have ended, a session that has handed over an initial transaction has handed
over one that says that the client is gone. -/
def SaysGoodbye (factory : Factory) (s : CollectionSession) : Prop :=
  ∀ later : List Outcome,
    s.flushed.length ≤ (CollectionSession.outcomes s.log).length + later.length →
    let all := CollectionSession.handed (later.foldl (CollectionSession.fire factory) s).log
    ∀ t ∈ all, t.initial = true →
      ∃ d, (all.filter fun t => !t.connected) = [d] ∧ d.srcid = t.srcid

theorem close_saysGoodbye (factory : Factory) {s : CollectionSession} (live : Live s) :
    SaysGoodbye factory (s.close factory) := by
  intro later enough
  obtain ⟨ordered, connected, source⟩ := live
  have closed : (s.close factory).Ordered :=
    CollectionSession.step_ordered {} factory ordered .close
  obtain ⟨last, gone, srcid, flushed⟩ : ∃ last : Transaction, last.connected = false ∧
      last.srcid = s.srcid ∧ (s.close factory).flushed = s.flushed ++ [last] :=
    ⟨{ CollectionSession.newTransaction s.host s.port s.srcid with connected := false }, rfl, rfl,
      CollectionSession.close_flushed factory s⟩
  have all := CollectionSession.fires_handed factory closed later enough
  rw [flushed] at all
  simp only [all]
  intro t member _
  refine ⟨last, ?_, ?_⟩
  · have others : (s.flushed.filter fun t => !t.connected) = [] := by
      rw [List.filter_eq_nil_iff]
      intro t member
      simp [connected.2 t member]
    rw [List.filter_append, others]
    simp [gone]
  · rcases List.mem_append.mp member with old | new
    · rw [srcid, source.2 t old]
    · rw [List.mem_singleton.mp new]

theorem connectionLost_none {c : Connection} (missing : c.receiver.sess = none) :
    (c.connectionLost env).sessions = c.sessions ∧ (c.connectionLost env).closed = c.closed := by
  simp only [connectionLost, missing, and_self]

theorem connectionLost_some {c : Connection} {number : Nat} (session : c.receiver.sess = some number) :
    (c.connectionLost env).sessions =
        c.sessions.modify number (fun s => s.close (env.factory number)) ∧
      (c.connectionLost env).closed = c.closed ++ [number] := by
  simp only [connectionLost, session, and_self]

end Connection

open Connection in
/-- Every session of a connection is closed exactly once, and says so, if and only if no greeting
was accepted while the connection had a session already. -/
theorem sessions_closed_iff (env : Surroundings) (events : List ConnectionEvent) :
    (∀ number s, ((run env {} events).connectionLost env).sessions[number]? = some s →
      ((run env {} events).connectionLost env).closed.count number = 1 ∧
        SaysGoodbye (env.factory number) s) ↔ GreetedOnce env events := by
  have opened := run_open env events
  rw [greetedOnce_iff]
  generalize run env {} events = c at opened ⊢
  by_cases empty : c.sessions.length = 0
  · have missing : c.receiver.sess = none := opened.last.trans (if_pos empty)
    obtain ⟨sessions, -⟩ := connectionLost_none env missing
    have nothing : c.sessions = [] := List.length_eq_zero_iff.mp empty
    rw [sessions, nothing]
    simp
  · have last : c.receiver.sess = some (c.sessions.length - 1) := opened.last.trans (if_neg empty)
    obtain ⟨sessions, closed⟩ := connectionLost_some env last
    rw [opened.unclosed, List.nil_append] at closed
    rw [sessions, closed]
    constructor
    · intro all
      apply Classical.byContradiction
      intro several
      have inside : 0 < (c.sessions.modify (c.sessions.length - 1)
          fun s => s.close (env.factory (c.sessions.length - 1))).length := by
        rw [List.length_modify]
        omega
      have once := (all 0 _ (List.getElem?_eq_getElem inside)).1
      rw [List.count_eq_zero.mpr (by simp; omega)] at once
      cases once
    · intro few number s there
      have one : c.sessions.length - 1 = 0 := by omega
      rw [one] at there ⊢
      rw [List.getElem?_modify] at there
      obtain ⟨old, found, same⟩ := Option.map_eq_some_iff.mp there
      obtain ⟨inside, -⟩ := List.getElem?_eq_some_iff.mp found
      obtain rfl : number = 0 := by omega
      rw [if_pos rfl] at same
      refine ⟨by simp, ?_⟩
      rw [← same]
      exact close_saysGoodbye _ (opened.live old (List.mem_of_getElem? found))

open Connection in
/-- Of two sessions that one client opens, the first one is never closed. -/
theorem first_session_forgotten :
    ¬ ∀ (env : Surroundings) (events : List ConnectionEvent) (number : Nat) (s : CollectionSession),
      ((run env {} events).connectionLost env).sessions[number]? = some s →
        ((run env {} events).connectionLost env).closed.count number = 1 := by
  intro all
  let greeting : Frame := ⟨ClientGreeting.msgId, [0, 0, 0, 0, 0, 0, 0, 7], by decide, by decide⟩
  let env : Surroundings := { host := "h", port := 1, srcid := id, factory := fun _ _ => none }
  let events : List ConnectionEvent := [.frame greeting {}, .frame greeting {}]
  have two : ((run env {} events).connectionLost env).sessions.length = 2 := by rfl
  have closed : ((run env {} events).connectionLost env).closed = [1] := by rfl
  have once := all env events 0 _ (List.getElem?_eq_getElem (by omega))
  rw [closed] at once
  cases once

end Recsync.Recast
