import Recsync.Recast.Keepalive

set_option autoImplicit false

/- How long the server waits for a client. -/
namespace Recsync.Recast

open Protocol CastReceiver
open Keepalive (newPings)

/-- An active connection with its ping timer. -/
structure Timed where
  expecting : Expecting := getInitialState
  server : CastReceiver := {}
  /-- the time since the timer was started, as long as it runs -/
  timer : Option Nat := some 0
  /-- `connectionLost` was called -/
  lost : Bool := false

inductive TimedEvent where
  /-- a unit of time passes -/
  | passes
  /-- the next header or body is there -/
  | data (bytes : List UInt8)
  /-- the reactor looks at the timer -/
  | expires
  | lost
  deriving DecidableEq, Repr

namespace Timed

variable (chance : Chance) (timeout lag : Nat)

def reads (s : Timed) : Bool := s.server.alive && !s.lost

/-- Whoever sends a ping starts the timer again. -/
def restarted (s : Timed) (r : CastReceiver) (timer : Option Nat) : Option Nat :=
  if newPings s.server r = [] then timer else some 0

/-- `recvHeader` starts the timer again before it looks at the header. -/
def receive (s : Timed) (bytes : List UInt8) : Timed :=
  let next := (receiver chance).handle (s.expecting, s.server) bytes
  { s with
    expecting := next.1
    server := next.2
    timer := if s.expecting.fn = .recvHeader then some 0 else s.restarted next.2 s.timer }

def expire (s : Timed) : Timed :=
  match writePing chance s.server with
  | .ok _ r | .error _ r => { s with server := r, timer := s.restarted r none }

def step (s : Timed) : TimedEvent → Timed
  | .passes => { s with timer := s.timer.map (· + 1) }
  | .data bytes => if s.reads then s.receive chance bytes else s
  | .expires =>
    match s.timer with
    | some t => if timeout ≤ t then s.expire chance else s
    | none => s
  | .lost => { s with timer := none, lost := true }

def run (s : Timed) (events : List TimedEvent) : Timed := events.foldl (step chance timeout) s

/-- No timer is more than `lag` late. -/
def Prompt (s : Timed) (e : TimedEvent) : Prop :=
  e = .passes → ∀ t ∈ s.timer, t < timeout + lag

instance (s : Timed) (e : TimedEvent) : Decidable (s.Prompt timeout lag e) :=
  inferInstanceAs (Decidable (e = .passes → ∀ t ∈ s.timer, t < timeout + lag))

def OnTime (s : Timed) : List TimedEvent → Prop
  | [] => True
  | e :: rest => s.Prompt timeout lag e ∧ (s.step chance timeout e).OnTime rest

def decideOnTime (s : Timed) : (events : List TimedEvent) →
    Decidable (s.OnTime chance timeout lag events)
  | [] => .isTrue trivial
  | e :: rest =>
    have := (s.step chance timeout e).decideOnTime rest
    inferInstanceAs (Decidable (_ ∧ _))

instance (s : Timed) (events : List TimedEvent) : Decidable (s.OnTime chance timeout lag events) :=
  decideOnTime chance timeout lag s events

def time (events : List TimedEvent) : Nat := events.countP (· = .passes)

def Hears (s : Timed) : TimedEvent → Prop
  | .data _ => s.reads = true ∧ s.expecting.fn = .recvHeader
  | _ => False

section Steps

variable {chance timeout lag} {s : Timed}

/-- A ping that was not answered until the timer expires. -/
theorem expire_missed (waiting : s.server.phase = 2) : s.expire chance =
    { s with server := { s.server with disconnecting := true }, timer := none } := by
  rw [expire, writePing_missed chance waiting]
  have none : newPings s.server { s.server with disconnecting := true } = [] :=
    Keepalive.newPings_same rfl
  simp only [restarted, none, if_true]

theorem expire_idle (idle : s.server.phase ≠ 2) : s.expire chance =
    { s with server := pinged chance s.server, timer := some 0 } := by
  rw [expire, writePing_idle chance idle]
  have sent : newPings s.server (pinged chance s.server) =
      [chance.randint s.server.effects.length] := Keepalive.newPings_of rfl rfl
  simp [restarted, sent]

/-- Without a new ping no function goes on to phase 2. -/
theorem reaction_phase {body : List UInt8} {r : CastReceiver} {fn : RxFn}
    {result : EStateM.Result Failure CastReceiver (Option Expecting)}
    (reaction : Reaction chance body r fn result) (quiet : newPings r (resultState result) = [])
    (after : (resultState result).phase = 2) : r.phase = 2 := by
  by_cases pong : fn = .recvPong
  · subst pong
    cases reaction with
    | ignored _ pong _ => exact absurd rfl pong
    | refused _ _ => exact after
    | ponged p _ _ => cases after
    | mismatched p nonce _ _ _ => exact after
    | called number call _ _ kind => simp at kind
    | failed failure _ _ _ => exact after
  · rcases (Keepalive.reaction_step reaction pong).1 with ⟨same, -, -⟩ | ⟨-, -, k, -, sent⟩
    · exact same.symm.trans after
    · rw [quiet] at sent
      cases sent

theorem receive_body (bytes : List UInt8) (other : s.expecting.fn ≠ .recvHeader) :
    (s.receive chance bytes).timer = some 0 ∨
      (s.receive chance bytes).timer = s.timer ∧
        ((s.receive chance bytes).server.phase = 2 → s.server.phase = 2) := by
  obtain ⟨failed, handled⟩ := handle_resultState chance s.expecting s.server bytes
  simp only [receive, if_neg other, restarted]
  split
  · next quiet =>
    refine Or.inr ⟨rfl, ?_⟩
    rw [handled] at quiet ⊢
    exact reaction_phase (run_reacts chance other bytes s.server) quiet
  · exact Or.inl rfl

structure Waits (chance : Chance) (timeout : Nat) (s : Timed) (e : TimedEvent) : Prop where
  timer : (s.step chance timeout e).timer = s.timer.map (· + time [e])
  phase : (s.step chance timeout e).server.phase = 2 → s.server.phase = 2
  silent : ¬ s.Hears e

theorem waits_same {e : TimedEvent} (same : s.step chance timeout e = s) (instant : time [e] = 0)
    (silent : ¬ s.Hears e) : Waits chance timeout s e := by
  refine ⟨?_, ?_, silent⟩
  · rw [same, instant]
    simp
  · rw [same]
    exact id

theorem reads_step {e : TimedEvent} (reads : (s.step chance timeout e).reads = true) :
    s.reads = true := by
  cases e with
  | passes => exact reads
  | lost => simp [step, Timed.reads] at reads
  | data bytes =>
    by_contra closed
    simp only [step, closed] at reads
    exact closed reads
  | expires =>
    cases running : s.timer with
    | none => simpa only [step, running] using reads
    | some t =>
      simp only [step, running] at reads
      split at reads
      · by_cases waiting : s.server.phase = 2
        · rw [expire_missed waiting] at reads
          cases reads
        · rw [expire_idle waiting] at reads
          exact reads
      · exact reads

/-- A step stops the timer, starts it again or leaves it alone. -/
theorem step_timer (s : Timed) (e : TimedEvent) :
    (s.step chance timeout e).timer = none ∧ (s.step chance timeout e).reads = false ∨
      (s.step chance timeout e).timer = some 0 ∨ Waits chance timeout s e := by
  cases e with
  | passes => exact Or.inr (Or.inr ⟨rfl, id, id⟩)
  | lost => exact Or.inl ⟨rfl, Bool.and_false _⟩
  | data bytes =>
    by_cases reads : s.reads = true
    · have step : s.step chance timeout (.data bytes) = s.receive chance bytes := by
        simp only [step, reads, if_true]
      by_cases header : s.expecting.fn = .recvHeader
      · rw [step]
        simp [receive, header]
      · rcases @receive_body chance s bytes header with fresh | ⟨same, phase⟩
        · exact Or.inr (Or.inl (step ▸ fresh))
        · refine Or.inr (Or.inr ⟨?_, step ▸ phase, fun hears => header hears.2⟩)
          rw [step, same]
          simp [time]
    · have same : s.step chance timeout (.data bytes) = s := by simp only [Timed.step, reads]; rfl
      exact Or.inr (Or.inr (waits_same same rfl fun hears => reads hears.1))
  | expires =>
    cases running : s.timer with
    | none =>
      have same : s.step chance timeout .expires = s := by simp only [step, running]
      exact Or.inr (Or.inr (waits_same same rfl id))
    | some t =>
      by_cases due : timeout ≤ t
      · simp only [step, running, due, if_true]
        by_cases waiting : s.server.phase = 2
        · rw [expire_missed waiting]
          exact Or.inl ⟨rfl, rfl⟩
        · rw [expire_idle waiting]
          exact Or.inr (Or.inl rfl)
      · have same : s.step chance timeout .expires = s := by simp only [step, running, due, if_false]
        exact Or.inr (Or.inr (waits_same same rfl id))

end Steps

section Run

variable {chance timeout lag} {s : Timed}

theorem time_concat (events : List TimedEvent) (e : TimedEvent) :
    time (events ++ [e]) = time events + time [e] := List.countP_append

theorem run_concat (events : List TimedEvent) (e : TimedEvent) :
    s.run chance timeout (events ++ [e]) = (s.run chance timeout events).step chance timeout e :=
  List.foldl_concat ..

/-- Since the end of `first` the ping is out and no header has come. -/
structure Unanswered (chance : Chance) (timeout : Nat) (s : Timed) (first silent : List TimedEvent) :
    Prop where
  pinged : (s.run chance timeout first).server.phase = 2
  silent : Runs.EveryStep (fun mid e =>
    (s.run chance timeout (first ++ mid)).server.phase = 2 ∧
      ¬ (s.run chance timeout (first ++ mid)).Hears e) silent

/-- The timer has run since the ping was sent, or since the last header after it. -/
theorem run_unanswered (s : Timed) (start : s.timer = some 0) (events : List TimedEvent) {t : Nat}
    (running : (s.run chance timeout events).timer = some t)
    (waiting : (s.run chance timeout events).server.phase = 2) :
    ∃ first silent, events = first ++ silent ∧ time silent = t ∧
      Unanswered chance timeout s first silent := by
  induction events using List.reverseRecOn generalizing t with
  | nil =>
    obtain rfl : 0 = t := Option.some.inj (start.symm.trans running)
    exact ⟨[], [], rfl, rfl, waiting, Runs.EveryStep.nil _⟩
  | append_singleton done e ih =>
    rw [run_concat] at running waiting
    rcases @step_timer chance timeout (s.run chance timeout done) e with
      ⟨stopped, -⟩ | fresh | waits
    · rw [stopped] at running
      cases running
    · obtain rfl : 0 = t := Option.some.inj (fresh.symm.trans running)
      refine ⟨done ++ [e], [], (List.append_nil _).symm, rfl, ?_, Runs.EveryStep.nil _⟩
      rw [run_concat]
      exact waiting
    · rw [waits.timer] at running
      obtain ⟨before, ran, passed⟩ := Option.map_eq_some_iff.mp running
      have out := waits.phase waiting
      obtain ⟨first, silent, rfl, waited, unanswered⟩ := ih ran out
      refine ⟨first, silent ++ [e], List.append_assoc _ _ _, ?_, unanswered.pinged,
        unanswered.silent.append ⟨out, waits.silent⟩⟩
      rw [time_concat, waited, passed]

/-- As long as the server reads, the timer runs, and not for too long. -/
def Ticking (bound : Nat) (s : Timed) : Prop :=
  s.reads = true → ∃ t, s.timer = some t ∧ t ≤ bound

theorem ticking_step {e : TimedEvent} (ticking : s.Ticking (timeout + lag))
    (prompt : s.Prompt timeout lag e) : (s.step chance timeout e).Ticking (timeout + lag) := by
  intro reads
  rcases @step_timer chance timeout s e with ⟨-, closed⟩ | fresh | waits
  · rw [closed] at reads
    cases reads
  · exact ⟨0, fresh, Nat.zero_le _⟩
  · obtain ⟨t, running, bounded⟩ := ticking (reads_step reads)
    refine ⟨t + time [e], by rw [waits.timer, running]; rfl, ?_⟩
    cases e with
    | passes => exact prompt rfl t running
    | data bytes => exact bounded
    | expires => exact bounded
    | lost => exact bounded

theorem ticking_run {events : List TimedEvent} (ticking : s.Ticking (timeout + lag))
    (onTime : s.OnTime chance timeout lag events) :
    (s.run chance timeout events).Ticking (timeout + lag) := by
  induction events generalizing s with
  | nil => exact ticking
  | cons e rest ih => exact ih (ticking_step ticking onTime.1) onTime.2

theorem onTime_append {first second : List TimedEvent}
    (onTime : s.OnTime chance timeout lag (first ++ second)) :
    s.OnTime chance timeout lag first ∧
      (s.run chance timeout first).OnTime chance timeout lag second := by
  induction first generalizing s with
  | nil => exact ⟨trivial, onTime⟩
  | cons e rest ih =>
    obtain ⟨now, later⟩ := ih onTime.2
    exact ⟨⟨onTime.1, now⟩, later⟩

/-- Only time passes. -/
def Silent (events : List TimedEvent) : Prop := ∀ e ∈ events, e = .passes ∨ e = .expires

theorem reads_run {events : List TimedEvent} (reads : (s.run chance timeout events).reads = true) :
    s.reads = true := by
  induction events generalizing s with
  | nil => exact reads
  | cons e rest ih => exact reads_step (ih reads)

/-- How long the server bears with a silent client. -/
def patience (s : Timed) (bound : Nat) : Nat := if s.server.phase = 2 then bound else 2 * bound

theorem silent_run {events : List TimedEvent} (silent : Silent events)
    (onTime : s.OnTime chance timeout lag events) {t : Nat} (running : s.timer = some t)
    (bounded : t ≤ timeout + lag) (reads : (s.run chance timeout events).reads = true) :
    t + time events ≤ s.patience (timeout + lag) := by
  induction events generalizing s t with
  | nil =>
    rw [patience]
    simp only [time, List.countP_nil]
    split <;> omega
  | cons e rest ih =>
    rw [Silent, List.forall_mem_cons] at silent
    rcases silent.1 with rfl | rfl
    · have later : (s.step chance timeout .passes).timer = some (t + 1) := by rw [step, running]; rfl
      have after := ih silent.2 onTime.2 later (onTime.1 rfl t running) reads
      have one : time (.passes :: rest) = time rest + 1 := by simp [time]
      rw [one, Nat.add_comm (time rest), ← Nat.add_assoc]
      exact after
    · have none : time (.expires :: rest) = time rest := by simp [time]
      rw [none]
      by_cases due : timeout ≤ t
      · have step : s.step chance timeout .expires = s.expire chance := by
          simp only [step, running, due, if_true]
        by_cases waiting : s.server.phase = 2
        · have before := @reads_run chance timeout _ rest reads
          rw [step, expire_missed waiting] at before
          cases before
        · have next := onTime.2
          have later : (s.run chance timeout (.expires :: rest)) =
              (s.expire chance).run chance timeout rest := by rw [← step]; rfl
          rw [later, expire_idle waiting] at reads
          rw [step, expire_idle waiting] at next
          have after := ih silent.2 next rfl (Nat.zero_le _) reads
          simp only [patience, pinged, if_true] at after
          simp only [patience, waiting, if_false]
          omega
      · have same : s.step chance timeout .expires = s := by simp only [step, running, due, if_false]
        have next := onTime.2
        have later : (s.run chance timeout (.expires :: rest)) = s.run chance timeout rest := by
          rw [run, List.foldl_cons, same, run]
        rw [same] at next
        rw [later] at reads
        exact ih silent.2 next running bounded reads

/-- The timer closes the connection. -/
def Closes (chance : Chance) (timeout : Nat) (s : Timed) : Prop :=
  s.server.disconnecting = false ∧ (s.step chance timeout .expires).server.disconnecting = true

theorem closes_due (closes : s.Closes chance timeout) :
    ∃ t, s.timer = some t ∧ timeout ≤ t ∧ s.server.phase = 2 := by
  obtain ⟨opened, closed⟩ := closes
  cases running : s.timer with
  | none =>
    simp only [step, running, opened] at closed
    cases closed
  | some t =>
    simp only [step, running] at closed
    split at closed
    · next due =>
      refine ⟨t, rfl, due, ?_⟩
      by_contra idle
      rw [expire_idle idle] at closed
      simp only [pinged, opened] at closed
      cases closed
    · rw [opened] at closed
      cases closed

end Run

/-- What the ping timer is for, in the run `events`. -/
structure Watches (chance : Chance) (timeout lag : Nat) (events : List TimedEvent) : Prop where
  /-- as long as the server reads the timer runs, and is not later than the reactor -/
  ticks : (run chance timeout {} events).reads = true →
    ∃ t, (run chance timeout {} events).timer = some t ∧ t ≤ timeout + lag
  /-- a client that is silent for longer than two periods, each late by the lag, is closed -/
  closes : ∀ before silent, events = before ++ silent → Silent silent →
    2 * (timeout + lag) < time silent → (run chance timeout {} events).reads = false
  /-- whom the timer closes has left a ping unanswered and sent no header for a period -/
  spares : ∀ done rest, events = done ++ .expires :: rest → (run chance timeout {} done).Closes chance timeout →
    ∃ first silent, done = first ++ silent ∧ timeout ≤ time silent ∧
      Unanswered chance timeout {} first silent

/-- Whatever the client sends and whenever: the server closes a connection on which nothing comes
for more than two periods and their lags, and closes only one on which a ping went unanswered while
no header came for a whole period. -/
theorem ping_timer_watches (chance : Chance) (timeout lag : Nat) {events : List TimedEvent}
    (onTime : OnTime chance timeout lag {} events) : Watches chance timeout lag events := by
  have start : Ticking (timeout + lag) {} := fun _ => ⟨0, rfl, Nat.zero_le _⟩
  refine ⟨ticking_run start onTime, ?_, ?_⟩
  · rintro before silent rfl nothing long
    by_contra reads
    rw [Bool.not_eq_false, run, List.foldl_append] at reads
    obtain ⟨earlier, later⟩ := onTime_append onTime
    obtain ⟨t, running, bounded⟩ := ticking_run start earlier (reads_run reads)
    have borne := silent_run nothing later running bounded reads
    rw [patience] at borne
    split at borne <;> omega
  · rintro done rest rfl closes
    obtain ⟨t, running, due, waiting⟩ := closes_due closes
    obtain ⟨first, silent, split, waited, unanswered⟩ := run_unanswered {} rfl done running waiting
    exact ⟨first, silent, split, waited ▸ due, unanswered⟩

/-- The header of a message comes and its body does not. -/
def stalled : List TimedEvent :=
  [.passes, .data (pingFrame 7).header, .passes, .passes, .expires, .passes, .passes, .passes, .expires]

theorem ping_timer_watches_stalled :
    Watches {} 2 1 stalled ∧ (run {} 2 {} stalled).server.disconnecting = true :=
  ⟨ping_timer_watches {} 2 1 (by decide), by decide⟩

end Timed

end Recsync.Recast
