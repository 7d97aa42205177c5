import Mathlib.Data.Finset.Erase
import Mathlib.Data.Finset.Insert
import Recsync.Lib.Edges
import Recsync.Lib.Runs
import Recsync.Protocol.Announce

set_option autoImplicit false

/- The announcements of the recceiver: `announcer.py`. -/
namespace Recsync.Recast

open Edges (changes changes_concat)
open Protocol (Announce EncodeError)

def announcePort : Nat := 5049

/-- An address of `addrlist`. -/
structure UdpAddr where
  host : String
  port : Nat
  deriving DecidableEq, Repr

/-- What `transport.write` does. -/
inductive Written where
  | sent
  | messageLengthError
  /-- any other exception, which leaves `sendOne` -/
  | raised
  deriving DecidableEq, Repr

inductive AnnounceLog where
  /-- "announce OK to %s" -/
  | announceOK (addr : UdpAddr)
  /-- "announce Error to %s" -/
  | announceError (addr : UdpAddr)
  deriving DecidableEq, Repr

/-- The addresses that do not work, and the lines about that. -/
structure Report where
  udpErr : Finset UdpAddr := ∅
  log : List AnnounceLog := []

/-- One call of `sendOne`: when it was, and what it wrote. -/
structure Round where
  time : Nat
  writes : List (UdpAddr × Written)

structure Announcer where
  msg : List UInt8
  delay : Nat
  udps : List UdpAddr
  /-- the time of the reactor -/
  now : Nat := 0
  /-- when the delayed call is due; there is none before `startProtocol` and after `stopProtocol` -/
  D : Option Nat := none
  report : Report := {}
  rounds : List Round := []

inductive AnnouncerError where
  | encode (e : EncodeError)
  | runtimeError (message : String)
  deriving DecidableEq, Repr

def Report.note (s : Report) (addr : UdpAddr) : Written → Report
  | .sent =>
    if addr ∈ s.udpErr then
      { udpErr := s.udpErr.erase addr, log := s.log ++ [.announceOK addr] }
    else s
  | .messageLengthError =>
    if addr ∈ s.udpErr then s
    else { udpErr := insert addr s.udpErr, log := s.log ++ [.announceError addr] }
  | .raised => s

/-- The loop of `sendOne`; `write` tells what the writes do, by their number. -/
def sendAll (write : Nat → Written) :
    List UdpAddr → Nat → Report → List (UdpAddr × Written) × Report
  | [], _, s => ([], s)
  | addr :: rest, n, s =>
    match write n with
    | .raised => ([(addr, .raised)], s)
    | written =>
      let (writes, s') := sendAll write rest (n + 1) (s.note addr written)
      ((addr, written) :: writes, s')

namespace Announcer

def init (tcpport key : Nat) (host : String) (udpaddrs : Option (List UdpAddr)) (period : Nat) :
    Except AnnouncerError Announcer :=
  let udps := udpaddrs.getD [⟨"<broadcast>", announcePort⟩]
  match (Announce.encode ⟨tcpport, key, host⟩) with
  | .error e => .error (.encode e)
  | .ok msg =>
    if udps.isEmpty then .error (.runtimeError "Announce list is empty at start time...")
    else .ok { msg, delay := period, udps }

def startProtocol (a : Announcer) : Announcer := { a with D := some a.now }

def stopProtocol (a : Announcer) : Announcer := { a with D := none }

/-- The next call is set up before anything is written. -/
def sendOne (a : Announcer) (write : Nat → Written) : Announcer :=
  let (writes, report) := sendAll write a.udps 0 a.report
  { a with D := some (a.now + a.delay), report, rounds := a.rounds ++ [⟨a.now, writes⟩] }

end Announcer

inductive AnnouncerEvent where
  /-- a unit of time passes -/
  | passes
  /-- the reactor looks at the delayed call -/
  | fires (write : Nat → Written)
  | stops

namespace Announcer

def step (a : Announcer) : AnnouncerEvent → Announcer
  | .passes => { a with now := a.now + 1 }
  | .fires write =>
    match a.D with
    | some due => if due ≤ a.now then a.sendOne write else a
    | none => a
  | .stops => a.stopProtocol

def run (a : Announcer) (events : List AnnouncerEvent) : Announcer := events.foldl step a

/-- No call is more than `lag` late. -/
def Prompt (lag : Nat) (a : Announcer) (e : AnnouncerEvent) : Prop :=
  match e with
  | .passes => ∀ due ∈ a.D, a.now < due + lag
  | _ => True

instance (lag : Nat) (a : Announcer) : (e : AnnouncerEvent) → Decidable (a.Prompt lag e)
  | .passes => inferInstanceAs (Decidable (∀ due ∈ a.D, a.now < due + lag))
  | .fires _ | .stops => inferInstanceAs (Decidable True)

end Announcer

section Loop

/-- The writes go to the addresses in their order, up to the one that raises. -/
structure InOrder (udps : List UdpAddr) (writes : List (UdpAddr × Written)) : Prop where
  order : writes.map Prod.fst <+: udps
  whole : (∀ w ∈ writes, w.2 ≠ .raised) → writes.map Prod.fst = udps
  last : ∀ front w rest, writes = front ++ w :: rest → w.2 = .raised → rest = []

theorem InOrder.raises (addr : UdpAddr) (udps : List UdpAddr) :
    InOrder (addr :: udps) [(addr, .raised)] where
  order := ⟨udps, rfl⟩
  whole calm := absurd rfl (calm _ List.mem_cons_self)
  last front w rest split _ := by
    have lengths := congrArg List.length split
    simp only [List.length_cons, List.length_nil, List.length_append] at lengths
    exact List.eq_nil_of_length_eq_zero (by omega)

theorem InOrder.cons {udps : List UdpAddr} {writes : List (UdpAddr × Written)} {written : Written}
    (after : InOrder udps writes) (addr : UdpAddr) (calm : written ≠ .raised) :
    InOrder (addr :: udps) ((addr, written) :: writes) where
  order := by
    rw [List.map_cons, List.cons_prefix_cons]
    exact ⟨rfl, after.order⟩
  whole all := by
    rw [List.forall_mem_cons] at all
    rw [List.map_cons, after.whole all.2]
  last front w rest split raised := by
    cases front with
    | nil =>
      obtain ⟨rfl, -⟩ := List.cons.inj split
      exact absurd raised calm
    | cons first front => exact after.last front w rest (List.cons.inj split).2 raised

theorem sendAll_raised {write : Nat → Written} {n : Nat} (raised : write n = .raised)
    (addr : UdpAddr) (rest : List UdpAddr) (s : Report) :
    sendAll write (addr :: rest) n s = ([(addr, .raised)], s) := by
  rw [sendAll, raised]

theorem sendAll_calm {write : Nat → Written} {n : Nat} (calm : write n ≠ .raised) (addr : UdpAddr)
    (rest : List UdpAddr) (s : Report) : sendAll write (addr :: rest) n s =
      ((addr, write n) :: (sendAll write rest (n + 1) (s.note addr (write n))).1,
        (sendAll write rest (n + 1) (s.note addr (write n))).2) := by
  rw [sendAll]
  cases here : write n with
  | raised => exact absurd here calm
  | sent => rfl
  | messageLengthError => rfl

theorem sendAll_inOrder (write : Nat → Written) (udps : List UdpAddr) (n : Nat) (s : Report) :
    InOrder udps (sendAll write udps n s).1 := by
  induction udps generalizing n s with
  | nil => exact ⟨List.prefix_rfl, fun _ => rfl, fun front w rest split => by simp [sendAll] at split⟩
  | cons addr rest ih =>
    by_cases raised : write n = .raised
    · rw [sendAll_raised raised]
      exact .raises addr rest
    · rw [sendAll_calm raised]
      exact (ih (n + 1) _).cons addr raised

/-- What the report says is what the writes say. -/
theorem sendAll_notes (write : Nat → Written) (udps : List UdpAddr) (n : Nat) (s : Report) :
    (sendAll write udps n s).2 =
      (sendAll write udps n s).1.foldl (fun s w => s.note w.1 w.2) s := by
  induction udps generalizing n s with
  | nil => rfl
  | cons addr rest ih =>
    by_cases raised : write n = .raised
    · rw [sendAll_raised raised]
      rfl
    · rw [sendAll_calm raised]
      exact ih (n + 1) _

end Loop

section Reports

/-- How the writes to an address ended, as far as `sendOne` goes on after them. -/
def writeOutcomes (addr : UdpAddr) (writes : List (UdpAddr × Written)) : List Bool :=
  writes.filterMap fun w =>
    if w.1 = addr then
      match w.2 with
      | .sent => some true
      | .messageLengthError => some false
      | .raised => none
    else none

/-- What the log says about an address. -/
def reported (addr : UdpAddr) (log : List AnnounceLog) : List Bool :=
  log.filterMap fun
    | .announceOK other => if other = addr then some true else none
    | .announceError other => if other = addr then some false else none

/-- The log tells for each address when it begins to fail and when it works again. -/
structure Report.Follows (writes : List (UdpAddr × Written)) (s : Report) : Prop where
  log : ∀ addr, reported addr s.log = changes true (writeOutcomes addr writes)
  udpErr : ∀ addr, addr ∈ s.udpErr ↔ (writeOutcomes addr writes).getLastD true = false

theorem Report.Follows.start : Report.Follows [] {} where
  log _ := rfl
  udpErr _ := by simp [writeOutcomes]

variable {writes : List (UdpAddr × Written)} {s : Report}

theorem writeOutcomes_append (addr : UdpAddr) (writes more : List (UdpAddr × Written)) :
    writeOutcomes addr (writes ++ more) = writeOutcomes addr writes ++ writeOutcomes addr more :=
  List.filterMap_append

theorem reported_append (addr : UdpAddr) (log more : List AnnounceLog) :
    reported addr (log ++ more) = reported addr log ++ reported addr more := List.filterMap_append

theorem writeOutcomes_other {addr other : UdpAddr} (different : addr ≠ other) (written : Written) :
    writeOutcomes other (writes ++ [(addr, written)]) = writeOutcomes other writes := by
  rw [writeOutcomes_append]
  simp [writeOutcomes, different]

theorem Report.Follows.raised (follows : s.Follows writes) (addr : UdpAddr) :
    s.Follows (writes ++ [(addr, .raised)]) := by
  have same (other : UdpAddr) :
      writeOutcomes other (writes ++ [(addr, .raised)]) = writeOutcomes other writes := by
    rw [writeOutcomes_append]
    simp [writeOutcomes]
  constructor
  · intro other
    rw [same]
    exact follows.log other
  · intro other
    rw [same]
    exact follows.udpErr other

/-- What is written to an address changes the report about it when the outcome is a new one. -/
theorem Report.Follows.outcome (follows : s.Follows writes) {addr : UdpAddr} {written : Written} {b : Bool}
    {s' : Report} (ends : writeOutcomes addr [(addr, written)] = [b])
    (log : reported addr s'.log =
      reported addr s.log ++ if (writeOutcomes addr writes).getLastD true = b then [] else [b])
    (udpErr : addr ∈ s'.udpErr ↔ b = false)
    (others : ∀ other, addr ≠ other → reported other s'.log = reported other s.log ∧
      (other ∈ s'.udpErr ↔ other ∈ s.udpErr)) :
    s'.Follows (writes ++ [(addr, written)]) := by
  constructor
  · intro other
    by_cases same : addr = other
    · subst same
      rw [log, writeOutcomes_append, ends, changes_concat, follows.log]
    · rw [writeOutcomes_other same, (others other same).1]
      exact follows.log other
  · intro other
    by_cases same : addr = other
    · subst same
      rw [udpErr, writeOutcomes_append, ends, List.getLastD_concat]
    · rw [writeOutcomes_other same, (others other same).2]
      exact follows.udpErr other

theorem Report.Follows.note (follows : s.Follows writes) (addr : UdpAddr) (written : Written) :
    (s.note addr written).Follows (writes ++ [(addr, written)]) := by
  have failing := follows.udpErr addr
  cases written with
  | raised => exact follows.raised addr
  | sent =>
    have ends : writeOutcomes addr [(addr, .sent)] = [true] := by simp [writeOutcomes]
    by_cases known : addr ∈ s.udpErr
    · rw [Report.note, if_pos known]
      refine follows.outcome ends ?_ (by simp) ?_
      · rw [failing.mp known, reported_append]
        simp [reported]
      · intro other different
        rw [reported_append]
        simp [reported, different, Ne.symm different]
    · rw [Report.note, if_neg known]
      have works : (writeOutcomes addr writes).getLastD true = true := by
        rw [failing, Bool.not_eq_false] at known
        exact known
      refine follows.outcome ends ?_ (by simp [known]) fun other _ => ⟨rfl, Iff.rfl⟩
      rw [works, if_pos rfl, List.append_nil]
  | messageLengthError =>
    have ends : writeOutcomes addr [(addr, .messageLengthError)] = [false] := by simp [writeOutcomes]
    by_cases known : addr ∈ s.udpErr
    · rw [Report.note, if_pos known]
      refine follows.outcome ends ?_ (by simp [known]) fun other _ => ⟨rfl, Iff.rfl⟩
      rw [failing.mp known, if_pos rfl, List.append_nil]
    · rw [Report.note, if_neg known]
      have works : (writeOutcomes addr writes).getLastD true = true := by
        rw [failing, Bool.not_eq_false] at known
        exact known
      refine follows.outcome ends ?_ (by simp) ?_
      · rw [works, reported_append]
        simp [reported]
      · intro other different
        rw [reported_append]
        simp [reported, different, Ne.symm different]

theorem Report.Follows.notes (follows : s.Follows writes) (more : List (UdpAddr × Written)) :
    (more.foldl (fun s w => s.note w.1 w.2) s).Follows (writes ++ more) := by
  induction more generalizing writes s with
  | nil => simpa using follows
  | cons w rest ih =>
    rw [List.append_cons, List.foldl_cons]
    exact ih (follows.note w.1 w.2)

end Reports

namespace Announcer

section Run

variable {lag : Nat} {a : Announcer} {e : AnnouncerEvent}

def writes (a : Announcer) : List (UdpAddr × Written) := a.rounds.flatMap Round.writes

/-- When the next round should be. -/
def due (a : Announcer) : Nat := ((a.rounds.getLast?).map fun r => r.time + a.delay).getD 0

/-- The time between two rounds. -/
def Spaced (delay lag : Nat) (rounds : List Round) : Prop :=
  rounds.IsChain fun r r' => r.time + delay ≤ r'.time ∧ r'.time ≤ r.time + delay + lag

/-- The invariant of a run. -/
structure Keeps (lag : Nat) (a : Announcer) : Prop where
  follows : a.report.Follows a.writes
  inOrder : ∀ r ∈ a.rounds, InOrder a.udps r.writes
  spaced : Spaced a.delay lag a.rounds
  armed : ∀ due, a.D = some due → due = a.due ∧ a.now ≤ due + lag
  past : a.due ≤ a.now + a.delay
  many : a.rounds.length * a.delay ≤ a.due
  few : a.due ≤ a.rounds.length * (a.delay + lag)

theorem Keeps.started (new : a.now = 0) (fresh : a.rounds = []) (empty : a.report = {}) :
    a.startProtocol.Keeps lag where
  follows := by
    rw [writes, startProtocol, fresh, empty]
    exact .start
  inOrder r member := by
    rw [startProtocol, fresh] at member
    cases member
  spaced := by
    rw [Spaced, startProtocol, fresh]
    exact .nil
  armed due set := by
    obtain rfl := Option.some.inj set
    simp [startProtocol, Announcer.due, fresh, new]
  past := by simp [startProtocol, Announcer.due, fresh]
  many := by simp [startProtocol, fresh]
  few := by simp [startProtocol, Announcer.due, fresh]

theorem sendOne_due (write : Nat → Written) : (a.sendOne write).due = a.now + a.delay := by
  simp [due, sendOne]

theorem sendOne_writes (write : Nat → Written) :
    (a.sendOne write).writes = a.writes ++ (sendAll write a.udps 0 a.report).1 := by
  simp [writes, sendOne]

theorem Keeps.round (keeps : a.Keeps lag) {due : Nat} (set : a.D = some due) (now : due ≤ a.now)
    (write : Nat → Written) : (a.sendOne write).Keeps lag := by
  obtain ⟨same, late⟩ := keeps.armed due set
  have length : (a.sendOne write).rounds.length = a.rounds.length + 1 := by simp [sendOne]
  have many := keeps.many
  have few := keeps.few
  refine ⟨?_, ?_, ?_, ?_, ?_, ?_, ?_⟩
  · show (sendAll write a.udps 0 a.report).2.Follows _
    rw [sendAll_notes, sendOne_writes]
    exact keeps.follows.notes _
  · intro r member
    rcases List.mem_append.mp member with old | new
    · exact keeps.inOrder r old
    · rw [List.mem_singleton.mp new]
      exact sendAll_inOrder write a.udps 0 a.report
  · show List.IsChain _ (a.rounds ++ [_])
    rw [List.isChain_append]
    refine ⟨keeps.spaced, .singleton _, ?_⟩
    intro r last r' first
    have here : a.due = r.time + a.delay := by
      rw [Announcer.due, Option.mem_def.mp last]
      rfl
    obtain rfl := Option.some.inj first
    constructor
    · show r.time + a.delay ≤ a.now
      omega
    · show a.now ≤ r.time + a.delay + lag
      omega
  · intro next new
    obtain rfl := Option.some.inj new
    refine ⟨(sendOne_due write).symm, ?_⟩
    show a.now ≤ a.now + a.delay + lag
    omega
  · rw [sendOne_due]
    exact Nat.le_refl _
  · rw [sendOne_due, length, Nat.succ_mul]
    show _ + a.delay ≤ _
    change a.rounds.length * a.delay + a.delay ≤ a.now + a.delay
    omega
  · rw [sendOne_due, length, Nat.succ_mul]
    change a.now + a.delay ≤ a.rounds.length * (a.delay + lag) + (a.delay + lag)
    omega

theorem Keeps.step (keeps : a.Keeps lag) (prompt : a.Prompt lag e) : (a.step e).Keeps lag := by
  cases e with
  | passes =>
    refine ⟨keeps.follows, keeps.inOrder, keeps.spaced, ?_, ?_, keeps.many, keeps.few⟩
    · intro due set
      have same := (keeps.armed due set).1
      have early := prompt due set
      refine ⟨same, ?_⟩
      show a.now + 1 ≤ due + lag
      omega
    · have past := keeps.past
      show a.due ≤ a.now + 1 + a.delay
      omega
  | fires write =>
    simp only [Announcer.step]
    split
    · next due set =>
      split
      · next now => exact keeps.round set now write
      · exact keeps
    · exact keeps
  | stops =>
    refine ⟨keeps.follows, keeps.inOrder, keeps.spaced, ?_, keeps.past, keeps.many, keeps.few⟩
    intro due set
    cases set

theorem Keeps.run {events : List AnnouncerEvent} (keeps : a.Keeps lag)
    (prompt : Runs.EveryStep (fun done e => (a.run done).Prompt lag e) events) :
    (a.run events).Keeps lag := by
  refine prompt.maintains (I := fun done => (a.run done).Keeps lag) keeps ?_ List.prefix_rfl
  intro done e _ before now
  rw [Announcer.run, List.foldl_append]
  exact before.step now

theorem run_same (a : Announcer) (events : List AnnouncerEvent) :
    (a.run events).delay = a.delay ∧ (a.run events).udps = a.udps := by
  induction events using List.reverseRecOn with
  | nil => exact ⟨rfl, rfl⟩
  | append_singleton events e ih =>
    have step (b : Announcer) : (b.step e).delay = b.delay ∧ (b.step e).udps = b.udps := by
      cases e with
      | passes => exact ⟨rfl, rfl⟩
      | stops => exact ⟨rfl, rfl⟩
      | fires write =>
        simp only [Announcer.step]
        split
        · split <;> exact ⟨rfl, rfl⟩
        · exact ⟨rfl, rfl⟩
    rw [run, List.foldl_concat]
    obtain ⟨delay, udps⟩ := step (a.run events)
    exact ⟨delay.trans ih.1, udps.trans ih.2⟩

/-- Until it is stopped the announcer has its next call set up, whatever the writes raise. -/
theorem run_armed {events : List AnnouncerEvent} (going : ∀ e ∈ events, e ≠ .stops)
    (armed : a.D.isSome = true) : (a.run events).D.isSome = true := by
  induction events generalizing a with
  | nil => exact armed
  | cons e rest ih =>
    rw [List.forall_mem_cons] at going
    apply ih going.2
    cases e with
    | passes => exact armed
    | stops => exact absurd rfl going.1
    | fires write =>
      simp only [Announcer.step]
      split
      · split
        · rfl
        · exact armed
      · exact armed

/-- Nothing is sent after the stop. -/
theorem run_stopped (events : List AnnouncerEvent) (stopped : a.D = none) :
    (a.run events).D = none ∧ (a.run events).rounds = a.rounds ∧ (a.run events).report = a.report := by
  induction events generalizing a with
  | nil => exact ⟨stopped, rfl, rfl⟩
  | cons e rest ih =>
    cases e with
    | passes => exact ih (a := { a with now := a.now + 1 }) stopped
    | stops => exact ih (a := a.stopProtocol) rfl
    | fires write =>
      have same : a.step (.fires write) = a := by simp only [Announcer.step, stopped]
      rw [run, List.foldl_cons, same]
      exact ih stopped

theorem step_rounds (a : Announcer) (e : AnnouncerEvent) : a.rounds <+: (a.step e).rounds := by
  cases e with
  | passes => exact List.prefix_rfl
  | stops => exact List.prefix_rfl
  | fires write =>
    simp only [Announcer.step]
    split
    · split
      · exact List.prefix_append _ _
      · exact List.prefix_rfl
    · exact List.prefix_rfl

theorem run_rounds (a : Announcer) (events : List AnnouncerEvent) : a.rounds <+: (a.run events).rounds := by
  induction events generalizing a with
  | nil => exact List.prefix_rfl
  | cons e rest ih => exact (step_rounds a e).trans (ih (a.step e))

theorem Keeps.silent {events : List AnnouncerEvent} (keeps : a.Keeps lag)
    (after : (a.run events).Keeps lag) (armed : (a.run events).D.isSome = true)
    (same : (a.run events).rounds.length ≤ a.rounds.length) :
    (a.run events).now ≤ a.now + a.delay + lag := by
  have rounds := (run_rounds a events).eq_of_length_le same
  obtain ⟨due, set⟩ := Option.isSome_iff_exists.mp armed
  obtain ⟨when, late⟩ := after.armed due set
  have past := keeps.past
  rw [Announcer.due, ← rounds, (run_same a events).1] at when
  have dueNow : due = a.due := when
  omega

end Run

/-- What the announcer does in the run `events` on a reactor that is at most `lag` late. -/
structure Announces (lag : Nat) (a : Announcer) (events : List AnnouncerEvent) : Prop where
  /-- the next call is always set up, and `stopProtocol` finds one to cancel -/
  armed : (∀ e ∈ events, e ≠ .stops) → (a.run events).D.isSome = true
  spaced : Spaced a.delay lag (a.run events).rounds
  many : (a.run events).rounds.length * a.delay ≤ (a.run events).now + a.delay
  few : (∀ e ∈ events, e ≠ .stops) →
    (a.run events).now ≤ (a.run events).rounds.length * (a.delay + lag) + lag
  /-- a round begins whenever more than a period passes -/
  within : ∀ done rest, events = done ++ rest → (∀ e ∈ events, e ≠ .stops) →
    (a.run done).now + a.delay + lag < (a.run events).now →
      (a.run done).rounds.length < (a.run events).rounds.length
  inOrder : ∀ r ∈ (a.run events).rounds, InOrder a.udps r.writes
  /-- the log tells when an address begins to fail and when it works again, and nothing else -/
  log : ∀ addr, reported addr (a.run events).report.log =
    changes true (writeOutcomes addr (a.run events).writes)
  alternate : ∀ addr, (true :: reported addr (a.run events).report.log).IsChain (· ≠ ·)
  stops : ∀ done rest, events = done ++ .stops :: rest →
    (a.run events).rounds = (a.run done).rounds ∧ (a.run events).report = (a.run done).report

/-- Whatever the writes do, exceptions included: the announcer goes on with its rounds in its period
until it is stopped, each round goes through the addresses in their order, and the log has for each
address its changes between working and failing. -/
theorem announcer_announces {tcpport key : Nat} {host : String} {udpaddrs : Option (List UdpAddr)}
    {period : Nat} {a : Announcer} (made : init tcpport key host udpaddrs period = .ok a) (lag : Nat)
    {events : List AnnouncerEvent}
    (prompt : Runs.EveryStep (fun done e => (a.startProtocol.run done).Prompt lag e) events) :
    a.delay = period ∧ a.udps ≠ [] ∧ Announces lag a.startProtocol events := by
  have fresh : a.delay = period ∧ a.udps ≠ [] ∧ a.now = 0 ∧ a.rounds = [] ∧ a.report = {} := by
    simp only [init] at made
    split at made
    · cases made
    · split at made
      · cases made
      · next filled =>
        obtain rfl := Except.ok.inj made
        exact ⟨rfl, by simpa using filled, rfl, rfl, rfl⟩
  obtain ⟨delay, some, new, rounds, report⟩ := fresh
  have started : a.startProtocol.Keeps lag := .started new rounds report
  have keeps := started.run prompt
  obtain ⟨sameDelay, sameUdps⟩ := run_same a.startProtocol events
  have past := keeps.past
  have many := keeps.many
  have few := keeps.few
  have spaced := keeps.spaced
  have inOrder := keeps.inOrder
  rw [sameDelay] at past many few spaced
  rw [sameUdps] at inOrder
  refine ⟨delay, some, ?_⟩
  exact {
    armed := fun going => run_armed going rfl
    spaced
    many := by omega
    few := by
      intro going
      obtain ⟨due, set⟩ := Option.isSome_iff_exists.mp (run_armed (a := a.startProtocol) going rfl)
      obtain ⟨same, late⟩ := keeps.armed due set
      omega
    within := by
      intro done rest split going late
      have before : (a.startProtocol.run done).Keeps lag :=
        (Keeps.started new rounds report).run (split ▸ prompt).take
      have all : a.startProtocol.run events = (a.startProtocol.run done).run rest := by
        rw [split]
        exact List.foldl_append ..
      have armed := run_armed (a := a.startProtocol) going rfl
      rw [all] at keeps armed late ⊢
      apply Nat.lt_of_not_le
      intro same
      have silent := before.silent keeps armed same
      rw [(run_same a.startProtocol done).1] at silent
      omega
    inOrder
    log := keeps.follows.log
    alternate := fun addr => by
      rw [keeps.follows.log addr]
      exact Edges.changes_alternate true _
    stops := by
      rintro done rest rfl
      have stopped := run_stopped (a := (a.startProtocol.run done).stopProtocol) rest rfl
      have split : a.startProtocol.run (done ++ .stops :: rest) =
          (a.startProtocol.run done).stopProtocol.run rest := List.foldl_append ..
      rw [split]
      exact stopped.2 }

/-- Two addresses, of which the second has no valid text. -/
def twoAddresses : List UdpAddr := [⟨"10.0.0.255", 5049⟩, ⟨"office", 5049⟩]

/-- The network to the first address is down in the first round. -/
def networkDown : List AnnouncerEvent :=
  [.fires fun _ => .messageLengthError, .passes, .passes,
    .fires fun n => if n = 0 then .sent else .raised, .stops, .passes, .passes,
    .fires fun _ => .sent]

theorem announcer_announces_networkDown :
    ∃ a, init 40001 7 "255.255.255.255" (some twoAddresses) 2 = .ok a ∧
      Announces 1 a.startProtocol networkDown ∧
      (a.startProtocol.run networkDown).rounds.length = 2 ∧
      reported ⟨"10.0.0.255", 5049⟩ (a.startProtocol.run networkDown).report.log = [false, true] := by
  have made : init 40001 7 "255.255.255.255" (some twoAddresses) 2 = .ok _ := rfl
  refine ⟨_, made, (announcer_announces made 1 ?_).2.2, by decide +kernel, by decide +kernel⟩
  exact .cons (by decide) (.cons (by decide) (.cons (by decide) (.cons (by decide)
    (.cons (by decide) (.cons (by decide) (.cons (by decide) (.cons (by decide) (.nil _))))))))

end Announcer

end Recsync.Recast
