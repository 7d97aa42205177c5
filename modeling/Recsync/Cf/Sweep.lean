import Recsync.Cf.Deletion
import Recsync.Cf.Requests
import Recsync.Cf.SweepWrites

set_option autoImplicit false

/- The sweep at the start of the service, which takes no lock, and the commits. -/
namespace Recsync.Cf

open Ownership (holder mem_leave)
open Py (Error)
open Runs (EveryStep)

/-- The processor in service: the thread of the sweep, and that of the commit that has the lock. -/
structure System extends World where
  sweep : Task := .sweeping .querying 0
  thread : Task := .ended (.ok ())
  /-- the record names in the completed commits of each IOC, as long as it is connected -/
  served : String → List String := fun _ => []

namespace System

inductive Event where
  | sweep (a : Answer)
  /-- the next commit gets the lock -/
  | begin (t : Transaction)
  | thread (a : Answer)

/-- The IOC is no longer connected. -/
def forget (w : System) (iocid : String) : System :=
  { w with served := Function.update w.served iocid [] }

/-- The thread of the commit has made a step. -/
def put (w : System) (after : World × Task) : System :=
  { w with toWorld := after.1, thread := after.2 }

/-- When a commit returns, the records of its IOC are served from now on. -/
def complete (w : System) (next : Task) : System :=
  match w.thread, next with
  | .writing job _, .ended (.ok ()) =>
    if job.transaction.connected then
      { w with
        served := Function.update w.served job.transaction.iocid
          (w.served job.transaction.iocid ++ job.records.keys) }
    else w
  | _, _ => w

variable (client : ChannelFinderAdapter) (cfg : CFConfig) (setup : Setup)

def step (w : System) : Event → System
  | .sweep a =>
    let after := a.onRequest client cfg setup (w.toWorld, w.sweep)
    { w with toWorld := after.1, sweep := after.2 }
  | .begin t =>
    match w.thread with
    | .ended _ =>
      let w := if t.connected then w else w.forget t.iocid
      w.put (w.toWorld, .starting t)
    | _ => w
  | .thread a =>
    let after := a.onRequest client cfg setup (w.toWorld, w.thread)
    (w.complete after.2).put after

end System

/-- What the push knows about its commit: the disconnect carries no records, and the records
of a connected transaction are tracked. -/
structure Job.Ok (p : Processor) (job : Job) : Prop where
  kind : job.records = ∅ ∨ ∀ n, Key.name n ∉ job.del
  tracked : ∀ n ∈ job.records.keys, job.transaction.iocid ∈ p.owners n

namespace System

/-- The name is Active and no request of the sweep is left. -/
def Settled (w : System) (n : String) : Prop := w.sweep.Through ∧ ActiveIn w.store n

/-- What holds of the system whatever its commit thread is doing. -/
structure Calm (w : System) : Prop where
  sound : Sound w.proc
  sweeps : w.sweep.Sweeps
  tracked : ∀ i, ∀ n ∈ w.served i, i ∈ w.proc.owners n
  settled : ∀ i, ∀ n ∈ w.served i, w.Settled n

/-- What the commit thread is going to write spares the tracked names, and every record of the
commit is still to be written or settled. -/
def ThreadOk (w : System) : Task → Prop
  | .starting t => Regular w.proc t ∧ (t.connected = false → w.served t.iocid = [])
  | .attempting job | .fetching job => job.Ok w.proc
  | .reconciled job _ new handled => job.Ok w.proc ∧ Spares w.proc handled ∧
      ∀ n ∈ job.records.keys, n ∈ new ∨ n ∈ handled.map CFChannel.name
  | .writing job todo => job.Ok w.proc ∧ Spares w.proc todo.flatten ∧
      ∀ n ∈ job.records.keys, n ∈ todo.flatten.map CFChannel.name ∨ w.Settled n
  | .sweeping _ _ => False
  | .ended _ => True

structure Invariant (w : System) : Prop extends Calm w where
  thread : w.ThreadOk w.thread

/-- The push may make another attempt, or giving it up evicts nobody whose commit completed. -/
def Affords (cfg : CFConfig) (w : System) (t : Transaction) (count : Int) : Prop :=
  (cfg.pushAlwaysRetry = true ∨ count < cfg.pushMaxRetries) ∨
    (t.connected = true → w.served t.iocid = [])

/-- The condition on a step: a commit with records is the first of its connection or finds its
IOC registered, a request that writes an Active channel finds the sweep finished, and no commit
is given up after another one of its IOC has completed. -/
def Careful (cfg : CFConfig) (w : System) : Event → Prop
  | .begin t => (∃ result, w.thread = .ended result) → Regular w.proc t
  | .thread (.answers _) =>
    match w.thread with
    | .attempting job => w.Affords cfg job.transaction job.count
    | .writing _ (batch :: _) => (∃ ch ∈ batch, ch.toCFEntry.Active) → w.sweep.Through
    | _ => True
  | _ => True

section Steps

variable {client : ChannelFinderAdapter} {cfg : CFConfig} {setup : Setup} {w : System} {env : Env}

/-- A commit that serves nothing new. -/
theorem complete_of_not_writing {next : Task} (other : ∀ job todo, w.thread ≠ .writing job todo) :
    w.complete next = w := by
  unfold complete
  split
  · next job todo phase => exact absurd phase (other job todo)
  · rfl

theorem complete_of_going {next : Task} (going : next ≠ .ended (.ok ())) : w.complete next = w := by
  unfold complete
  split
  · exact absurd rfl going
  · rfl

theorem Calm.forget (calm : w.Calm) (i : String) : (w.forget i).Calm := by
  have fewer : ∀ j, ∀ n ∈ (w.forget i).served j, n ∈ w.served j := by
    intro j n member
    by_cases same : j = i
    · subst same
      simp [System.forget] at member
    · simpa [System.forget, same] using member
  exact ⟨calm.sound, calm.sweeps, fun j n member => calm.tracked j n (fewer j n member),
    fun j n member => calm.settled j n (fewer j n member)⟩

/-- The commit thread has changed nothing but its own place. -/
theorem Calm.goes (calm : w.Calm) {next : Task} (ok : w.ThreadOk next) :
    (w.put (w.toWorld, next)).Invariant := by
  refine ⟨⟨calm.sound, calm.sweeps, calm.tracked, calm.settled⟩, ?_⟩
  cases next <;> exact ok

theorem Calm.giveUp (calm : w.Calm) (env : Env) {job : Job}
    (unserved : job.transaction.connected = true → w.served job.transaction.iocid = []) :
    (w.put (Task.giveUp env job w.toWorld)).Invariant := by
  have evicted := evictIoc_eq_afterEvict env calm.sound.tracking job.transaction.iocid
  unfold Task.giveUp
  split
  · rename_i connected
    rw [evicted]
    refine ⟨⟨calm.sound.afterEvict env _, calm.sweeps, ?_, calm.settled⟩, trivial⟩
    intro j n member
    have serving : j ∈ w.proc.owners n := calm.tracked j n member
    change j ∈ (afterEvict env job.transaction.iocid w.proc).owners n
    rw [afterEvict_owners calm.sound.tracking]
    apply mem_leave _ serving
    rintro rfl
    change n ∈ w.served job.transaction.iocid at member
    rw [unserved connected] at member
    cases member
  · exact calm.goes trivial

theorem Calm.attempting (calm : w.Calm) (env : Env) {job : Job} (ok : job.Ok w.proc)
    (affords : w.Affords cfg job.transaction job.count) :
    (w.put (Task.proceed client cfg setup env w.toWorld (.attempting job))).Invariant := by
  simp only [Task.proceed]
  split
  · rename_i spent
    exact calm.giveUp env (affords.resolve_left spent)
  · rw [if_neg (not_not.mpr calm.sound.up.running)]
    exact calm.goes ⟨ok.kind, ok.tracked⟩

theorem Calm.fetching (calm : w.Calm) (env : Env) {job : Job} (ok : job.Ok w.proc) :
    (w.put (Task.proceed client cfg setup env w.toWorld (.fetching job))).Invariant := by
  simp only [Task.proceed]
  split
  · exact calm.goes trivial
  · split
    · exact calm.goes trivial
    · rename_i new handled reconciled
      refine calm.goes ⟨ok, ?_⟩
      rcases ok.kind with none | unnamed
      · -- a disconnect releases what is listed; a tracked name goes to its holder
        rw [none, reconcileOld_release fun cf _ =>
          calm.sound.tracking.nonempty cf.name] at reconciled
        obtain ⟨rfl, rfl⟩ := Prod.mk.inj (Except.ok.inj reconciled)
        exact ⟨releaseChannel_spares calm.sound job.ioc _, by simp [none]⟩
      · exact handleChannels_spares calm.sound unnamed
          (fun n key => List.ne_nil_of_mem (ok.tracked n key)) reconciled

theorem Calm.reconciled (nonneg : 0 ≤ cfg.cfQueryLimit) (calm : w.Calm) (env : Env) {job : Job}
    {old : List CFChannel} {new : List String} {handled : List CFChannel}
    (ok : w.ThreadOk (.reconciled job old new handled)) :
    (w.put (Task.proceed client cfg setup env w.toWorld
      (.reconciled job old new handled))).Invariant := by
  obtain ⟨known, spares, covered⟩ := ok
  simp only [Task.proceed]
  split
  · exact calm.goes trivial
  · split
    · exact calm.goes trivial
    · rename_i bs planned
      have all := batches_ok nonneg planned
      obtain ⟨active, written⟩ := @processNewChannels_active cfg setup job.ioc job.records env new
        (client.getExistingChannels env w.store new)
      refine calm.goes ⟨known, ?_, ?_⟩
      · rw [all]
        exact spares.append (spares_of_active active)
      · intro n key
        rw [all, List.map_append, List.mem_append]
        rcases covered n key with left | done
        · exact Or.inl (Or.inr (written n left))
        · exact Or.inl (Or.inl done)

/-- A write of the commit thread that spares the tracked names. -/
theorem Calm.write (calm : w.Calm) {channels : List CFChannel}
    (spares : Spares w.proc channels) :
    ({ w with store := setChannels w.store channels } : System).Calm := by
  refine ⟨calm.sound, calm.sweeps, calm.tracked, ?_⟩
  intro i n member
  obtain ⟨finished, active⟩ := calm.settled i n member
  exact ⟨finished, spares.activeIn (List.ne_nil_of_mem (calm.tracked i n member)) active⟩

theorem Calm.writing (calm : w.Calm) {job : Job} {batch : List CFChannel}
    {rest : List (List CFChannel)} (ok : w.ThreadOk (.writing job (batch :: rest)))
    (careful : (∃ ch ∈ batch, ch.toCFEntry.Active) → w.sweep.Through) :
    (w.put ({ w.toWorld with store := setChannels w.store batch },
      .writing job rest)).Invariant := by
  obtain ⟨known, spares, covered⟩ := ok
  have now : Spares w.proc batch := fun ch member => spares ch (by simp [member])
  have later : Spares w.proc rest.flatten := fun ch member => spares ch (by
    rw [List.flatten_cons]
    exact List.mem_append_right _ member)
  refine (calm.write now).goes ⟨known, later, ?_⟩
  intro n key
  have tracked : w.proc.owners n ≠ [] := List.ne_nil_of_mem (known.tracked n key)
  rcases covered n key with left | ⟨finished, active⟩
  · rw [List.flatten_cons, List.map_append, List.mem_append] at left
    rcases left with here | there
    · obtain ⟨ch, member, name, stored⟩ := get?_setChannels_of_mem w.store here
      have active : ch.toCFEntry.Active := now ch member (name ▸ tracked)
      exact Or.inr ⟨careful ⟨ch, member, active⟩, _, stored, active⟩
    · exact Or.inl there
  · exact Or.inr ⟨finished, now.activeIn tracked active⟩

theorem Calm.writingFails (calm : w.Calm) {job : Job} {batch : List CFChannel}
    {rest : List (List CFChannel)} (ok : w.ThreadOk (.writing job (batch :: rest)))
    {torn : List CFChannel → List CFChannel} (part : ∀ l, torn l ⊆ l) :
    (w.put ({ w.toWorld with store := setChannels w.store (torn batch) },
      .attempting job)).Invariant := by
  obtain ⟨known, spares, -⟩ := ok
  have some : Spares w.proc (torn batch) := fun ch member => spares ch (by
    rw [List.flatten_cons]
    exact List.mem_append_left _ (part batch member))
  exact (calm.write some).goes known

theorem Calm.completes (calm : w.Calm) {job : Job} (phase : w.thread = .writing job [])
    (ok : w.ThreadOk (.writing job [])) : (w.complete (.ended (.ok ()))).Calm := by
  obtain ⟨known, -, settled⟩ := ok
  have settled : ∀ n ∈ job.records.keys, w.Settled n := fun n key =>
    (settled n key).resolve_left (by simp)
  simp only [complete, phase]
  split
  · have grown : ∀ i, ∀ n ∈ Function.update w.served job.transaction.iocid
        (w.served job.transaction.iocid ++ job.records.keys) i, n ∈ w.served i ∨
        i = job.transaction.iocid ∧ n ∈ job.records.keys := by
      intro i n member
      by_cases same : i = job.transaction.iocid
      · subst same
        rw [Function.update_self, List.mem_append] at member
        exact member.imp id fun key => ⟨rfl, key⟩
      · rw [Function.update_of_ne same] at member
        exact Or.inl member
    refine ⟨calm.sound, calm.sweeps, ?_, ?_⟩
    · intro i n member
      rcases grown i n member with before | ⟨rfl, key⟩
      · exact calm.tracked i n before
      · exact known.tracked n key
    · intro i n member
      rcases grown i n member with before | ⟨-, key⟩
      · exact calm.settled i n before
      · exact settled n key
  · exact calm

theorem Calm.startsConnected (calm : w.Calm) (env : Env) {t : Transaction}
    (connected : t.connected = true) (ready : Ready w.proc t) :
    (w.put (Task.proceed client cfg setup env w.toWorld (.starting t))).Invariant := by
  simp only [Task.proceed, connected, calm.sound.up.running, not_true_eq_false, if_false,
    Bool.true_eq_false, false_and]
  split
  · exact calm.goes trivial
  · rw [updateIocInfos_regular calm.sound.tracking connected ready]
    refine ⟨⟨calm.sound.afterConnected, calm.sweeps, fun i n member =>
      mem_owners_afterConnected ready (calm.tracked i n member), calm.settled⟩, ?_⟩
    refine ⟨Or.inr (by simp), ?_⟩
    intro n key
    rcases or_assoc.mpr ready with known | noRecords
    · change t.iocid ∈ (afterConnected cfg setup env t w.proc).owners n
      rw [afterConnected_owners known, Ownership.serve,
        if_pos (mem_touched.mpr ⟨n, key, Or.inl rfl⟩)]
      exact Ownership.mem_arrive.mpr (Or.inl rfl)
    · rw [recordsOf_empty noRecords] at key
      simp at key

theorem Calm.startsDisconnect (calm : w.Calm) (env : Env) {t : Transaction}
    (disconnect : t.IsDisconnect) (forgotten : w.served t.iocid = []) :
    (w.put (Task.proceed client cfg setup env w.toWorld (.starting t))).Invariant := by
  simp only [Task.proceed, disconnect.gone, calm.sound.up.running, not_true_eq_false, if_false,
    true_and]
  split
  · exact calm.goes trivial
  · split
    · exact calm.goes trivial
    · have update := updateIocInfos_disconnect cfg env (iocInfoOf cfg env t) disconnect
        fun n member => (calm.sound.tracking.linked n _).mpr member
      have none := recordsOf_disconnect cfg setup env disconnect
      rw [← none] at update
      rw [update]
      refine ⟨⟨calm.sound.afterDisconnect, calm.sweeps, ?_, calm.settled⟩, Or.inl none,
        by simp [none]⟩
      intro i n member
      change i ∈ (afterDisconnect env t w.proc).owners n
      rw [afterDisconnect_owners calm.sound.tracking]
      apply mem_leave _ (calm.tracked i n member)
      rintro rfl
      change n ∈ w.served t.iocid at member
      rw [forgotten] at member
      cases member

theorem Invariant.proceeds (nonneg : 0 ≤ cfg.cfQueryLimit) (inv : w.Invariant) (env : Env)
    (careful : w.Careful cfg (.thread (.answers env))) :
    (step client cfg setup w (.thread (.answers env))).Invariant := by
  have calm := inv.toCalm
  have ok := inv.thread
  simp only [step, Answer.onRequest]
  rw [Careful] at careful
  cases phase : w.thread with
  | starting t =>
    rw [phase] at ok
    rw [complete_of_not_writing (by simp [phase])]
    rcases ok.1 with ⟨connected, ready⟩ | disconnect
    · exact calm.startsConnected env connected ready
    · exact calm.startsDisconnect env disconnect (ok.2 disconnect.gone)
  | attempting job =>
    rw [phase] at ok careful
    rw [complete_of_not_writing (by simp [phase])]
    exact calm.attempting env ok careful
  | fetching job =>
    rw [phase] at ok
    rw [complete_of_not_writing (by simp [phase])]
    exact calm.fetching env ok
  | reconciled job old new handled =>
    rw [phase] at ok
    rw [complete_of_not_writing (by simp [phase])]
    exact calm.reconciled nonneg env ok
  | writing job todo =>
    rw [phase] at ok careful
    cases todo with
    | cons batch rest =>
      rw [complete_of_going (by simp [Task.proceed])]
      exact calm.writing ok careful
    | nil =>
      simp only [Task.proceed]
      split
      · rw [complete_of_going (by simp)]
        exact calm.goes trivial
      · have done := calm.completes phase ok
        have same : (w.complete (.ended (.ok ()))).toWorld = w.toWorld := by
          simp only [complete, phase]
          split <;> rfl
        rw [← same]
        exact done.goes trivial
  | sweeping sweep failures =>
    rw [phase] at ok
    exact ok.elim
  | ended result =>
    rw [complete_of_not_writing (by simp [phase])]
    exact calm.goes trivial

theorem Invariant.fails (inv : w.Invariant) {torn : List CFChannel → List CFChannel}
    (part : ∀ l, torn l ⊆ l) {tornNames : List String → List String}
    (partNames : ∀ l, tornNames l ⊆ l) :
    (step client cfg setup w (.thread (.raises torn part tornNames partNames))).Invariant := by
  have calm := inv.toCalm
  have ok := inv.thread
  have going : (w.thread.fails cfg torn tornNames w.toWorld).2 ≠ .ended (.ok ()) ∨
      ∀ job todo, w.thread ≠ .writing job todo := by
    cases w.thread with
    | writing job todo =>
      left
      cases todo <;> simp [Task.fails]
    | _ => exact Or.inr (by simp)
  simp only [step, Answer.onRequest]
  rw [going.elim complete_of_going complete_of_not_writing]
  cases phase : w.thread with
  | starting t =>
    rw [phase] at ok
    exact calm.goes ok
  | attempting job =>
    rw [phase] at ok
    exact calm.goes ok
  | fetching job =>
    rw [phase] at ok
    simp only [Task.fails]
    split
    · exact calm.goes trivial
    · exact calm.goes ok
  | reconciled job old new handled =>
    rw [phase] at ok
    simp only [Task.fails]
    split
    · exact calm.goes ok
    · exact calm.goes ok.1
  | writing job todo =>
    rw [phase] at ok
    cases todo with
    | cons batch rest => exact calm.writingFails ok part
    | nil => exact calm.goes ok
  | sweeping sweep failures =>
    rw [phase] at ok
    exact ok.elim
  | ended result => exact calm.goes trivial

/-- As long as the sweep is not finished nothing is settled, so the sweep can do no harm. -/
theorem Invariant.sweeping (inv : w.Invariant) (busy : ¬ w.sweep.Through) (s : Store) {next : Task}
    (sweeps : next.Sweeps) : ({ w with store := s, sweep := next } : System).Invariant := by
  have nothing : ∀ i n, n ∉ w.served i := fun i n member => busy (inv.settled i n member).1
  refine ⟨⟨inv.sound, sweeps, inv.tracked, fun i n member => absurd member (nothing i n)⟩, ?_⟩
  have thread := inv.thread
  change ThreadOk _ w.thread
  cases phase : w.thread with
  | writing job todo =>
    rw [phase] at thread
    obtain ⟨ok, spares, covered⟩ := thread
    refine ⟨ok, spares, ?_⟩
    intro n key
    rcases covered n key with left | settled
    · exact Or.inl left
    · exact absurd settled.1 busy
  | _ =>
    rw [phase] at thread
    exact thread

/-- The service is running, so the sweep is not given up. -/
theorem Calm.sweepAgain (calm : w.Calm) (failures : Nat) :
    (Task.sweepAgain w.proc.running failures).Sweeps := by
  rw [Task.sweepAgain, calm.sound.up.running, if_neg (by simp)]
  trivial

theorem Invariant.sweep (inv : w.Invariant) (a : Answer) :
    (step client cfg setup w (.sweep a)).Invariant := by
  have sweeps := inv.sweeps
  have again := inv.toCalm.sweepAgain
  simp only [step]
  cases phase : w.sweep with
  | sweeping sweep failures =>
    cases sweep with
    | querying =>
      have busy : ¬ w.sweep.Through := by simp [phase, Task.Through]
      cases a with
      | answers env => exact inv.sweeping busy w.store trivial
      | raises torn part tornNames partNames => exact inv.sweeping busy w.store (again failures)
    | cleaning names =>
      have busy : ¬ w.sweep.Through := by simp [phase, Task.Through]
      cases a with
      | answers env => exact inv.sweeping busy _ trivial
      | raises torn part tornNames partNames => exact inv.sweeping busy _ (again failures)
    | finished =>
      have same : a.onRequest client cfg setup (w.toWorld, .sweeping .finished failures) =
          (w.toWorld, w.sweep) := by
        rw [phase]
        cases a <;> rfl
      rw [same]
      exact inv
  | _ =>
    rw [phase] at sweeps
    exact sweeps.elim

theorem Invariant.begin (inv : w.Invariant) {t : Transaction}
    (careful : w.Careful cfg (.begin t)) : (step client cfg setup w (.begin t)).Invariant := by
  simp only [step]
  split
  · rename_i result phase
    have regular := careful ⟨result, phase⟩
    split
    · rename_i connected
      exact inv.toCalm.goes ⟨regular, fun gone => absurd connected (by simp [gone])⟩
    · exact (inv.toCalm.forget t.iocid).goes ⟨regular, fun _ => Function.update_self ..⟩
  · exact inv

theorem Invariant.step (nonneg : 0 ≤ cfg.cfQueryLimit) (inv : w.Invariant) (e : Event)
    (careful : w.Careful cfg e) : (step client cfg setup w e).Invariant := by
  cases e with
  | sweep a => exact inv.sweep a
  | begin t => exact inv.begin careful
  | thread a =>
    cases a with
    | answers env => exact inv.proceeds nonneg env careful
    | raises torn part tornNames partNames => exact inv.fails part partNames

/-- Every step of the run meets the condition in the state in which it is taken. -/
def CarefulRun (client : ChannelFinderAdapter) (cfg : CFConfig) (setup : Setup) (w : System)
    (events : List Event) : Prop :=
  ∀ before e rest, events = before ++ e :: rest →
    (before.foldl (System.step client cfg setup) w).Careful cfg e

theorem CarefulRun.nil (client : ChannelFinderAdapter) (cfg : CFConfig) (setup : Setup)
    (w : System) : CarefulRun client cfg setup w [] :=
  EveryStep.nil _

theorem CarefulRun.cons {e : Event} {rest : List Event} (head : w.Careful cfg e)
    (tail : CarefulRun client cfg setup (System.step client cfg setup w e) rest) :
    CarefulRun client cfg setup w (e :: rest) :=
  EveryStep.cons (P := fun done e => (done.foldl (System.step client cfg setup) w).Careful cfg e)
    head tail

theorem Invariant.run (nonneg : 0 ≤ cfg.cfQueryLimit) (inv : w.Invariant) {events : List Event}
    (careful : CarefulRun client cfg setup w events) :
    (events.foldl (System.step client cfg setup) w).Invariant := by
  apply EveryStep.maintains
    (I := fun done => (done.foldl (System.step client cfg setup) w).Invariant)
    careful inv _ List.prefix_rfl
  intro done e _ before last
  rw [List.foldl_append]
  exact before.step nonneg e last

end Steps

/-- Once the sweep has finished, every record of the completed commits of the IOCs that are
still connected is Active. -/
def SweepSpares (w : System) : Prop :=
  w.sweep.Through → ∀ i, ∀ n ∈ w.served i, ActiveIn w.store n

end System

/-- From any store and in any interleaving of the sweep with commits, the sweep spares the live
IOCs, as long as no Active channel is written before the sweep has finished. -/
theorem sweep_spares_live {client : ChannelFinderAdapter} {cfg : CFConfig}
    (nonneg : 0 ≤ cfg.cfQueryLimit) {setup : Setup} {s : Store} {events : List System.Event}
    (careful : System.CarefulRun client cfg setup { store := s } events) :
    (events.foldl (System.step client cfg setup) { store := s }).SweepSpares := by
  have start : System.Invariant { store := s } :=
    ⟨⟨sound_empty, trivial, fun i n member => (by cases member),
      fun i n member => (by cases member)⟩, trivial⟩
  intro _ i n member
  exact ((start.run nonneg careful).settled i n member).2

/-- ChannelFinder when the recceiver starts: what an earlier run of it left behind. -/
def leftActive : Store :=
  Py.Dict.set ∅ "pv" { owner := "cfstore", properties :=
    [property .recceiverId "cfstore" "r", property .pvStatus "cfstore" PVStatus.active.value] }

abbrev goesOn : System.Event := .thread (.answers {})

abbrev sweepsOn : System.Event := .sweep (.answers {})

/-- A commit that starts while the sweep is cleaning and that writes after it. -/
def overlappingSweep : List System.Event :=
  [sweepsOn, .begin (announce "a" 5064 "pv"), goesOn, goesOn, goesOn, sweepsOn, goesOn, sweepsOn,
    goesOn, goesOn]

theorem sweep_spares_live_overlappingSweep :
    ∃ setup registered, setupCfProperties (pagesOf 10000) {} [] = .ok (setup, registered) ∧
      System.CarefulRun (pagedQueries 10000) (pagesOf 10000) setup { store := leftActive }
        overlappingSweep ∧
      ActiveIn (overlappingSweep.foldl (System.step (pagedQueries 10000) (pagesOf 10000) setup)
        { store := leftActive }).store "pv" := by
  have both {p q : Prop} (first : p) (second : p → q) : p ∧ q := ⟨first, second first⟩
  refine ⟨_, _, rfl, both ?_ fun careful => sweep_spares_live (by decide) careful (by decide)
    (announce "a" 5064 "pv").iocid "pv" (by decide)⟩
  refine .cons trivial (.cons ?_ (.cons trivial (.cons ?_ (.cons trivial (.cons trivial
    (.cons trivial (.cons trivial (.cons ?_ (.cons trivial (.nil _ _ _ _))))))))))
  · intro _
    exact Or.inl ⟨rfl, Or.inl rfl⟩
  · exact Or.inl (Or.inr (by decide))
  · intro _
    decide

/-- A commit that comes before the first query of the sweep. -/
def lateSweep : List System.Event :=
  [.begin (announce "a" 5064 "pv"), goesOn, goesOn, goesOn, goesOn, goesOn, goesOn, sweepsOn,
    sweepsOn, sweepsOn]

/-- The sweep takes the channel of the live IOC for one that was left behind. -/
theorem sweep_deactivates_live :
    ∃ setup registered, setupCfProperties (pagesOf 10000) {} [] = .ok (setup, registered) ∧
      ¬ (lateSweep.foldl (System.step (pagedQueries 10000) (pagesOf 10000) setup)
        {}).SweepSpares := by
  refine ⟨_, _, rfl, ?_⟩
  intro spares
  obtain ⟨e, stored, active⟩ := spares (by decide) (announce "a" 5064 "pv").iocid "pv" (by decide)
  have left := congrArg (Option.any fun e => decide e.Active) stored
  rw [Option.any_some, decide_eq_true active] at left
  exact absurd left (by decide)

end Recsync.Cf
