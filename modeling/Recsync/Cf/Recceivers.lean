import Recsync.Cf.Agreement
import Recsync.Cf.Stop
import Recsync.Cf.Territory

set_option autoImplicit false

/- Any number of recceivers that share one ChannelFinder. -/
namespace Recsync.Cf

open Py (Error)

namespace Service

/-- The service with another ChannelFinder. -/
def on (s : Service) (store : Store) : Service := { s with store }

section On

variable (cfg : CFConfig) (s : Service) (x : Store)

@[simp] theorem on_store : (s.on x).store = x := rfl

@[simp] theorem on_on (y : Store) : (s.on x).on y = s.on y := rfl

@[simp] theorem on_self : s.on s.store = s := rfl

/-- The reactor does not look at ChannelFinder. -/
theorem grant_on (work : List (Nat × Work)) :
    (s.on x).grant cfg work = (s.grant cfg work).on x := by
  induction work with
  | nil => rfl
  | cons first rest ih =>
    obtain ⟨number, work⟩ := first
    cases work with
    | commit t => rfl
    | stop =>
      rw [grant, grant]
      split
      · rfl
      · exact ih

theorem release_on : (s.on x).release cfg = (s.release cfg).on x := grant_on cfg s x s.waiting

theorem run_on (work : Work) : (s.on x).run cfg work = (s.run cfg work).on x := by
  rw [run, run]
  cases holding : s.holder with
  | none =>
    have free : (s.on x).holder = none := holding
    simp only [free]
    exact grant_on cfg { s with next := s.next + 1, holder := none } x _
  | some h =>
    have busy : (s.on x).holder = some h := holding
    simp only [busy]
    rfl

theorem cancel_on (number : Nat) : (s.on x).cancel cfg number = (s.cancel cfg number).on x := by
  have queue : (s.on x).waiting = s.waiting := rfl
  have same : (s.on x).holder = s.holder := rfl
  rw [cancel, cancel, queue, same]
  split
  · rfl
  · split
    · split <;> rfl
    · split
      · exact release_on cfg (s.fire number .cancelledError) x
      · rfl
    · rfl

theorem settle_on (number : Nat) (result : Except Error Unit) :
    (s.on x).settle cfg number result = (s.settle cfg number result).on x := by
  have same : (s.on x).holder = s.holder := rfl
  have cancelled : (s.on x).proc.cancelled = s.proc.cancelled := rfl
  rw [settle, settle, same]
  split
  · split
    · simp only [cancelled]
      split
      · refine Eq.trans ?_ (release_on cfg _ x)
        rfl
      · refine Eq.trans ?_ (release_on cfg _ x)
        rfl
      · refine Eq.trans ?_ (release_on cfg _ x)
        rfl
      · rfl
    · rfl
  · split
    · exact release_on cfg s x
    · rfl
  · rfl

theorem taskOf_on (number : Nat) : (s.on x).taskOf number = s.taskOf number := rfl

end On

section Inside

variable (cfg : CFConfig) (r : Territory) (P : CFProperty → Prop)

def WorkInside : Work → Prop
  | .commit t => t.Inside r
  | .stop => True

/-- All that the recceiver is at is in its territory. -/
structure Inside (s : Service) : Prop where
  waiting : ∀ w ∈ s.waiting, WorkInside r w.2
  threads : ∀ th ∈ s.threads, th.2.Inside r P cfg
  homed : Homed r.address s.proc

variable {cfg r P} {s : Service}

theorem Inside.lock (inside : s.Inside cfg r P) {rest : List (Nat × Work)}
    (waits : ∀ w ∈ rest, WorkInside r w.2) {task : Task} (own : task.Inside r P cfg)
    (number : Nat) (cancelled : Bool) (holder : Option (Nat × Holder)) :
    Service.Inside cfg r P { s with
      proc := { s.proc with cancelled }
      holder
      waiting := rest
      threads := s.threads ++ [(number, task)] } where
  waiting := waits
  threads := by
    intro th member
    rcases List.mem_append.mp member with before | last
    · exact inside.threads th before
    · rw [List.mem_singleton.mp last]
      exact own
  homed := inside.homed

theorem Inside.grant (inside : s.Inside cfg r P) {work : List (Nat × Work)}
    (waits : ∀ w ∈ work, WorkInside r w.2) : (s.grant cfg work).Inside cfg r P := by
  induction work with
  | nil => exact ⟨by simp [Service.grant], inside.threads, inside.homed⟩
  | cons first rest ih =>
    rw [List.forall_mem_cons] at waits
    obtain ⟨number, work⟩ := first
    cases work with
    | commit t =>
      have own : (Task.starting t).Inside r P cfg := waits.1
      exact inside.lock waits.2 own number false _
    | stop =>
      rw [Service.grant]
      split
      · have own : (Task.sweeping .querying 0).Inside r P cfg := trivial
        exact inside.lock waits.2 own number s.proc.cancelled _
      · exact ih waits.2

theorem Inside.run (inside : s.Inside cfg r P) {work : Work} (own : WorkInside r work) :
    (s.run cfg work).Inside cfg r P := by
  cases holding : s.holder with
  | none =>
    rw [run_free holding]
    have next : Service.Inside cfg r P { s with next := s.next + 1 } :=
      ⟨inside.waiting, inside.threads, inside.homed⟩
    exact next.grant (List.forall_mem_cons.mpr ⟨own, inside.waiting⟩)
  | some h =>
    rw [run_busy holding]
    refine ⟨?_, inside.threads, inside.homed⟩
    intro w member
    rcases List.mem_append.mp member with before | last
    · exact inside.waiting w before
    · rw [List.mem_singleton.mp last]
      exact own

theorem Inside.release (inside : s.Inside cfg r P) : (s.release cfg).Inside cfg r P :=
  inside.grant inside.waiting

theorem Inside.cancel (inside : s.Inside cfg r P) (number : Nat) :
    (s.cancel cfg number).Inside cfg r P := by
  rw [Service.cancel]
  split
  · exact ⟨fun w member => inside.waiting w (List.mem_of_mem_filter member), inside.threads,
      inside.homed⟩
  · split
    · split
      · exact ⟨inside.waiting, inside.threads, inside.homed⟩
      · exact inside
    · split
      · exact Inside.release ⟨inside.waiting, inside.threads, inside.homed⟩
      · exact inside
    · exact inside

theorem Inside.settle (inside : s.Inside cfg r P) (number : Nat) (result : Except Error Unit) :
    (s.settle cfg number result).Inside cfg r P := by
  rw [Service.settle]
  split
  · split
    · dsimp only
      split
      · exact Inside.release ⟨inside.waiting, inside.threads, inside.homed⟩
      · exact Inside.release ⟨inside.waiting, inside.threads, inside.homed⟩
      · exact Inside.release ⟨inside.waiting, inside.threads, inside.homed⟩
      · exact ⟨inside.waiting, inside.threads, inside.homed⟩
    · exact inside
  · split
    · exact inside.release
    · exact inside
  · exact inside

theorem Inside.taskOf (inside : s.Inside cfg r P) {number : Nat} {task : Task}
    (found : s.taskOf number = some task) : task.Inside r P cfg := by
  obtain ⟨th, hit, rfl⟩ := Option.map_eq_some_iff.mp found
  exact inside.threads th (List.mem_of_find?_eq_some hit)

theorem Inside.setTask (inside : s.Inside cfg r P) (number : Nat) {w : World} {task : Task}
    (homed : Homed r.address w.proc) (own : task.Inside r P cfg) :
    (s.setTask number w task).Inside cfg r P := by
  refine ⟨inside.waiting, ?_, homed⟩
  intro th member
  obtain ⟨before, there, rfl⟩ := List.mem_map.mp member
  split
  · exact own
  · exact inside.threads before there

end Inside

section Step

variable (client : ChannelFinderAdapter) (cfg : CFConfig) (setup : Setup) (r : Territory)
  (P : CFProperty → Prop)

def Allowed : Event → Prop
  | .commit t => t.Inside r
  | _ => True

/-- What a step of a recceiver does in its territory and outside. -/
structure Remains (s : Service) (e : Event) : Prop where
  part : (s.on (r.part s.store)).step client cfg setup e =
    (s.step client cfg setup e).on (r.part (s.step client cfg setup e).store)
  outside : r.rest (s.step client cfg setup e).store = r.rest s.store
  home : Home r P (s.step client cfg setup e).store
  inside : (s.step client cfg setup e).Inside cfg r P

variable {client cfg setup r P} {s : Service}

theorem remains_reactor {e : Event} (home : Home r P s.store)
    (inside : (s.step client cfg setup e).Inside cfg r P)
    (store : (s.step client cfg setup e).store = s.store)
    (blind : ∀ x, (s.on x).step client cfg setup e = (s.step client cfg setup e).on x) :
    Remains client cfg setup r P s e := by
  refine ⟨?_, ?_, ?_, inside⟩
  · rw [blind, store]
  · rw [store]
  · rw [store]
    exact home

theorem remains_thread {e : Event} (inside : s.Inside cfg r P) (number : Nat)
    {after onPart : World × Task} (stays : Stays r P cfg s.toWorld after onPart)
    (step : s.step client cfg setup e = s.setTask number after.1 after.2)
    (stepPart : (s.on (r.part s.store)).step client cfg setup e =
      (s.on (r.part s.store)).setTask number onPart.1 onPart.2) :
    Remains client cfg setup r P s e := by
  refine ⟨?_, ?_, ?_, ?_⟩
  · rw [stepPart, step, stays.part]
    rfl
  · rw [step]
    exact stays.outside
  · rw [step]
    exact stays.home
  · rw [step]
    exact inside.setTask number stays.homed stays.inside

/-- Nothing happens for a thread that is not there. -/
theorem remains_idle {e : Event} (home : Home r P s.store) (inside : s.Inside cfg r P)
    (idle : ∀ x, (s.on x).step client cfg setup e = s.on x) :
    Remains client cfg setup r P s e := by
  have same : s.step client cfg setup e = s := idle s.store
  refine remains_reactor home ?_ ?_ ?_
  · rwa [same]
  · rw [same]
  · intro x
    rw [idle, same]

/-- The end of a thread that is there is told to the reactor. -/
theorem remains_deliver (home : Home r P s.store) (inside : s.Inside cfg r P) {number : Nat}
    {result : Except Error Unit} (found : (s.taskOf number).bind Task.result? = some result) :
    Remains client cfg setup r P s (.deliver number) := by
  have rest : Service.Inside cfg r P
      { s with threads := s.threads.filter fun th => th.1 ≠ number } :=
    ⟨inside.waiting, fun th member => inside.threads th (List.mem_of_mem_filter member),
      inside.homed⟩
  refine remains_reactor home ?_ ?_ ?_
  · simp only [step, found]
    exact rest.settle number result
  · simp only [step, found]
    exact settle_store _ _ _
  · intro x
    simp only [step, taskOf_on, found]
    refine Eq.trans ?_ (settle_on cfg _ x number result)
    rfl

/-- A step of a recceiver is the same on its territory, and stays in it. -/
theorem step_remains (tenant : Tenant client cfg setup r P s.toWorld) (inside : s.Inside cfg r P)
    {e : Event} (allowed : Allowed r e) : Remains client cfg setup r P s e := by
  match e, allowed with
  | .commit t, own =>
    exact remains_reactor tenant.home (inside.run own) (run_store s _) fun x => run_on cfg s x _
  | .stop, _ =>
    have halted : Service.Inside cfg r P { s with proc := { s.proc with running := false } } :=
      ⟨inside.waiting, inside.threads, inside.homed⟩
    refine remains_reactor tenant.home (halted.run trivial) (run_store _ _) fun x => ?_
    refine Eq.trans ?_ (run_on cfg _ x .stop)
    rfl
  | .cancel number, _ =>
    exact remains_reactor tenant.home (inside.cancel number) (cancel_store s number)
      fun x => cancel_on cfg s x number
  | .proceed number env, _ =>
    cases found : s.taskOf number with
    | some task =>
      have stays :=
        @Tenant.proceed client cfg setup r P env s.toWorld tenant task (inside.taskOf found)
      refine remains_thread inside number stays ?_ ?_
      · simp only [step, found]
      · simp only [step, taskOf_on, found]
        rfl
    | none =>
      refine remains_idle tenant.home inside fun x => ?_
      simp only [step, taskOf_on, found]
  | .fails number torn part tornNames partNames, _ =>
    cases found : s.taskOf number with
    | some task =>
      refine remains_thread inside number (tenant.fails part partNames (inside.taskOf found)) ?_ ?_
      · simp only [step, found]
      · simp only [step, taskOf_on, found]
        rfl
    | none =>
      refine remains_idle tenant.home inside fun x => ?_
      simp only [step, taskOf_on, found]
  | .deliver number, _ =>
    cases found : (s.taskOf number).bind Task.result? with
    | some result => exact remains_deliver tenant.home inside found
    | none =>
      refine remains_idle tenant.home inside fun x => ?_
      simp only [step, taskOf_on, found]

/-- Alone on a ChannelFinder, a recceiver is the service itself. -/
def turn (client : ChannelFinderAdapter) (cfg : CFConfig) (setup : Setup) (s : Service × Store)
    (e : Event) : Service × Store :=
  let after := (s.1.on s.2).step client cfg setup e
  (after.on ∅, after.store)

theorem alone_turn {ι : Type} (clients : ι → ChannelFinderAdapter) (cfgs : ι → CFConfig)
    (setups : ι → Setup) (i : ι) (s : Service) (x : Store) (events : List Event) :
    let after := Regions.alone (fun i => turn (clients i) (cfgs i) (setups i)) i (s.on ∅, x) events
    after.1.on after.2 = (s.on x).steps (clients i) (cfgs i) (setups i) events := by
  induction events generalizing s x with
  | nil => rfl
  | cons e rest ih =>
    exact ih ((s.on x).step (clients i) (cfgs i) (setups i) e)
      ((s.on x).step (clients i) (cfgs i) (setups i) e).store

end Step

end Service

/-- Recceivers with one ChannelFinder: how each is configured, and what belongs to it. -/
structure Recceivers (ι : Type) where
  client : ι → ChannelFinderAdapter
  cfg : ι → CFConfig
  setup : ι → Setup
  territory : ι → Territory

namespace Recceivers

open Service (Allowed turn)

variable {ι : Type} (rs : Recceivers ι)

/-- Every recceiver has an id and a territory to itself. -/
structure Apart : Prop where
  ids : ∀ i j, i ≠ j → (rs.cfg i).recceiverId ≠ (rs.cfg j).recceiverId
  names : ∀ i j, i ≠ j → ∀ n, (rs.territory i).names n = true → (rs.territory j).names n = false
  addresses : ∀ i j, i ≠ j → ∀ v, (rs.territory i).address v → ¬ (rs.territory j).address v

/-- The properties that do not speak of another recceiver. -/
def Own (i : ι) (q : CFProperty) : Prop :=
  (q.name = CFPropertyName.iocId.value → ∀ j, i ≠ j → ¬ (rs.territory j).address q.value) ∧
    (q.name = CFPropertyName.recceiverId.value → ∀ j, i ≠ j → q.value ≠ (rs.cfg j).recceiverId)

variable {rs}

theorem Apart.admits (apart : rs.Apart) (i : ι) :
    Admits (rs.cfg i) (rs.territory i).address (rs.Own i) where
  plain := fun _ ioc recceiver => ⟨fun named => absurd named ioc, fun named =>
    absurd named recceiver⟩
  iocId := by
    intro owner v own
    refine ⟨fun _ j other => apart.addresses i j other v own, ?_⟩
    intro named
    have other : CFPropertyName.iocId.value ≠ CFPropertyName.recceiverId.value := by decide
    exact absurd named other
  recceiverId := by
    intro owner
    refine ⟨?_, fun _ j other => apart.ids i j other⟩
    intro named
    have other : CFPropertyName.recceiverId.value ≠ CFPropertyName.iocId.value := by decide
    exact absurd named other

variable (rs)

/-- No recceiver stores a record's property or an environment variable as one of its own. -/
def Plain : Prop :=
  ∀ i, (rs.setup i).Avoids CFPropertyName.iocId.value ∧
    (rs.setup i).Avoids CFPropertyName.recceiverId.value

/-- The adapter of a recceiver answers the queries about its territory from there. -/
def Within : Prop := ∀ i, (rs.client i).Within (rs.territory i)

/-- The recceivers and ChannelFinder. -/
abbrev Shared (ι : Type) := Regions.State ι Service Store

def start (s : Store) : Shared ι := ⟨fun _ => Service.idle {}, s⟩

def run [DecidableEq ι] (s : Shared ι) (events : List (ι × Service.Event)) : Shared ι :=
  Regions.run (fun i => turn (rs.client i) (rs.cfg i) (rs.setup i)) s events

/-- Each recceiver is in its territory, and no channel outside speaks of it. -/
structure Orderly (s : Shared ι) : Prop where
  respected : ∀ i, (rs.territory i).Respected (rs.cfg i) s.store
  inside : ∀ i, (s.machines i).Inside (rs.cfg i) (rs.territory i) (rs.Own i)

variable {rs} {s : Shared ι}

/-- What a recceiver finds in its territory does not speak of the others. -/
theorem home_of_respected (apart : rs.Apart)
    (respected : ∀ i, (rs.territory i).Respected (rs.cfg i) s.store) (i : ι) :
    Home (rs.territory i) (rs.Own i) s.store := by
  intro n e stored own q member
  have outside (j : ι) (other : i ≠ j) := respected j n e stored (apart.names i j other n own)
  constructor
  · intro named j other address
    exact (outside j other).1 q.value address ⟨q, member, named, rfl⟩
  · intro named j other same
    exact (outside j other).2 ⟨q, member, named, same⟩

theorem Orderly.tenant (orderly : rs.Orderly s) (within : rs.Within) (apart : rs.Apart)
    (plain : rs.Plain)
    (i : ι) : Tenant (rs.client i) (rs.cfg i) (rs.setup i) (rs.territory i) (rs.Own i)
      ((s.machines i).on s.store).toWorld where
  within := within i
  admits := apart.admits i
  infos := by
    intro env t n info found q member
    refine ⟨fun named => ?_, fun named => ?_⟩
    · exact absurd named (recordsOf_avoids (plain i).1 n info found q member)
    · exact absurd named (recordsOf_avoids (plain i).2 n info found q member)
  respected := orderly.respected i
  home := home_of_respected apart orderly.respected i
  homed := (orderly.inside i).homed

theorem Orderly.remains (orderly : rs.Orderly s) (within : rs.Within) (apart : rs.Apart)
    (plain : rs.Plain)
    {i : ι} {e : Service.Event} (allowed : Allowed (rs.territory i) e) :
    Service.Remains (rs.client i) (rs.cfg i) (rs.setup i) (rs.territory i) (rs.Own i)
      ((s.machines i).on s.store) e := by
  have inside := orderly.inside i
  exact Service.step_remains (orderly.tenant within apart plain i)
    ⟨inside.waiting, inside.threads, inside.homed⟩ allowed

/-- What a step of one recceiver leaves in ChannelFinder is still in order for all. -/
theorem Orderly.respected_after (orderly : rs.Orderly s) {i : ι}
    {e : Service.Event}
    (remains : Service.Remains (rs.client i) (rs.cfg i) (rs.setup i) (rs.territory i)
      (rs.Own i) ((s.machines i).on s.store) e) (j : ι) :
    (rs.territory j).Respected (rs.cfg j)
      (((s.machines i).on s.store).step (rs.client i) (rs.cfg i) (rs.setup i) e).store := by
  intro n entry stored outside
  cases own : (rs.territory i).names n with
  | false =>
    rw [Territory.get?_of_rest remains.outside own] at stored
    exact orderly.respected j n entry stored outside
  | true =>
    -- the channel is of recceiver `i`, which is not `j`
    have other : i ≠ j := by
      rintro rfl
      rw [own] at outside
      cases outside
    have plain := remains.home n entry stored own
    constructor
    · rintro v address ⟨q, member, named, rfl⟩
      exact (plain q member).1 named j other address
    · rintro ⟨q, member, named, same⟩
      exact (plain q member).2 named j other same

theorem orderly_start {s : Store}
    (respected : ∀ i, (rs.territory i).Respected (rs.cfg i) s) : rs.Orderly (start s) := by
  refine ⟨respected, fun i => ⟨?_, ?_, ?_⟩⟩
  · intro w member
    cases member
  · intro th member
    cases member
  · intro ioc info known
    cases known

variable [DecidableEq ι]

theorem keep (within : rs.Within) (apart : rs.Apart)
    (plain : rs.Plain) :
    Regions.Keep (fun i => turn (rs.client i) (rs.cfg i) (rs.setup i)) (fun i =>
      (rs.territory i).part)
      rs.Orderly (fun i => Allowed (rs.territory i)) where
  kept := by
    rintro s ⟨i, e⟩ orderly allowed
    have remains := orderly.remains within apart plain allowed
    refine ⟨orderly.respected_after remains, ?_⟩
    intro j
    by_cases here : j = i
    · subst here
      have inside := remains.inside
      rw [Regions.shared_self]
      exact ⟨inside.waiting, inside.threads, inside.homed⟩
    · rw [Regions.shared_other _ s i e here]
      exact orderly.inside j
  own := by
    intro s i e orderly allowed
    have same := (orderly.remains within apart plain allowed).part
    rw [Service.on_on, Service.on_store] at same
    simp only [turn, same]
    rfl
  others := by
    intro s i e orderly allowed j other
    have remains := orderly.remains within apart plain allowed
    exact Territory.part_of_rest remains.outside (apart.names j i other)

/-- Recceivers that share ChannelFinder, in whatever order their requests are answered or fail: each
does in its territory what it would do alone, and no channel outside changes. -/
theorem each_as_alone (rs : Recceivers ι) (within : rs.Within) (apart : rs.Apart)
    (named : ∀ i, (rs.cfg i).NamesApart)
    (started : ∀ i, ∃ env cfProperties registered,
      setupCfProperties (rs.cfg i) env cfProperties = .ok (rs.setup i, registered))
    {s : Store} (respected : ∀ i, (rs.territory i).Respected (rs.cfg i) s)
    {events : List (ι × Service.Event)} (allowed : ∀ e ∈ events, Allowed (rs.territory e.1) e.2) :
    let after := rs.run (start s) events
    (∀ i, (after.machines i).on ((rs.territory i).part after.store) =
      (Service.idle ⟨{}, (rs.territory i).part s⟩).steps (rs.client i) (rs.cfg i) (rs.setup i)
        (Regions.eventsOf i events)) ∧
      ∀ n, (∀ i, (rs.territory i).names n = false) → after.store.get? n = s.get? n := by
  intro after
  have plain : rs.Plain := by
    intro i
    obtain ⟨env, cfProperties, registered, done⟩ := started i
    exact ⟨setupCfProperties_avoids (named i) done (by decide) (by decide) (by decide),
      setupCfProperties_avoids (named i) done (by decide) (by decide) (by decide)⟩
  have orderly := orderly_start respected
  constructor
  · intro i
    have own := ((keep within apart plain).run_alone orderly allowed i).2
    have alone := Service.alone_turn rs.client rs.cfg rs.setup i (Service.idle {})
      ((rs.territory i).part s) (Regions.eventsOf i events)
    exact (congrArg (fun x : Service × Store => x.1.on x.2) own).trans alone
  · intro n nobody
    apply (keep within apart plain).run_unchanged (fun s => s.get? n) _ orderly allowed
    intro s i e orderly allowed
    exact Territory.get?_of_rest (orderly.remains within apart plain allowed).outside (nobody i)

/-- Two recceivers with a client each, whose channels begin with a letter of their own; a query is
answered with one channel. -/
def pair (setup : Setup) : Recceivers Bool where
  client := fun _ => pagedQueries 1
  cfg := fun i => { recceiverId := bif i then "r" else "q" }
  setup := fun _ => setup
  territory := fun i =>
    { names := fun n => n.toList.head? == some (bif i then 'a' else 'b')
      address := fun v => v = bif i then "a:5064" else "b:5064" }

theorem pair_within (setup : Setup) : (pair setup).Within := by
  intro i
  apply queries_within
  intro names inside chunk member n same
  rw [← eq_of_beq same]
  refine PyCFClientAdapter.nameQueries_all inside ?_ chunk member
  intro a b first _
  have head := eq_of_beq first
  show ((a ++ "|" ++ b).toList.head? == _) = true
  rw [String.toList_append, String.toList_append, List.head?_append, List.head?_append, head]
  exact beq_self_eq_true _

theorem pair_apart (setup : Setup) : (pair setup).Apart where
  ids := by
    show ∀ i j : Bool, i ≠ j → (bif i then "r" else "q") ≠ bif j then "r" else "q"
    decide
  names := by
    intro i j other n own
    have head : n.toList.head? = some (bif i then 'a' else 'b') := eq_of_beq own
    show (n.toList.head? == some (bif j then 'a' else 'b')) = false
    rw [head]
    clear own head
    revert i j
    decide
  addresses := by
    rintro i j other v rfl
    show (bif i then "a:5064" else "b:5064") ≠ bif j then "a:5064" else "b:5064"
    revert i j
    decide

/-- Both commit at once, a write fails and is made again, and one of them stops. -/
def crossing : List (Bool × Service.Event) :=
  [(true, .commit (announce "a" 5064 "a:pv")), (false, .commit (announce "b" 5064 "b:pv")),
    (true, .proceed 0 {}), (false, .proceed 0 {}), (true, .proceed 0 {}), (false, .proceed 0 {}),
    (true, .proceed 0 {}), (false, .proceed 0 {}), (true, .proceed 0 {}), (false, .proceed 0 {}),
    (true, .fails 0 (fun _ => []) List.nil_subset (fun _ => []) List.nil_subset), (false, .stop),
    (false, .proceed 0 {}), (true, .proceed 0 {}), (false, .proceed 0 {}), (true, .proceed 0 {}),
    (false, .deliver 0), (true, .proceed 0 {}), (false, .proceed 1 {}), (true, .proceed 0 {}),
    (false, .proceed 1 {}), (true, .proceed 0 {})]

theorem crossing_allowed (setup : Setup) :
    ∀ e ∈ crossing, Allowed ((pair setup).territory e.1) e.2 := by
  have first : (announce "a" 5064 "a:pv").Inside ((pair setup).territory true) :=
    ⟨show iocidOf "a" 5064 = "a:5064" by decide, by
      show ∀ n ∈ (announce "a" 5064 "a:pv").names, (n.toList.head? == some 'a') = true
      decide⟩
  have second : (announce "b" 5064 "b:pv").Inside ((pair setup).territory false) :=
    ⟨show iocidOf "b" 5064 = "b:5064" by decide, by
      show ∀ n ∈ (announce "b" 5064 "b:pv").names, (n.toList.head? == some 'b') = true
      decide⟩
  rw [crossing, List.forall_mem_cons, List.forall_mem_cons]
  refine ⟨first, second, ?_⟩
  simp [Allowed]

theorem each_as_alone_crossing :
    ∃ setup registered, setupCfProperties { recceiverId := "r" } {} [] = .ok (setup, registered) ∧
      let after := (pair setup).run (start ∅) crossing
      after.store.keys = ["b:pv", "a:pv"] ∧
        ∀ i, (after.machines i).on (((pair setup).territory i).part after.store) =
          (Service.idle {}).steps (pagedQueries 1)
            ((pair setup).cfg i) setup (Regions.eventsOf i crossing) := by
  have started : setupCfProperties { recceiverId := "r" } {} [] = .ok (_, _) := rfl
  refine ⟨_, _, started, by decide +kernel, ?_⟩
  refine ((pair _).each_as_alone (pair_within _) (pair_apart _) ?_ ?_ ?_
    (crossing_allowed _)).1
  · intro i
    exact namesApart_of_plain rfl rfl
  · rintro (_ | _)
    · exact ⟨{}, [], _, rfl⟩
    · exact ⟨{}, [], _, started⟩
  · intro i n e stored
    cases stored

end Recceivers

end Recsync.Cf
