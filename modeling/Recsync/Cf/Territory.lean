import Recsync.Lib.Regions
import Recsync.Cf.Batches
import Recsync.Cf.Properties
import Recsync.Cf.SweepFaults

set_option autoImplicit false

/- A recceiver in a ChannelFinder that it shares with others. -/
namespace Recsync.Cf

/-- What belongs to a recceiver: the channels of its clients, and their addresses. -/
structure Territory where
  names : String → Bool
  address : String → Prop

namespace Territory

variable (r : Territory)

def part (s : Store) : Store := s.only r.names

def rest (s : Store) : Store := s.only fun n => !r.names n

def partOf (w : World) : World := { w with store := r.part w.store }

/-- The channels outside are not listed under an address of the territory, and do not have the id
of its recceiver. -/
def Respected (cfg : CFConfig) (s : Store) : Prop :=
  ∀ n e, s.get? n = some e → r.names n = false →
    (∀ v, r.address v → ¬ e.has .iocId v) ∧ ¬ e.has .recceiverId cfg.recceiverId

variable {r}

theorem rest_set {n : String} (inside : r.names n = true) (s : Store) (e : CFEntry) :
    r.rest (s.set n e) = r.rest s := by
  have here : (!r.names n) = false := by rw [inside, Bool.not_true]
  exact Py.Dict.only_set_of_not_mem (p := fun n => !r.names n) here s e

theorem get?_of_rest {s s' : Store} (same : r.rest s' = r.rest s) {n : String}
    (outside : r.names n = false) : s'.get? n = s.get? n := by
  have there : (!r.names n) = true := by rw [outside, Bool.not_false]
  have found := congrArg (fun d => d.get? n) same
  simpa only [rest, Py.Dict.get?_only, if_pos there] using found

theorem part_of_rest {s s' : Store} (same : r.rest s' = r.rest s) {other : Territory}
    (apart : ∀ n, other.names n = true → r.names n = false) : other.part s' = other.part s := by
  have within (n : String) (own : other.names n = true) : (!r.names n) = true := by
    rw [apart n own, Bool.not_false]
  rw [part, part, ← Py.Dict.only_only within, ← Py.Dict.only_only within s]
  exact congrArg (fun d => d.only other.names) same

end Territory

section Requests

variable {cfg : CFConfig} {r : Territory} {s : Store} {env : Env}

theorem storedChannels_part (s : Store) :
    storedChannels (r.part s) = (storedChannels s).filter fun ch => r.names ch.name := by
  rw [storedChannels, storedChannels, List.filter_map]
  rfl

/-- A query that matches nothing outside is answered from the territory. -/
theorem filter_storedChannels_part {q : CFChannel → Bool}
    (inside : ∀ ch ∈ storedChannels s, q ch = true → r.names ch.name = true) :
    (storedChannels (r.part s)).filter q = (storedChannels s).filter q := by
  rw [storedChannels_part, List.filter_filter]
  apply List.filter_congr
  intro ch member
  cases matching : q ch with
  | false => rfl
  | true => rw [inside ch member matching, Bool.and_self]

theorem names_of_listed (respected : r.Respected cfg s) {ch : CFChannel}
    (member : ch ∈ storedChannels s) {v : String} (own : r.address v)
    (listed : ch.toCFEntry.has .iocId v) : r.names ch.name = true := by
  by_contra outside
  have stored := (mem_storedChannels s ch).mp member
  exact (respected _ _ stored (Bool.eq_false_iff.mpr outside)).1 v own listed

/-- The queries about a territory are answered from its channels. -/
structure ChannelFinderAdapter.Within (client : ChannelFinderAdapter) (r : Territory) : Prop where
  findByIocId : ∀ cfg env s v, r.Respected cfg s → r.address v →
    client.findByIocId env (r.part s) v = client.findByIocId env s v
  findByNames : ∀ env s names, (∀ n ∈ names, r.names n = true) →
    client.findByNames env (r.part s) names = client.findByNames env s names

/-- A query for names of the territory matches no other names. -/
def Territory.Separates (r : Territory) (nameMatches : String → String → Bool) : Prop :=
  ∀ names, (∀ n ∈ names, r.names n = true) → ∀ chunk ∈ PyCFClientAdapter.nameQueries names,
    ∀ n, nameMatches chunk n = true → r.names n = true

/-- The adapter of the program, whatever its size limit. -/
theorem queries_within {cfg : CFConfig} {nameMatches : String → String → Bool}
    (separates : r.Separates nameMatches) : (cfg.queries nameMatches).Within r where
  findByIocId := by
    intro cfg' env s v respected own
    show PyCFClientAdapter.findByIocId _ env (r.part s) v = PyCFClientAdapter.findByIocId _ env s v
    rw [PyCFClientAdapter.findByIocId, PyCFClientAdapter.findByIocId, filter_storedChannels_part]
    intro ch member matching
    exact names_of_listed respected member own (of_decide_eq_true matching)
  findByNames := by
    intro env s names inside
    refine List.flatMap_congr fun chunk member => ?_
    rw [filter_storedChannels_part]
    intro ch _ matching
    exact separates names inside chunk member ch.name matching

variable {client : ChannelFinderAdapter}

theorem getExistingChannels_part (within : client.Within r) {new : List String}
    (inside : ∀ n ∈ new, r.names n = true) :
    client.getExistingChannels env (r.part s) new = client.getExistingChannels env s new := by
  rw [ChannelFinderAdapter.getExistingChannels, ChannelFinderAdapter.getExistingChannels,
    within.findByNames]
  intro n member
  exact inside n ((env.setOrder_perm new).mem_iff.mp member)

theorem names_getExistingChannels (within : client.Within r) {new : List String}
    (inside : ∀ n ∈ new, r.names n = true) {n : String} {e : CFEntry}
    (found : (client.getExistingChannels env s new).get? n = some e) : r.names n = true := by
  rw [← getExistingChannels_part within inside] at found
  have stored := getExistingChannels_stored found
  rw [Territory.part, Py.Dict.get?_only] at stored
  by_contra outside
  rw [if_neg outside] at stored
  cases stored

theorem names_of_marked (respected : r.Respected cfg s) {ch : CFChannel}
    (member : ch ∈ storedChannels s) (marked : ch.toCFEntry.has .recceiverId cfg.recceiverId) :
    r.names ch.name = true := by
  by_contra outside
  have stored := (mem_storedChannels s ch).mp member
  exact (respected _ _ stored (Bool.eq_false_iff.mpr outside)).2 marked

theorem findActiveForRecceiver_part (respected : r.Respected cfg s) :
    findActiveForRecceiver cfg env (r.part s) = findActiveForRecceiver cfg env s := by
  have same := @filter_storedChannels_part r s
    (fun ch => decide ch.toCFEntry.Active && decide (ch.toCFEntry.has .recceiverId cfg.recceiverId))
    (fun ch member matching => names_of_marked respected member
      (of_decide_eq_true (Bool.and_eq_true_iff.mp matching).2))
  rw [findActiveForRecceiver, findActiveForRecceiver, same]

theorem names_findActiveForRecceiver (respected : r.Respected cfg s) :
    ∀ ch ∈ findActiveForRecceiver cfg env s, r.names ch.name = true := by
  intro ch member
  have matching := (findActiveForRecceiver_isPage env s).inside ch member
  obtain ⟨stored, swept⟩ := mem_activeFor.mp matching
  exact names_of_marked respected ((mem_storedChannels s ch).mpr stored) swept.2

theorem setChannels_part {channels : List CFChannel}
    (inside : ∀ ch ∈ channels, r.names ch.name = true) :
    setChannels (r.part s) channels = r.part (setChannels s channels) := by
  induction channels generalizing s with
  | nil => rfl
  | cons ch rest ih =>
    rw [List.forall_mem_cons] at inside
    rw [setChannels_cons, setChannels_cons, ← ih inside.2, Territory.part, Territory.part,
      Py.Dict.only_set_of_mem inside.1]

/-- Writes inside leave alone what is outside. -/
theorem setChannels_rest {channels : List CFChannel}
    (inside : ∀ ch ∈ channels, r.names ch.name = true) :
    r.rest (setChannels s channels) = r.rest s := by
  induction channels generalizing s with
  | nil => rfl
  | cons ch others ih =>
    rw [List.forall_mem_cons] at inside
    rw [setChannels_cons, ih inside.2, Territory.rest_set inside.1]

theorem updateProperty_part (p : CFProperty) {names : List String}
    (inside : ∀ n ∈ names, r.names n = true) :
    updateProperty (r.part s) p names = r.part (updateProperty s p names) := by
  simp only [updateProperty]
  induction names generalizing s with
  | nil => rfl
  | cons n rest ih =>
    rw [List.forall_mem_cons] at inside
    rw [List.foldl_cons, List.foldl_cons, ← ih inside.2]
    congr 1
    rw [Territory.part, Py.Dict.get?_only, if_pos inside.1]
    cases found : s.get? n with
    | none => rfl
    | some e => exact (Py.Dict.only_set_of_mem inside.1 s _).symm

theorem updateProperty_rest (p : CFProperty) {names : List String}
    (inside : ∀ n ∈ names, r.names n = true) :
    r.rest (updateProperty s p names) = r.rest s := by
  simp only [updateProperty]
  induction names generalizing s with
  | nil => rfl
  | cons n others ih =>
    rw [List.forall_mem_cons] at inside
    rw [List.foldl_cons, ih inside.2]
    cases s.get? n with
    | none => rfl
    | some e => exact Territory.rest_set inside.1 s _

end Requests

section Inside

variable (r : Territory) (P : CFProperty → Prop)

/-- The channel is in the territory, and its properties satisfy `P`. -/
def CFChannel.Inside (ch : CFChannel) : Prop := r.names ch.name = true ∧ AllOf P ch.properties

/-- What the store holds in the territory satisfies `P`. -/
def Home (s : Store) : Prop :=
  ∀ n e, s.get? n = some e → r.names n = true → AllOf P e.properties

structure Job.Inside (cfg : CFConfig) (job : Job) : Prop where
  address : r.address job.ioc.id
  names : ∀ n ∈ touched cfg job.records, r.names n = true
  infos : ∀ n info, job.records.get? n = some info → AllOf P info.infoProperties

/-- What a client of the territory may commit. -/
def Transaction.Inside (t : Transaction) : Prop :=
  r.address t.iocid ∧ ∀ n ∈ t.names, r.names n = true

/-- What a thread has in hand is in the territory. -/
def Task.Inside (cfg : CFConfig) : Task → Prop
  | .starting t => t.Inside r
  | .attempting job | .fetching job => job.Inside r P cfg
  | .reconciled job _ new handled =>
    job.Inside r P cfg ∧ (∀ n ∈ new, r.names n = true) ∧ ∀ ch ∈ handled, ch.Inside r P
  | .writing job todo => job.Inside r P cfg ∧ ∀ batch ∈ todo, ∀ ch ∈ batch, ch.Inside r P
  | .sweeping (.cleaning names) _ => ∀ n ∈ names, r.names n = true
  | .sweeping .querying _ | .sweeping .finished _ | .ended _ => True

/-- What a step of a thread does in the territory, `onPart` being what it does there alone. -/
structure Stays (cfg : CFConfig) (w : World) (after onPart : World × Task) : Prop where
  part : onPart = (r.partOf after.1, after.2)
  outside : r.rest after.1.store = r.rest w.store
  home : Home r P after.1.store
  homed : Homed r.address after.1.proc
  inside : after.2.Inside r P cfg

end Inside

section Writes

variable {client : ChannelFinderAdapter} {cfg : CFConfig} {setup : Setup} {r : Territory}
  {P : CFProperty → Prop} {env : Env}
  {s : Store}

theorem Home.setChannels (home : Home r P s) {channels : List CFChannel}
    (inside : ∀ ch ∈ channels, ch.Inside r P) : Home r P (setChannels s channels) := by
  intro n e stored own
  rcases get?_setChannels_cases s channels n with ⟨kept, -⟩ | ⟨ch, member, -, written⟩
  · exact home n e (kept.symm.trans stored) own
  · obtain rfl := Option.some.inj (written.symm.trans stored)
    exact (inside ch member).2

theorem Home.updateProperty (home : Home r P s) {p : CFProperty} (good : P p)
    (names : List String) : Home r P (updateProperty s p names) := by
  intro n e stored own
  rw [get?_updateProperty_mem] at stored
  split at stored
  · obtain ⟨old, found, rfl⟩ := Option.map_eq_some_iff.mp stored
    intro q member
    rcases List.mem_append.mp member with kept | last
    · exact home n old found own q (List.mem_of_mem_filter kept)
    · rw [List.mem_singleton.mp last]
      exact good
  · exact home n e stored own

/-- What the first query leads to. -/
theorem reconcileOld_inside (admits : Admits cfg r.address P) (respected : r.Respected cfg s)
    (home : Home r P s) {p : Processor} (homed : Homed r.address p) {job : Job}
    (inside : job.Inside r P cfg) {new : List String} {handled : List CFChannel}
    (ran : reconcileOld cfg setup p job.records job.del job.ioc
      (client.findByIocId env s job.ioc.id) = .ok (new, handled)) :
    (∀ n ∈ new, r.names n = true) ∧ ∀ ch ∈ handled, ch.Inside r P := by
  have listed (cf) (found : cf ∈ client.findByIocId env s job.ioc.id) :
      s.get? cf.name = some cf.toCFEntry ∧ r.names cf.name = true := by
    obtain ⟨stored, has⟩ := client.findByIocId_listed env s _ cf found
    exact ⟨stored, names_of_listed respected ((mem_storedChannels s cf).mpr stored)
      inside.address has⟩
  constructor
  · intro n member
    have key : n ∈ job.records.keys := (handleChannels_left ran).1.subset member
    exact inside.names n (mem_touched.mpr ⟨n, key, Or.inl rfl⟩)
  · intro ch member
    refine ⟨?_, admits.handleChannels homed ?_ ran ch member⟩
    · obtain ⟨cf, found, same | named⟩ := handleChannels_names ran ch member
      · rw [same]
        exact (listed cf found).2
      · exact inside.names ch.name (mem_touched_of_alias named)
    · intro cf found
      obtain ⟨stored, own⟩ := listed cf found
      exact home cf.name cf.toCFEntry stored own

/-- What the second query leads to. -/
theorem processNewChannels_inside (within : client.Within r) (admits : Admits cfg r.address P)
    (home : Home r P s)
    {job : Job} (inside : job.Inside r P cfg) {new : List String}
    (names : ∀ n ∈ new, r.names n = true) :
    ∀ ch ∈ processNewChannels cfg setup job.ioc job.records env new
      (client.getExistingChannels env s new),
      ch.Inside r P := by
  intro ch member
  constructor
  · rcases processNewChannels_names env new _ ch member with named | touch
    · exact names ch.name named
    · exact inside.names ch.name touch
  · refine admits.processNewChannels inside.address inside.infos new ?_ ch member
    intro n e found
    exact home n e (getExistingChannels_stored found) (names_getExistingChannels within names found)

theorem batches_inside {ioc : IOCInfo} {records : Py.Dict String RecordInfo}
    {old handled : List CFChannel} {new : List String} {existing : Py.Dict String CFEntry}
    {todo : List (List CFChannel)}
    (made : batches cfg setup env records ioc old new handled existing = .ok todo)
    (before : ∀ ch ∈ handled, ch.Inside r P)
    (fresh : ∀ ch ∈ processNewChannels cfg setup ioc records env new existing, ch.Inside r P) :
    ∀ batch ∈ todo, ∀ ch ∈ batch, ch.Inside r P := by
  intro batch member ch inBatch
  by_cases positive : 0 < cfg.cfQueryLimit
  · obtain ⟨bs, planned, whole⟩ :=
      @batches_flatten cfg setup env records ioc positive old new handled
      existing
    obtain rfl : bs = todo := Except.ok.inj (planned.symm.trans made)
    have written : ch ∈ bs.flatten := List.mem_flatten.mpr ⟨batch, member, inBatch⟩
    rw [whole] at written
    rcases List.mem_append.mp written with first | second
    · exact before ch first
    · exact fresh ch second
  · rw [@batches_stuck cfg setup env records ioc (Int.not_lt.mp positive) old new handled existing
      todo made] at member
    cases member

end Writes

section Steps

variable {client : ChannelFinderAdapter} {cfg : CFConfig} {setup : Setup} {r : Territory}
  {P : CFProperty → Prop} {env : Env}
  {w : World}

@[simp] theorem Territory.partOf_proc (w : World) : (r.partOf w).proc = w.proc := rfl

@[simp] theorem Territory.partOf_store (w : World) : (r.partOf w).store = r.part w.store := rfl

/-- The same branch is taken on the part. -/
theorem Stays.ite {c c' : Prop} [Decidable c] [Decidable c'] {a a' b b' : World × Task}
    (same : c ↔ c') (yes : c → Stays r P cfg w a a') (no : ¬ c → Stays r P cfg w b b') :
    Stays r P cfg w (if c then a else b) (if c' then a' else b') := by
  by_cases here : c
  · rw [if_pos here, if_pos (same.mp here)]
    exact yes here
  · rw [if_neg here, if_neg (fun there => here (same.mpr there))]
    exact no here

/-- What a recceiver that shares ChannelFinder finds between two steps. -/
structure Tenant (client : ChannelFinderAdapter) (cfg : CFConfig) (setup : Setup) (r : Territory)
    (P : CFProperty → Prop) (w : World) : Prop where
  within : client.Within r
  admits : Admits cfg r.address P
  infos : ∀ env t n info, (recordsOf cfg setup env t).get? n = some info →
    AllOf P info.infoProperties
  respected : r.Respected cfg w.store
  home : Home r P w.store
  homed : Homed r.address w.proc

namespace Tenant

variable (tenant : Tenant client cfg setup r P w)
include tenant

/-- A step that makes no request. -/
theorem unasked {p : Processor} (homed : Homed r.address p) {task : Task}
    (inside : task.Inside r P cfg) :
    Stays r P cfg w ({ w with proc := p }, task) ({ r.partOf w with proc := p }, task) :=
  ⟨rfl, rfl, tenant.home, homed, inside⟩

theorem giveUp (job : Job) :
    Stays r P cfg w (Task.giveUp env job w) (Task.giveUp env job (r.partOf w)) := by
  have kept := Homed.evictIoc env job.transaction.iocid w.proc tenant.homed
  unfold Py.Program.after at kept
  unfold Task.giveUp
  refine .ite Iff.rfl (fun _ => ?_) fun _ => ?_
  · rw [Territory.partOf_proc]
    cases ran : evictIoc env job.transaction.iocid w.proc with
    | ok u p =>
      rw [ran] at kept
      exact tenant.unasked kept trivial
    | error e p =>
      rw [ran] at kept
      exact tenant.unasked kept trivial
  · exact tenant.unasked tenant.homed trivial

theorem starting {t : Transaction} (inside : t.Inside r) :
    Stays r P cfg w (Task.proceed client cfg setup env w (.starting t))
      (Task.proceed client cfg setup env (r.partOf w) (.starting t)) := by
  have kept := Homed.updateIocInfos cfg env inside.1 (recordsOf cfg setup env t) w.proc tenant.homed
  unfold Py.Program.after at kept
  simp only [Task.proceed]
  refine .ite Iff.rfl (fun _ => ?_) fun _ => .ite Iff.rfl (fun _ => ?_) fun _ =>
    .ite Iff.rfl (fun _ => ?_) fun _ => ?_
  · exact tenant.unasked tenant.homed trivial
  · exact tenant.unasked tenant.homed trivial
  · exact tenant.unasked tenant.homed trivial
  · rw [Territory.partOf_proc]
    cases ran : updateIocInfos cfg env t (iocInfoOf cfg env t) (recordsOf cfg setup env t)
        w.proc with
    | error e p =>
      rw [ran] at kept
      exact tenant.unasked kept trivial
    | ok del p =>
      rw [ran] at kept
      refine tenant.unasked kept ⟨inside.1, ?_, tenant.infos env t⟩
      intro n touch
      exact inside.2 n (touched_subset_names cfg setup env t touch)

theorem attempting {job : Job} (inside : job.Inside r P cfg) :
    Stays r P cfg w (Task.proceed client cfg setup env w (.attempting job))
      (Task.proceed client cfg setup env (r.partOf w) (.attempting job)) := by
  simp only [Task.proceed]
  refine .ite Iff.rfl (fun _ => ?_) fun _ => .ite Iff.rfl (fun _ => ?_) fun _ => ?_
  · exact tenant.giveUp job
  · exact tenant.giveUp job
  · exact tenant.unasked tenant.homed ⟨inside.address, inside.names, inside.infos⟩

theorem fetching {job : Job} (inside : job.Inside r P cfg) :
    Stays r P cfg w (Task.proceed client cfg setup env w (.fetching job))
      (Task.proceed client cfg setup env (r.partOf w) (.fetching job)) := by
  simp only [Task.proceed]
  refine .ite Iff.rfl (fun _ => ?_) fun _ => ?_
  · exact tenant.unasked tenant.homed trivial
  · rw [Territory.partOf_proc, Territory.partOf_store,
      tenant.within.findByIocId cfg env w.store _ tenant.respected inside.address]
    cases ran : reconcileOld cfg setup w.proc job.records job.del job.ioc
        (client.findByIocId env w.store job.ioc.id) with
    | error e => exact tenant.unasked tenant.homed trivial
    | ok made =>
      obtain ⟨names, handled⟩ := reconcileOld_inside tenant.admits tenant.respected tenant.home
        tenant.homed inside ran
      exact tenant.unasked tenant.homed ⟨inside, names, handled⟩

theorem reconciled {job : Job} {old handled : List CFChannel} {new : List String}
    (inside : Task.Inside r P cfg (.reconciled job old new handled)) :
    Stays r P cfg w (Task.proceed client cfg setup env w (.reconciled job old new handled))
      (Task.proceed client cfg setup env (r.partOf w) (.reconciled job old new handled)) := by
  obtain ⟨own, names, decided⟩ := inside
  simp only [Task.proceed]
  refine .ite Iff.rfl (fun _ => ?_) fun _ => ?_
  · exact tenant.unasked tenant.homed trivial
  · rw [Territory.partOf_store, getExistingChannels_part tenant.within names]
    cases made : batches cfg setup env job.records job.ioc old new handled
        (client.getExistingChannels env w.store new) with
    | error e => exact tenant.unasked tenant.homed trivial
    | ok todo =>
      exact tenant.unasked tenant.homed ⟨own, batches_inside made decided
        (processNewChannels_inside tenant.within tenant.admits tenant.home own names)⟩

theorem writes {channels : List CFChannel} (inside : ∀ ch ∈ channels, ch.Inside r P) {task : Task}
    (next : task.Inside r P cfg) :
    Stays r P cfg w ({ w with store := setChannels w.store channels }, task)
      ({ r.partOf w with store := setChannels (r.part w.store) channels }, task) := by
  have own : ∀ ch ∈ channels, r.names ch.name = true := fun ch member => (inside ch member).1
  refine ⟨?_, setChannels_rest own, tenant.home.setChannels inside, tenant.homed, next⟩
  rw [setChannels_part own]
  rfl

theorem marks {names : List String} (inside : ∀ n ∈ names, r.names n = true) {task : Task}
    (next : task.Inside r P cfg) :
    Stays r P cfg w ({ w with store := markInactive cfg names w.store }, task)
      ({ r.partOf w with store := markInactive cfg names (r.part w.store) }, task) := by
  refine ⟨?_, updateProperty_rest _ inside,
    tenant.home.updateProperty (tenant.admits.own (by decide) (by decide)) names,
      tenant.homed, next⟩
  rw [markInactive, updateProperty_part _ inside]
  rfl

theorem querying (failures : Nat) :
    Stays r P cfg w (Task.proceed client cfg setup env w (.sweeping .querying failures))
      (Task.proceed client cfg setup env (r.partOf w) (.sweeping .querying failures)) := by
  simp only [Task.proceed, Territory.partOf_store, findActiveForRecceiver_part tenant.respected]
  refine tenant.unasked tenant.homed ?_
  split
  · trivial
  · intro n member
    obtain ⟨ch, found, rfl⟩ := List.mem_map.mp member
    exact names_findActiveForRecceiver tenant.respected ch found

/-- A step of a thread is the same on the territory, and stays in it. -/
theorem proceed {task : Task} (inside : task.Inside r P cfg) :
    Stays r P cfg w (task.proceed client cfg setup env w)
      (task.proceed client cfg setup env (r.partOf w)) := by
  match task, inside with
  | .starting t, own => exact tenant.starting own
  | .attempting job, own => exact tenant.attempting own
  | .fetching job, own => exact tenant.fetching own
  | .reconciled job old new handled, own => exact tenant.reconciled own
  | .writing job (batch :: rest), ⟨own, todo⟩ =>
    rw [List.forall_mem_cons] at todo
    exact tenant.writes todo.1 ⟨own, todo.2⟩
  | .writing job [], _ =>
    simp only [Task.proceed]
    exact .ite Iff.rfl (fun _ => tenant.unasked tenant.homed trivial)
      fun _ => tenant.unasked tenant.homed trivial
  | .sweeping .querying failures, _ => exact tenant.querying failures
  | .sweeping (.cleaning names) failures, own => exact tenant.marks own trivial
  | .sweeping .finished failures, _ => exact tenant.unasked tenant.homed trivial
  | .ended result, _ => exact tenant.unasked tenant.homed trivial

omit tenant in
theorem sweepAgain_inside (running : Bool) (failures : Nat) :
    (Task.sweepAgain running failures).Inside r P cfg := by
  rw [Task.sweepAgain]
  split <;> trivial

theorem fails {torn : List CFChannel → List CFChannel} {tornNames : List String → List String}
    (part : ∀ l, torn l ⊆ l) (partNames : ∀ l, tornNames l ⊆ l) {task : Task}
    (inside : task.Inside r P cfg) :
    Stays r P cfg w (task.fails cfg torn tornNames w)
      (task.fails cfg torn tornNames (r.partOf w)) := by
  match task, inside with
  | .starting t, own => exact tenant.unasked tenant.homed own
  | .attempting job, own => exact tenant.unasked tenant.homed own
  | .fetching job, own =>
    simp only [Task.fails]
    exact .ite Iff.rfl (fun _ => tenant.unasked tenant.homed trivial)
      fun _ => tenant.unasked tenant.homed own
  | .reconciled job old new handled, ⟨own, names, decided⟩ =>
    simp only [Task.fails]
    exact .ite Iff.rfl (fun _ => tenant.unasked tenant.homed ⟨own, names, decided⟩)
      fun _ => tenant.unasked tenant.homed own
  | .writing job (batch :: rest), ⟨own, todo⟩ =>
    rw [List.forall_mem_cons] at todo
    exact tenant.writes (fun ch member => todo.1 ch (part batch member)) own
  | .writing job [], own => exact tenant.unasked tenant.homed own
  | .sweeping .querying failures, _ =>
    exact tenant.unasked tenant.homed (sweepAgain_inside _ _)
  | .sweeping (.cleaning names) failures, own =>
    exact tenant.marks (fun n member => own n (partNames names member)) (sweepAgain_inside _ _)
  | .sweeping .finished failures, _ => exact tenant.unasked tenant.homed trivial
  | .ended result, _ => exact tenant.unasked tenant.homed trivial

end Tenant

end Steps

end Recsync.Cf
