import Recsync.Cf.BookkeepingUpdate
import Recsync.Cf.Update

set_option autoImplicit false

namespace Recsync.Cf

open Py (Error)

def HasProperty (l : List CFProperty) (p : CFPropertyName) (v : String) : Prop :=
  ∃ q ∈ l, q.name = p.value ∧ q.value = v

theorem hasProperty_append (first second : List CFProperty) (p : CFPropertyName) (v : String) :
    HasProperty (first ++ second) p v ↔ HasProperty first p v ∨ HasProperty second p v := by
  simp only [HasProperty, List.mem_append, or_and_right, exists_or]

theorem hasProperty_cons (q : CFProperty) (l : List CFProperty) (p : CFPropertyName) (v : String) :
    HasProperty (q :: l) p v ↔ (q.name = p.value ∧ q.value = v) ∨ HasProperty l p v := by
  simp [HasProperty]

@[simp] theorem hasProperty_nil (p : CFPropertyName) (v : String) : ¬ HasProperty [] p v := by
  simp [HasProperty]

@[simp] theorem property_name (p : CFPropertyName) (owner value : String) :
    (property p owner value).name = p.value := rfl

@[simp] theorem property_value (p : CFPropertyName) (owner value : String) :
    (property p owner value).value = value := rfl

@[simp] theorem value_eq_iff (p q : CFPropertyName) : p.value = q.value ↔ p = q :=
  CFPropertyName.value_injective.eq_iff

@[simp] theorem channel_name (name owner : String) (properties : List CFProperty) :
    (channel name owner properties).name = name := rfl

@[simp] theorem has_channel (name owner : String) (properties : List CFProperty)
    (p : CFPropertyName) (v : String) :
    (channel name owner properties).toCFEntry.has p v ↔ HasProperty properties p v := Iff.rfl

theorem hasProperty_merge {new : List CFProperty} {ch : CFEntry} {managed : List String}
    {p : CFPropertyName} (named : p.value ∈ new.map CFProperty.name) (v : String) :
    HasProperty (mergePropertyLists new ch managed) p v ↔ HasProperty new p v := by
  rw [mergePropertyLists, hasProperty_append]
  refine or_iff_left ?_
  rintro ⟨q, kept, name, -⟩
  have absent : q.name ∉ new.map CFProperty.name :=
    of_decide_eq_true (Bool.and_eq_true_iff.mp (List.mem_filter.mp kept).2).1
  exact absent (name ▸ named)

/-- A property that is neither in the new list nor managed keeps its values. -/
theorem hasProperty_merge_of_not_mem {new : List CFProperty} {ch : CFEntry}
    {managed : List String} {p : CFPropertyName} (other : p.value ∉ new.map CFProperty.name)
    (unmanaged : p.value ∉ managed) (v : String) :
    HasProperty (mergePropertyLists new ch managed) p v ↔ ch.has p v := by
  rw [mergePropertyLists, hasProperty_append]
  constructor
  · rintro (⟨q, member, name, -⟩ | ⟨q, kept, name, value⟩)
    · exact absurd (List.mem_map.mpr ⟨q, member, name⟩) other
    · exact ⟨q, (List.mem_filter.mp kept).1, name, value⟩
  · rintro ⟨q, member, name, value⟩
    refine Or.inr ⟨q, List.mem_filter.mpr ⟨member, ?_⟩, name, value⟩
    rw [name]
    simp [other, unmanaged]

/-- The entry is Active, and it is listed under `iocid` and under no other IOC. -/
structure Live (iocid : String) (e : CFEntry) : Prop where
  active : e.Active
  listed : ∀ v, e.has .iocId v ↔ v = iocid

/-- The properties set the status to Active and list the channel under `iocid` only. -/
structure SetsLive (iocid : String) (l : List CFProperty) : Prop where
  active : HasProperty l .pvStatus PVStatus.active.value
  listed : ∀ v, HasProperty l .iocId v ↔ v = iocid

theorem SetsLive.status_mem {iocid : String} {l : List CFProperty} (sets : SetsLive iocid l) :
    CFPropertyName.pvStatus.value ∈ l.map CFProperty.name := by
  obtain ⟨q, member, name, -⟩ := sets.active
  exact List.mem_map.mpr ⟨q, member, name⟩

theorem SetsLive.iocid_mem {iocid : String} {l : List CFProperty} (sets : SetsLive iocid l) :
    CFPropertyName.iocId.value ∈ l.map CFProperty.name := by
  obtain ⟨q, member, name, -⟩ := (sets.listed iocid).mpr rfl
  exact List.mem_map.mpr ⟨q, member, name⟩

theorem SetsLive.live {iocid owner : String} {l : List CFProperty} (sets : SetsLive iocid l) :
    Live iocid ⟨owner, l⟩ :=
  ⟨sets.active, sets.listed⟩

theorem SetsLive.merge {iocid : String} {l : List CFProperty} (sets : SetsLive iocid l)
    (ch : CFEntry) (managed : List String) : SetsLive iocid (mergePropertyLists l ch managed) :=
  ⟨(hasProperty_merge sets.status_mem _).mpr sets.active,
    fun v => (hasProperty_merge sets.iocid_mem v).trans (sets.listed v)⟩

theorem createIocProperties_sets (owner time recceiverid hostName iocName iocIp iocid : String) :
    SetsLive iocid (createIocProperties owner time recceiverid hostName iocName iocIp iocid) := by
  constructor
  · simp [createIocProperties, hasProperty_cons]
  · intro v
    simp [createIocProperties, hasProperty_cons, eq_comm]

theorem SetsLive.append {iocid : String} {first second : List CFProperty}
    (sets : SetsLive iocid first)
    (other : ∀ q ∈ second, q.name ≠ CFPropertyName.iocId.value) :
    SetsLive iocid (first ++ second) := by
  constructor
  · exact (hasProperty_append _ _ _ _).mpr (Or.inl sets.active)
  · intro v
    rw [hasProperty_append, sets.listed]
    refine or_iff_left ?_
    rintro ⟨q, member, name, -⟩
    exact other q member name

/-- No info tag and no environment variable of the records is stored under `iocid`. -/
def InfosApart (records : Py.Dict String RecordInfo) : Prop :=
  ∀ n info, records.get? n = some info →
    ∀ q ∈ info.infoProperties, q.name ≠ CFPropertyName.iocId.value

theorem newProperties_sets (cfg : CFConfig) (ioc : IOCInfo) {records : Py.Dict String RecordInfo}
    (apart : InfosApart records) (name : String) :
    SetsLive ioc.id (newProperties cfg ioc records name) := by
  unfold newProperties
  refine (createIocProperties_sets _ _ _ _ _ _ _).append ?_
  cases found : records.get? name with
  | none => simp
  | some info =>
    intro q member
    rcases List.mem_append.mp member with typed | tagged
    · have named : q.name = CFPropertyName.recordType.value := by
        revert typed
        split
        · split
          · simp
          · split
            · simp
            · intro typed
              rw [List.mem_singleton.mp typed]
              rfl
        · simp
      rw [named]
      decide
    · exact apart name info found q tagged

theorem aliasProperties_sets (cfg : CFConfig) (ioc : IOCInfo)
    {records : Py.Dict String RecordInfo} (apart : InfosApart records) (name : String) :
    SetsLive ioc.id (aliasProperties cfg ioc records name) := by
  have sets := newProperties_sets cfg ioc apart name
  refine ⟨(hasProperty_cons _ _ _ _).mpr (Or.inr sets.active), ?_⟩
  intro v
  rw [aliasProperties, hasProperty_cons, sets.listed]
  simp

namespace Pending

/-- The name under which an element of `channels` is written. -/
def target : Pending → String
  | .fresh ch => ch.name
  | .existing name => name

end Pending

theorem resolve_name (st : NewChannels) (x : Pending) : (st.resolve x).name = x.target := by
  cases x <;> rfl

/-- Entries with these properties, alone or merged into others, satisfy `Q`. -/
structure Gives (Q : CFEntry → Prop) (l : List CFProperty) : Prop where
  alone : ∀ owner, Q ⟨owner, l⟩
  merged : ∀ owner e managed, Q ⟨owner, mergePropertyLists l e managed⟩

theorem SetsLive.gives {iocid : String} {l : List CFProperty} (sets : SetsLive iocid l) :
    Gives (Live iocid) l :=
  ⟨fun _ => sets.live, fun _ e managed => (sets.merge e managed).live⟩

theorem gives_active {l : List CFProperty} (sets : HasProperty l .pvStatus PVStatus.active.value) :
    Gives CFEntry.Active l :=
  ⟨fun _ => sets, fun _ _ _ => (hasProperty_append _ _ _ _).mpr (Or.inl sets)⟩

/-- Everything that is going to be written satisfies `Q`. -/
def NewChannels.All (Q : CFEntry → Prop) (st : NewChannels) : Prop :=
  ∀ x ∈ st.pending, Q (st.resolve x).toCFEntry

section ProcessNewChannels

variable (cfg : CFConfig) (setup : Setup) (ioc : IOCInfo) (records : Py.Dict String RecordInfo)
  {Q : CFEntry → Prop}

theorem NewChannels.All.overwriteExisting {st : NewChannels} (good : st.All Q)
    {properties : List CFProperty} (gives : Gives Q properties) (name : String) (e : CFEntry) :
    (overwriteExisting setup properties name e st).All Q := by
  have fresh := gives.merged e.owner e setup.managedProperties
  intro x member
  rcases List.mem_append.mp member with before | last
  · have old := good x before
    cases x with
    | fresh ch => exact old
    | existing other =>
      by_cases same : other = name
      · subst same
        simpa [NewChannels.resolve, Cf.overwriteExisting] using fresh
      · simpa [NewChannels.resolve, Cf.overwriteExisting, Py.Dict.get?_set_ne _ _ same] using old
  · rw [List.mem_singleton.mp last]
    simpa [NewChannels.resolve, Cf.overwriteExisting] using fresh

theorem NewChannels.All.createFresh {st : NewChannels} (good : st.All Q)
    {properties : List CFProperty} (gives : Gives Q properties) (name : String) :
    (createFresh ioc properties name st).All Q := by
  intro x member
  rcases List.mem_append.mp member with before | last
  · cases x with
    | fresh ch => exact good _ before
    | existing other => exact good _ before
  · rw [List.mem_singleton.mp last]
    exact gives.alone ioc.owner

/-- A turn of a writing loop that writes `targets x`, all of it in `Q`. -/
def Writes (Q : CFEntry → Prop) (targets : String → List String)
    (body : NewChannels → String → NewChannels) : Prop :=
  ∀ st x, st.All Q → (body st x).All Q ∧
    (body st x).pending.map Pending.target = st.pending.map Pending.target ++ targets x

theorem Writes.foldl {targets : String → List String}
    {body : NewChannels → String → NewChannels} (step : Writes Q targets body)
    (names : List String) {st : NewChannels} (good : st.All Q) :
    (names.foldl body st).All Q ∧
      (names.foldl body st).pending.map Pending.target =
        st.pending.map Pending.target ++ names.flatMap targets := by
  induction names generalizing st with
  | nil => exact ⟨good, by simp⟩
  | cons n rest ih =>
    obtain ⟨next, written⟩ := step st n good
    obtain ⟨done, all⟩ := ih next
    exact ⟨done, by rw [List.foldl_cons, all, written, List.flatMap_cons, List.append_assoc]⟩

variable {records} in
theorem moveAlias_writes {name : String} (gives : Gives Q (aliasProperties cfg ioc records name)) :
    Writes Q (fun a => [a]) (moveAlias cfg setup ioc records name) := by
  intro st a good
  unfold moveAlias
  cases st.existing.get? a with
  | some ach =>
    exact ⟨good.overwriteExisting setup gives a ach, by simp [overwriteExisting, Pending.target]⟩
  | none => exact ⟨good.createFresh ioc gives a, by simp [createFresh, Pending.target]⟩

variable {records} in
theorem createAlias_writes {name : String}
    (gives : Gives Q (aliasProperties cfg ioc records name)) :
    Writes Q (fun a => [a]) (createAlias cfg ioc records name) := by
  intro st a good
  exact ⟨good.createFresh ioc gives a, by simp [createAlias, createFresh, Pending.target]⟩

variable {records} in
theorem processNewChannel_writes (own : ∀ n, Gives Q (newProperties cfg ioc records n))
    (aliases : ∀ n, Gives Q (aliasProperties cfg ioc records n)) :
    Writes Q (fun n => n :: aliasesOf cfg records n)
      (processNewChannel cfg setup ioc records) := by
  intro st name good
  unfold processNewChannel
  cases found : st.existing.get? name with
  | some e =>
    obtain ⟨done, targets⟩ := (moveAlias_writes cfg setup ioc (aliases name)).foldl
      (aliasesOf cfg records name) (good.overwriteExisting setup (own name) name e)
    refine ⟨done, targets.trans ?_⟩
    simp [overwriteExisting, Pending.target]
  | none =>
    obtain ⟨done, targets⟩ := (createAlias_writes cfg ioc (aliases name)).foldl
      (aliasesOf cfg records name) (good.createFresh ioc (own name) name)
    refine ⟨done, targets.trans ?_⟩
    simp [createFresh, Pending.target]

variable {records} in
/-- The create and move paths write every new name and its aliases, with the properties of the
commit. -/
theorem processNewChannels_writes (own : ∀ n, Gives Q (newProperties cfg ioc records n))
    (aliases : ∀ n, Gives Q (aliasProperties cfg ioc records n)) (env : Env) (new : List String)
    (existing : Py.Dict String CFEntry) :
    (∀ ch ∈ processNewChannels cfg setup ioc records env new existing, Q ch.toCFEntry) ∧
      (processNewChannels cfg setup ioc records env new existing).map CFChannel.name =
        (env.setOrder new).flatMap fun n => n :: aliasesOf cfg records n := by
  obtain ⟨done, targets⟩ := (processNewChannel_writes cfg setup ioc own aliases).foldl
    (env.setOrder new) (show NewChannels.All Q { existing } by intro x member; cases member)
  constructor
  · intro ch member
    obtain ⟨x, inside, rfl⟩ := List.mem_map.mp member
    exact done x inside
  · simpa [processNewChannels, Function.comp_def, resolve_name] using targets

variable {records} in
theorem map_name_processNewChannels (env : Env) (new : List String)
    (existing : Py.Dict String CFEntry) :
    (processNewChannels cfg setup ioc records env new existing).map CFChannel.name =
      (env.setOrder new).flatMap fun n => n :: aliasesOf cfg records n := by
  have any : ∀ ps, Gives (fun _ => True) ps := fun _ => ⟨fun _ => trivial, fun _ _ _ => trivial⟩
  exact (processNewChannels_writes cfg setup ioc (fun n => any _) (fun n => any _) env new
    existing).2

variable {records} in
theorem processNewChannels_live (apart : InfosApart records) (env : Env) (new : List String)
    (existing : Py.Dict String CFEntry) :
    (∀ ch ∈ processNewChannels cfg setup ioc records env new existing,
        Live ioc.id ch.toCFEntry) ∧
      (processNewChannels cfg setup ioc records env new existing).map CFChannel.name =
        (env.setOrder new).flatMap fun n => n :: aliasesOf cfg records n :=
  processNewChannels_writes cfg setup ioc (fun n => (newProperties_sets cfg ioc apart n).gives)
    (fun n => (aliasProperties_sets cfg ioc apart n).gives) env new existing

end ProcessNewChannels

/-- The lists of `channel_ioc_ids` under PV names: who serves which name. -/
def Processor.owners (p : Processor) : Ownership.Owners String String := fun n => p.ids (.name n)

open Ownership (holder)

section HandleChannels

variable (cfg : CFConfig) (setup : Setup) (p : Processor) (ioc : IOCInfo)
  (records : Py.Dict String RecordInfo)

/-- What becomes of a channel that its IOC no longer serves: it goes to the last IOC that
still does, or it is marked Inactive. -/
def releaseChannel (cf : CFChannel) : CFChannel :=
  match (holder p.owners cf.name).bind p.iocs with
  | none => channel cf.name cf.owner
      (mergePropertyLists (statusProperties ioc .inactive) cf.toCFEntry [])
  | some last => channel cf.name last.owner
      (mergePropertyLists (createIocProperties ioc.owner ioc.time cfg.recceiverId last.hostname
        last.iocName last.iocIp last.id) cf.toCFEntry setup.managedProperties)

@[simp] theorem releaseChannel_name (cf : CFChannel) :
    (releaseChannel cfg setup p ioc cf).name = cf.name := by
  unfold releaseChannel
  split <;> rfl

variable {p} in
theorem releaseChannel_live {cf : CFChannel} {j : String} {info : IOCInfo}
    (holds : holder p.owners cf.name = some j) (known : p.iocs j = some info)
    (keyed : info.id = j) : Live j (releaseChannel cfg setup p ioc cf).toCFEntry := by
  have sets : SetsLive j (createIocProperties ioc.owner ioc.time cfg.recceiverId info.hostname
      info.iocName info.iocIp info.id) := keyed ▸ createIocProperties_sets _ _ _ _ _ _ _
  simp only [releaseChannel, holds, Option.bind_some, known]
  exact (sets.merge cf.toCFEntry setup.managedProperties).live

variable {p} in
theorem releaseChannel_orphan {cf : CFChannel}
    (free : (holder p.owners cf.name).bind p.iocs = none) :
    ¬ (releaseChannel cfg setup p ioc cf).toCFEntry.Active ∧
      ∀ v, (releaseChannel cfg setup p ioc cf).toCFEntry.has .iocId v ↔
        cf.toCFEntry.has .iocId v := by
  simp only [releaseChannel, free]
  constructor
  · intro active
    have status := (hasProperty_merge (by simp [statusProperties]) _).mp active
    revert status
    simp [statusProperties, hasProperty_cons, PVStatus.value]
  · intro v
    exact hasProperty_merge_of_not_mem (by simp [statusProperties]) (by simp) v

variable {p} in
theorem releaseChannel_inactive {cf : CFChannel}
    (free : (holder p.owners cf.name).bind p.iocs = none) :
    (releaseChannel cfg setup p ioc cf).toCFEntry.has .pvStatus PVStatus.inactive.value := by
  simp only [releaseChannel, free]
  refine (hasProperty_merge (by simp [statusProperties]) _).mpr ?_
  simp [statusProperties, hasProperty_cons]

/-- With no name left in `new_channels`, every old channel without aliases of its own is
released. -/
theorem handleChannel_release {del : List Key} {old : List CFChannel} {cf : CFChannel}
    (plain : aliasesOf cfg records cf.name = [])
    (nonempty : p.channelIocIds (.name cf.name) ≠ some []) :
    handleChannel cfg setup p ioc records del old cf [] =
      .ok ([], [releaseChannel cfg setup p ioc cf]) := by
  unfold handleChannel releaseChannel
  rw [if_pos (Or.inl rfl)]
  cases found : p.channelIocIds (.name cf.name) with
  | none =>
    have free : holder p.owners cf.name = none := by
      simp [holder, Processor.owners, Processor.ids, found]
    simp [free, orphanChannel, plain]
  | some ids =>
    have present : ids ≠ [] := fun empty => nonempty (by rw [found, empty])
    obtain ⟨last, ends⟩ : ∃ last, ids.getLast? = some last :=
      ⟨_, List.getLast?_eq_some_getLast present⟩
    have holds : holder p.owners cf.name = some last := by
      simpa [holder, Processor.owners, Processor.ids, found] using ends
    cases known : p.iocs last with
    | none => simp [ends, known, holds, orphanChannel, plain]
    | some info =>
      have last' : (p.ids (.name cf.name)).getLast? = some last := holds
      simp [ends, known, holds, handleChannelIsOld, createDefaultProperties, last', plain, bind,
        Except.bind, pure, Except.pure]

theorem handleChannels_cons {del : List Key} {old rest first later : List CFChannel}
    {cf : CFChannel} {new next new' : List String}
    (head : handleChannel cfg setup p ioc records del old cf new = .ok (next, first))
    (tail : handleChannels cfg setup p ioc records del old rest next = .ok (new', later)) :
    handleChannels cfg setup p ioc records del old (cf :: rest) new =
      .ok (new', first ++ later) := by
  simp only [handleChannels, head, tail, bind, Except.bind, pure, Except.pure]

theorem handleChannels_release {del : List Key} {old l : List CFChannel}
    (plain : ∀ cf ∈ l, aliasesOf cfg records cf.name = [])
    (nonempty : ∀ cf ∈ l, p.channelIocIds (.name cf.name) ≠ some []) :
    handleChannels cfg setup p ioc records del old l [] =
      .ok ([], l.map (releaseChannel cfg setup p ioc)) := by
  induction l with
  | nil => rfl
  | cons cf rest ih =>
    have head := @handleChannel_release cfg setup p ioc records del old cf
      (plain cf (by simp)) (nonempty cf (by simp))
    have tail := ih (fun c member => plain c (by simp [member]))
      (fun c member => nonempty c (by simp [member]))
    exact handleChannels_cons cfg setup p ioc records head tail

/-- Old channels that the commit does not mention are left alone as long as it brings
names of its own. -/
theorem handleChannels_skip {del : List Key} {old l : List CFChannel} {new : List String}
    (some : new ≠ [])
    (other : ∀ cf ∈ l, cf.name ∉ new ∧ Key.name cf.name ∉ del) :
    handleChannels cfg setup p ioc records del old l new = .ok (new, []) := by
  induction l with
  | nil => rfl
  | cons cf rest ih =>
    have head : handleChannel cfg setup p ioc records del old cf new = .ok (new, []) := by
      obtain ⟨unnamed, kept⟩ := other cf (by simp)
      simp [handleChannel, some, unnamed, kept]
    have tail := ih (fun c member => other c (by simp [member]))
    exact handleChannels_cons cfg setup p ioc records head tail

end HandleChannels

end Recsync.Cf
