import Recsync.Cf.Mirror

set_option autoImplicit false

/- What the create and move paths leave under a name that several records of a commit write. -/
namespace Recsync.Cf

/-- Only managed properties are among these. -/
def OnlyManaged (setup : Setup) (l : List CFProperty) : Prop :=
  ∀ q ∈ l, q.name ∈ setup.managedProperties

section Managed

variable {cfg : CFConfig} {setup : Setup}

theorem iocProperties_managed (covers : setup.Covers cfg)
    (owner time recceiverid hostName iocName iocIp iocid : String) :
    OnlyManaged setup (createIocProperties owner time recceiverid hostName iocName iocIp
      iocid) := by
  intro q member
  have named : q.name ∈ iocPropertyNames.map CFPropertyName.value := List.mem_map_of_mem member
  obtain ⟨p, builtin, same⟩ := List.mem_map.mp named
  rw [← same]
  exact covers.ioc p builtin

theorem statusProperties_managed (covers : setup.Covers cfg) (ioc : IOCInfo) (status : PVStatus) :
    OnlyManaged setup (statusProperties ioc status) := by
  intro q member
  simp only [statusProperties, List.mem_cons, List.not_mem_nil, or_false] at member
  rcases member with rfl | rfl
  · exact covers.ioc .pvStatus (by decide)
  · exact covers.ioc .time (by decide)

theorem newProperties_managed (covers : setup.Covers cfg) (env : Env) (t : Transaction)
    (n : String) : OnlyManaged setup (newProperties cfg (iocInfoOf cfg env t)
      (recordsOf cfg setup env t) n) := by
  intro q member
  cases found : (recordsOf cfg setup env t).get? n with
  | none =>
    rw [newProperties, found, List.append_nil] at member
    exact iocProperties_managed covers _ _ _ _ _ _ _ q member
  | some info =>
    obtain ⟨type, typed, enabled, parts⟩ :=
      @newProperties_parts cfg (iocInfoOf cfg env t) n _ _ found
    obtain ⟨r, ty, _, rfl⟩ := get?_recordsOf cfg setup env t found
    rw [parts, List.mem_append, List.mem_append] at member
    rcases member with own | isType | info
    · exact iocProperties_managed covers _ _ _ _ _ _ _ q own
    · have named := List.mem_singleton.mp (typed.subset (List.mem_map_of_mem isType))
      rw [named]
      exact covers.recordType (enabled (List.ne_nil_of_mem isType))
    · rcases infoProperties_supplied.mp (⟨q, info, rfl, rfl⟩ : Holds _ q.name q.value) with
        ⟨-, listed, -⟩ | ⟨var, mapped, -⟩
      · exact covers.tags q.name listed
      · exact covers.vars (var, q.name) mapped

theorem aliasProperties_managed (covers : setup.Covers cfg) (enabled : cfg.aliasEnabled = true)
    (env : Env) (t : Transaction) (n : String) :
    OnlyManaged setup (aliasProperties cfg (iocInfoOf cfg env t) (recordsOf cfg setup env t)
      n) := by
  intro q member
  rcases List.mem_cons.mp member with rfl | later
  · exact covers.aliasFor enabled
  · exact newProperties_managed covers env t n q later

theorem createDefaultProperties_managed (covers : setup.Covers cfg) {p : Processor} {ioc : IOCInfo}
    {name : String} {defaults : List CFProperty}
    (made : createDefaultProperties cfg p ioc name = .ok defaults) :
    OnlyManaged setup defaults := by
  unfold createDefaultProperties at made
  split at made
  · cases made
  · split at made
    · cases made
    · rw [← Except.ok.inj made]
      exact iocProperties_managed covers _ _ _ _ _ _ _

end Managed

section Merge

variable {setup : Setup} {new : List CFProperty}

/-- The properties that the processor leaves to others. -/
def unmanaged (setup : Setup) (l : List CFProperty) : List CFProperty :=
  l.filter fun q => decide (q.name ∉ setup.managedProperties)

theorem OnlyManaged.unmanaged_eq_nil (only : OnlyManaged setup new) : unmanaged setup new = [] := by
  rw [unmanaged, List.filter_eq_nil_iff]
  intro q member
  simpa using only q member

theorem OnlyManaged.merge_eq (only : OnlyManaged setup new) (e : CFEntry) :
    mergePropertyLists new e setup.managedProperties = new ++ unmanaged setup e.properties := by
  rw [mergePropertyLists, unmanaged]
  congr 1
  apply List.filter_congr
  intro q _
  by_cases managed : q.name ∈ setup.managedProperties
  · simp [managed]
  · have notNew : q.name ∉ new.map CFProperty.name := by
      intro named
      obtain ⟨other, inside, same⟩ := List.mem_map.mp named
      exact managed (same ▸ only other inside)
    simp [managed, notNew]

theorem OnlyManaged.unmanaged_merge (only : OnlyManaged setup new) (e : CFEntry) :
    unmanaged setup (mergePropertyLists new e setup.managedProperties) =
      unmanaged setup e.properties := by
  have tail : unmanaged setup (unmanaged setup e.properties) = unmanaged setup e.properties := by
    simp [unmanaged]
  rw [only.merge_eq, unmanaged, List.filter_append]
  exact (congrArg₂ (· ++ ·) only.unmanaged_eq_nil tail).trans (List.nil_append _)

end Merge

section LastWrite

variable (cfg : CFConfig) (setup : Setup) (ioc : IOCInfo) (records : Py.Dict String RecordInfo)
  (existing : Py.Dict String CFEntry) (x : String)

/-- The last record that writes the name: it has it among its aliases, or it is its own. -/
def lastWriter (order : List String) : Option String :=
  (order.filter fun z => decide (z = x ∨ x ∈ aliasesOf cfg records z)).getLast?

/-- What a record writes under the name. Its aliases come after its own name. -/
def propertiesUnder (z : String) : List CFProperty :=
  if x ∈ aliasesOf cfg records z then aliasProperties cfg ioc records z
  else newProperties cfg ioc records z

/-- The entry that a record leaves under the name. It is merged into the one that was looked up
when that of the record was found as well. -/
def entryLeft (z : String) : CFEntry :=
  match existing.get? x with
  | none => ⟨ioc.owner, propertiesUnder cfg ioc records x z⟩
  | some e =>
    if z ∈ existing.keys then
      { e with properties :=
          mergePropertyLists (propertiesUnder cfg ioc records x z) e setup.managedProperties }
    else ⟨ioc.owner, propertiesUnder cfg ioc records x z⟩

/-- The state of the loop seen from one name: the objects that were looked up are still there, the
one of the name has lost nothing that is not managed, and `last` is what is going to be written. -/
structure SeenFrom (last : Option CFEntry) (st : NewChannels) : Prop where
  known : st.existing.keys = existing.keys
  kept : ∀ e, existing.get? x = some e → ∃ now, st.existing.get? x = some now ∧
    now.owner = e.owner ∧ unmanaged setup now.properties = unmanaged setup e.properties
  entry : st.entryUnder x = last

variable {cfg setup ioc records existing x} {last : Option CFEntry} {st : NewChannels}

theorem lastWriter_cons (z : String) (rest : List String) :
    lastWriter cfg records x (z :: rest) = (lastWriter cfg records x rest).or
      (if z = x ∨ x ∈ aliasesOf cfg records z then some z else none) := by
  rw [lastWriter, List.filter_cons]
  by_cases writes : z = x ∨ x ∈ aliasesOf cfg records z
  · simp [writes, lastWriter, List.getLast?_cons, Option.or_some]
  · simp [writes, lastWriter]

theorem lastWriter_eq_some {order : List String} {z : String}
    (writes : lastWriter cfg records x order = some z) :
    z ∈ order ∧ (z = x ∨ x ∈ aliasesOf cfg records z) := by
  obtain ⟨member, wrote⟩ := List.mem_filter.mp (List.mem_of_getLast? writes)
  exact ⟨member, of_decide_eq_true wrote⟩

theorem lastWriter_eq_none {order : List String} :
    lastWriter cfg records x order = none ↔
      ∀ z ∈ order, ¬ (z = x ∨ x ∈ aliasesOf cfg records z) := by
  simp [lastWriter]

/-- A name that is nobody's alias is written for its own record. -/
theorem lastWriter_own (noAlias : ∀ z, x ∉ aliasesOf cfg records z) {order : List String}
    (member : x ∈ order) : lastWriter cfg records x order = some x := by
  cases writes : lastWriter cfg records x order with
  | none => exact absurd (Or.inl rfl) (lastWriter_eq_none.mp writes x member)
  | some z => rw [(lastWriter_eq_some writes).2.resolve_right (noAlias z)]

theorem entryLeft_own (noAlias : x ∉ aliasesOf cfg records x) {e : CFEntry}
    (looked : existing.get? x = some e) :
    entryLeft cfg setup ioc records existing x x = ⟨e.owner,
      mergePropertyLists (newProperties cfg ioc records x) e setup.managedProperties⟩ := by
  have moved : x ∈ existing.keys := (Py.Dict.mem_keys_iff _ _).mpr ⟨e, looked⟩
  rw [entryLeft, looked]
  simp only [if_pos moved, propertiesUnder, if_neg noAlias]

namespace SeenFrom

/-- A step for another name. -/
theorem elsewhere {st' : NewChannels} (seen : SeenFrom setup existing x last st)
    (same : KeepsUnder x st st') (keys : st'.existing.keys = st.existing.keys) :
    SeenFrom setup existing x last st' where
  known := keys.trans seen.known
  kept e found := by
    rw [same.existing]
    exact seen.kept e found
  entry := same.entryUnder.trans seen.entry

theorem overwriteExisting (seen : SeenFrom setup existing x last st) {properties : List CFProperty}
    (only : OnlyManaged setup properties) {e now : CFEntry} (found : existing.get? x = some e)
    (there : st.existing.get? x = some now) :
    SeenFrom setup existing x
      (some { e with properties := mergePropertyLists properties e setup.managedProperties })
      (overwriteExisting setup properties x now st) := by
  obtain ⟨now', there', owner, rest⟩ := seen.kept e found
  obtain rfl : now = now' := Option.some.inj (there.symm.trans there')
  have named : x ∈ st.existing.keys := (Py.Dict.mem_keys_iff _ _).mpr ⟨now, there⟩
  constructor
  · rw [Cf.overwriteExisting, Py.Dict.keys_set, if_pos named, seen.known]
  · intro e' found'
    obtain rfl : e = e' := Option.some.inj (found.symm.trans found')
    exact ⟨_, Py.Dict.get?_set_self _ _ _, owner, (only.unmanaged_merge now).trans rest⟩
  · have merged : mergePropertyLists properties now setup.managedProperties =
        mergePropertyLists properties e setup.managedProperties := by
      rw [only.merge_eq, only.merge_eq, rest]
    simp [NewChannels.entryUnder, NewChannels.lastUnder, Cf.overwriteExisting, Pending.target,
      NewChannels.resolve, owner, merged]

theorem createFresh (seen : SeenFrom setup existing x last st) (properties : List CFProperty) :
    SeenFrom setup existing x (some ⟨ioc.owner, properties⟩) (createFresh ioc properties x st) where
  known := seen.known
  kept := seen.kept
  entry := by
    simp [NewChannels.entryUnder, NewChannels.lastUnder, Cf.createFresh, Pending.target,
      NewChannels.resolve, channel]

/-- Both alias loops: what is written under the name comes from the alias of that name. -/
theorem aliases (body : NewChannels → String → NewChannels) {entry : CFEntry}
    (step : ∀ st last, SeenFrom setup existing x last st → ∀ a,
      SeenFrom setup existing x (if a = x then some entry else last) (body st a))
    (names : List String) (seen : SeenFrom setup existing x last st) :
    SeenFrom setup existing x (if x ∈ names then some entry else last) (names.foldl body st) := by
  induction names generalizing st last with
  | nil => simpa using seen
  | cons a rest ih =>
    have later := ih (step st last seen a)
    by_cases same : a = x
    · simpa [same] using later
    · simpa [same, Ne.symm same] using later

theorem keys_moveAlias (z : String) (st : NewChannels) (a : String) :
    (moveAlias cfg setup ioc records z st a).existing.keys = st.existing.keys := by
  unfold Cf.moveAlias
  cases found : st.existing.get? a with
  | none => rfl
  | some ach =>
      exact (Py.Dict.keys_set _ _ _).trans (if_pos ((Py.Dict.mem_keys_iff _ _).mpr ⟨ach, found⟩))

theorem moveAlias {z : String} (only : OnlyManaged setup (aliasProperties cfg ioc records z))
    (listed : x ∈ aliasesOf cfg records z) (moved : z ∈ existing.keys)
    (seen : SeenFrom setup existing x last st) (a : String) :
    SeenFrom setup existing x
      (if a = x then some (entryLeft cfg setup ioc records existing x z) else last)
      (moveAlias cfg setup ioc records z st a) := by
  by_cases same : a = x
  · subst same
    rw [if_pos rfl, entryLeft, propertiesUnder, if_pos listed]
    unfold Cf.moveAlias
    cases found : existing.get? a with
    | none =>
      have absent : st.existing.get? a = none := by
        rw [Py.Dict.get?_eq_none_iff, seen.known, ← Py.Dict.get?_eq_none_iff]
        exact found
      rw [absent]
      exact seen.createFresh _
    | some e =>
      obtain ⟨now, there, -⟩ := seen.kept e found
      rw [there]
      simp only [if_pos moved]
      exact seen.overwriteExisting only found there
  · rw [if_neg same]
    exact seen.elsewhere (keepsUnder_moveAlias z st a same) (keys_moveAlias z st a)

theorem createAlias {z : String} (listed : x ∈ aliasesOf cfg records z)
    (created : z ∉ existing.keys) (seen : SeenFrom setup existing x last st) (a : String) :
    SeenFrom setup existing x
      (if a = x then some (entryLeft cfg setup ioc records existing x z) else last)
      (createAlias cfg ioc records z st a) := by
  by_cases same : a = x
  · subst same
    have alone : entryLeft cfg setup ioc records existing a z =
        ⟨ioc.owner, aliasProperties cfg ioc records z⟩ := by
      rw [entryLeft, propertiesUnder, if_pos listed]
      cases existing.get? a with
      | none => rfl
      | some e => exact if_neg created
    rw [if_pos rfl, alone]
    exact seen.createFresh _
  · rw [if_neg same]
    exact seen.elsewhere (keepsUnder_createFresh same st) rfl

/-- An alias loop that does not reach the name. -/
theorem aliasesElsewhere (body : NewChannels → String → NewChannels)
    (step : ∀ st a, a ≠ x → KeepsUnder x st (body st a))
    (keys : ∀ st a, (body st a).existing.keys = st.existing.keys) {names : List String}
    (away : x ∉ names) (seen : SeenFrom setup existing x last st) :
    SeenFrom setup existing x last (names.foldl body st) := by
  refine seen.elsewhere (keepsUnder_foldl step _ away st) ?_
  exact List.foldlRecOn (motive := fun now => now.existing.keys = st.existing.keys) _ _ rfl
    fun now same a _ => (keys now a).trans same

/-- The channel of a record whose name was looked up. -/
theorem ownMoved {z : String} (only : OnlyManaged setup (newProperties cfg ioc records x))
    {e : CFEntry} (found : st.existing.get? z = some e) (seen : SeenFrom setup existing x last st) :
    SeenFrom setup existing x
      (if z = x then (existing.get? x).map fun before => ⟨before.owner,
        mergePropertyLists (newProperties cfg ioc records x) before setup.managedProperties⟩
      else last) (Cf.overwriteExisting setup (newProperties cfg ioc records z) z e st) := by
  have named : z ∈ st.existing.keys := (Py.Dict.mem_keys_iff _ _).mpr ⟨e, found⟩
  by_cases same : z = x
  · subst same
    obtain ⟨before, looked⟩ := (Py.Dict.mem_keys_iff _ _).mp (seen.known ▸ named)
    rw [if_pos rfl, looked]
    exact seen.overwriteExisting only looked found
  · rw [if_neg same]
    refine seen.elsewhere (keepsUnder_overwriteExisting same e st) ?_
    rw [Cf.overwriteExisting, Py.Dict.keys_set, if_pos named]

/-- The channel of a record whose name was not looked up. -/
theorem ownCreated {z : String} (seen : SeenFrom setup existing x last st) :
    SeenFrom setup existing x
      (if z = x then some ⟨ioc.owner, newProperties cfg ioc records x⟩ else last)
      (Cf.createFresh ioc (newProperties cfg ioc records z) z st) := by
  by_cases same : z = x
  · subst same
    rw [if_pos rfl]
    exact seen.createFresh _
  · rw [if_neg same]
    exact seen.elsewhere (keepsUnder_createFresh same st) rfl

/-- A turn of the loop of `_process_new_channels`. -/
theorem processNewChannel (onlyOwn : OnlyManaged setup (newProperties cfg ioc records x))
    (onlyAlias : ∀ z, x ∈ aliasesOf cfg records z →
      OnlyManaged setup (aliasProperties cfg ioc records z))
    (seen : SeenFrom setup existing x last st) (z : String) :
    SeenFrom setup existing x
      (if z = x ∨ x ∈ aliasesOf cfg records z then
        some (entryLeft cfg setup ioc records existing x z)
      else last) (processNewChannel cfg setup ioc records st z) := by
  have looked : z ∈ existing.keys ↔ ∃ e, st.existing.get? z = some e := by
    rw [← seen.known, Py.Dict.mem_keys_iff]
  unfold Cf.processNewChannel
  cases found : st.existing.get? z with
  | some e =>
    have moved : z ∈ existing.keys := looked.mpr ⟨e, found⟩
    have own := seen.ownMoved onlyOwn found
    by_cases listed : x ∈ aliasesOf cfg records z
    · have last := aliases (Cf.moveAlias cfg setup ioc records z)
        (fun st last seen => moveAlias (onlyAlias z listed) listed moved seen)
        (aliasesOf cfg records z) own
      simpa [listed, updateExistingChannelDiffIocid] using last
    · have last := own.aliasesElsewhere (Cf.moveAlias cfg setup ioc records z)
        (keepsUnder_moveAlias z) (keys_moveAlias z) listed
      by_cases same : z = x
      · subst same
        obtain ⟨before, stored⟩ := (Py.Dict.mem_keys_iff _ _).mp moved
        simpa [listed, moved, stored, entryLeft, propertiesUnder, updateExistingChannelDiffIocid]
          using last
      · simpa [listed, same, updateExistingChannelDiffIocid] using last
  | none =>
    have created : z ∉ existing.keys := by
      rw [looked, found]
      simp
    have own : SeenFrom setup existing x _ (Cf.createFresh ioc (newProperties cfg ioc records z)
      z st) :=
      seen.ownCreated
    by_cases listed : x ∈ aliasesOf cfg records z
    · have last := aliases (Cf.createAlias cfg ioc records z)
        (fun st last seen => createAlias listed created seen) (aliasesOf cfg records z) own
      simpa [listed, createNewChannel] using last
    · have last := own.aliasesElsewhere (Cf.createAlias cfg ioc records z)
        (fun st _ elsewhere => keepsUnder_createFresh elsewhere st) (fun _ _ => rfl) listed
      by_cases same : z = x
      · subst same
        have absent : existing.get? z = none := (Py.Dict.get?_eq_none_iff _ _).mpr created
        simpa [listed, absent, entryLeft, propertiesUnder, createNewChannel] using last
      · simpa [listed, same, createNewChannel] using last

theorem processNewChannels (onlyOwn : OnlyManaged setup (newProperties cfg ioc records x))
    (onlyAlias : ∀ z, x ∈ aliasesOf cfg records z →
      OnlyManaged setup (aliasProperties cfg ioc records z)) (order : List String)
    (seen : SeenFrom setup existing x last st) :
    SeenFrom setup existing x
      (((lastWriter cfg records x order).map (entryLeft cfg setup ioc records existing x)).or last)
      (order.foldl (Cf.processNewChannel cfg setup ioc records) st) := by
  induction order generalizing st last with
  | nil => simpa [lastWriter] using seen
  | cons z rest ih =>
    have whole := ih (seen.processNewChannel onlyOwn onlyAlias z)
    rw [List.foldl_cons, lastWriter_cons]
    cases later : lastWriter cfg records x rest with
    | some w => simpa [later] using whole
    | none => by_cases writes : z = x ∨ x ∈ aliasesOf cfg records z <;>
        simpa [later, writes] using whole

end SeenFrom

/-- What `_process_new_channels` leaves under a name is decided by the last record that writes it. -/
theorem get?_processNewChannels (onlyOwn : OnlyManaged setup (newProperties cfg ioc records x))
    (onlyAlias : ∀ z, x ∈ aliasesOf cfg records z →
      OnlyManaged setup (aliasProperties cfg ioc records z)) (env : Env) (new : List String)
    (s : Store) :
    (setChannels s (Cf.processNewChannels cfg setup ioc records env new existing)).get? x =
      ((lastWriter cfg records x (env.setOrder new)).map
        (entryLeft cfg setup ioc records existing x)).or (s.get? x) := by
  have start : SeenFrom setup existing x none { existing } :=
    ⟨rfl, fun e found => ⟨e, found, rfl, rfl⟩, rfl⟩
  have written := (start.processNewChannels onlyOwn onlyAlias (env.setOrder new)).entry
  rw [Option.or_none, NewChannels.entryUnder] at written
  rw [Cf.processNewChannels, get?_setChannels_resolved, ← written]
  cases (List.foldl (Cf.processNewChannel cfg setup ioc records) { existing }
    (env.setOrder new)).lastUnder x <;> rfl

end LastWrite

end Recsync.Cf
