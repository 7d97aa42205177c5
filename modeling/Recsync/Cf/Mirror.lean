import Recsync.Cf.Batches
import Recsync.Cf.Frame
import Recsync.Cf.Retry

set_option autoImplicit false

/- The managed properties of a channel after a commit, and the transaction that supplies them. -/
namespace Recsync.Cf

/-- The record that comes first among those with the name. -/
def Transaction.first (t : Transaction) (n : String) : Option (Nat × String × String) :=
  t.recordsToAdd.entries.find? fun e => e.2.1 == n

/-- No name of a record is among the aliases. -/
def Transaction.AliasesApart (t : Transaction) : Prop :=
  ∀ r record, t.recordsToAdd.get? r = some record →
    ∀ other, record.1 ∉ (t.aliases.get? other).getD []

def UniqueNames (s : Store) : Prop :=
  ∀ n e, s.get? n = some e → (e.properties.map CFProperty.name).Nodup

/-- What a transaction supplies for a record: the properties of its IOC, the type of the record,
the info tags that the configuration lists and the environment variables that it maps. -/
inductive Supplies (cfg : CFConfig) (setup : Setup) (ioc : IOCInfo) (t : Transaction) (r : Nat)
    (recordType : String) : String → String → Prop where
  | hostname : Supplies cfg setup ioc t r recordType CFPropertyName.hostname.value ioc.hostname
  | iocName : Supplies cfg setup ioc t r recordType CFPropertyName.iocName.value ioc.iocName
  | iocId : Supplies cfg setup ioc t r recordType CFPropertyName.iocId.value ioc.id
  | iocIp : Supplies cfg setup ioc t r recordType CFPropertyName.iocIp.value ioc.iocIp
  | pvStatus :
      Supplies cfg setup ioc t r recordType CFPropertyName.pvStatus.value PVStatus.active.value
  | time : Supplies cfg setup ioc t r recordType CFPropertyName.time.value ioc.time
  | recceiverId :
      Supplies cfg setup ioc t r recordType CFPropertyName.recceiverId.value cfg.recceiverId
  | recordType (enabled : cfg.recordTypeEnabled = true) :
      Supplies cfg setup ioc t r recordType CFPropertyName.recordType.value recordType
  | infoTag {tag value : String} {infos : Py.Dict String String}
      (listed : tag ∈ setup.recordPropertyNamesList)
      (infosOf : t.recordInfosToAdd.get? r = some infos) (carried : infos.get? tag = some value) :
      Supplies cfg setup ioc t r recordType tag value
  | environment {var name value : String} (mapped : (var, name) ∈ setup.envVars.entries)
      (carried : t.clientInfos.get? var = some value) :
      Supplies cfg setup ioc t r recordType name value

def Holds (l : List CFProperty) (name value : String) : Prop :=
  ∃ q ∈ l, q.name = name ∧ q.value = value

/-- The managed properties of the entry are those that are supplied, and no name comes twice. -/
structure Mirrors (managed : List String) (supplied : String → String → Prop) (e : CFEntry) :
    Prop where
  managed : ∀ name ∈ managed, ∀ value, Holds e.properties name value ↔ supplied name value
  nodup : (e.properties.map CFProperty.name).Nodup

section Records

variable (cfg : CFConfig) (setup : Setup) (env : Env) (t : Transaction)

theorem get?_foldl_addByName_first (infos : List RecordInfo) (d : Py.Dict String RecordInfo)
    (n : String) :
    (infos.foldl addByName d).get? n =
      (d.get? n).or (infos.find? fun info => info.pvName == n) := by
  induction infos generalizing d with
  | nil => simp
  | cons info rest ih =>
    rw [List.foldl_cons, ih]
    unfold addByName
    by_cases same : info.pvName = n
    · subst same
      split
      · rename_i known
        obtain ⟨v, found⟩ := (Py.Dict.mem_keys_iff _ _).mp known
        simp [found]
      · rename_i fresh
        simp [(Py.Dict.get?_eq_none_iff _ _).mpr fresh]
    · have other : (info.pvName == n) = false := by simpa using same
      rw [List.find?_cons_of_neg (by simp [other])]
      split
      · rfl
      · rw [Py.Dict.get?_set_ne _ _ (Ne.symm same)]

/-- `record_info_by_name` keeps the first record with a name. -/
theorem get?_recordsOf_first (n : String) :
    (recordsOf cfg setup env t).get? n = (t.first n).map fun e =>
      recordInfoOf cfg setup (iocInfoOf cfg env t).owner t e.1 e.2.1 e.2.2 := by
  rw [recordsOf, recordInfoByName_eq, get?_foldl_addByName_first, transactionToRecordInfos,
    List.find?_map]
  rfl

end Records

section Supply

variable {cfg : CFConfig} {setup : Setup} {ioc : IOCInfo} {t : Transaction} {r : Nat}
  {ty n : String}

theorem holds_append {first second : List CFProperty} {name value : String} :
    Holds (first ++ second) name value ↔ Holds first name value ∨ Holds second name value := by
  simp only [Holds, List.mem_append, or_and_right, exists_or]

theorem infoProperties_supplied {name value : String} :
    Holds (recordInfoOf cfg setup ioc.owner t r n ty).infoProperties name value ↔
      (∃ infos, name ∈ setup.recordPropertyNamesList ∧ t.recordInfosToAdd.get? r = some infos ∧
        infos.get? name = some value) ∨
      ∃ var, (var, name) ∈ setup.envVars.entries ∧ t.clientInfos.get? var = some value := by
  unfold recordInfoOf
  rw [holds_append]
  apply or_congr
  · cases infosOf : t.recordInfosToAdd.get? r with
    | none => simp [Holds]
    | some infos =>
      simp only [Holds, whitelistedInfos, Option.map_some, Option.getD_some, List.mem_filterMap,
        Option.map_eq_some_iff]
      constructor
      · rintro ⟨-, ⟨tag, listed, v, carried, rfl⟩, rfl, rfl⟩
        exact ⟨infos, listed, rfl, carried⟩
      · rintro ⟨infos', listed, same, carried⟩
        obtain rfl := Option.some.inj same
        exact ⟨_, ⟨name, listed, value, carried, rfl⟩, rfl, rfl⟩
  · simp only [Holds, applyEnvVars, List.mem_filterMap, Option.map_eq_some_iff]
    constructor
    · rintro ⟨-, ⟨⟨var, prop⟩, mapped, v, carried, rfl⟩, rfl, rfl⟩
      exact ⟨var, mapped, carried⟩
    · rintro ⟨var, mapped, carried⟩
      exact ⟨_, ⟨(var, name), mapped, value, carried, rfl⟩, rfl, rfl⟩

theorem iocProperties_supplied {name value : String} :
    Holds (createIocProperties ioc.owner ioc.time cfg.recceiverId ioc.hostname ioc.iocName ioc.iocIp
      ioc.id) name value →
      Supplies cfg setup ioc t r ty name value := by
  rintro ⟨q, member, rfl, rfl⟩
  simp only [createIocProperties, List.mem_cons, List.not_mem_nil, or_false] at member
  rcases member with rfl | rfl | rfl | rfl | rfl | rfl | rfl
  · exact .hostname
  · exact .iocName
  · exact .iocId
  · exact .iocIp
  · exact .pvStatus
  · exact .time
  · exact .recceiverId

/-- The create and the move path write what the transaction supplies. -/
theorem newProperties_supplied {records : Py.Dict String RecordInfo}
    (found : records.get? n = some (recordInfoOf cfg setup ioc.owner t r n ty)) (typed : ty ≠ "")
    {name value : String} :
    Holds (newProperties cfg ioc records n) name value ↔
      Supplies cfg setup ioc t r ty name value := by
  have typeOf : (recordInfoOf cfg setup ioc.owner t r n ty).recordType =
      if cfg.recordTypeEnabled then some ty else none := rfl
  unfold newProperties
  rw [found]
  dsimp only
  rw [holds_append, holds_append, infoProperties_supplied, typeOf]
  constructor
  · rintro (own | typed | ⟨infos, listed, infosOf, carried⟩ | ⟨var, mapped, carried⟩)
    · exact iocProperties_supplied own
    · by_cases enabled : cfg.recordTypeEnabled = true
      · simp only [enabled, if_true, if_neg ‹ty ≠ ""›] at typed
        obtain ⟨q, member, rfl, rfl⟩ := typed
        rw [List.mem_singleton.mp member]
        exact .recordType enabled
      · simp [enabled, Holds] at typed
    · exact .infoTag listed infosOf carried
    · exact .environment mapped carried
  · intro supplied
    have own {p : CFPropertyName} {value : String} (member : property p ioc.owner value ∈
        createIocProperties ioc.owner ioc.time cfg.recceiverId ioc.hostname ioc.iocName ioc.iocIp
          ioc.id) : Holds (createIocProperties ioc.owner ioc.time cfg.recceiverId ioc.hostname
            ioc.iocName ioc.iocIp ioc.id) p.value value := ⟨_, member, rfl, rfl⟩
    cases supplied with
    | hostname => exact Or.inl (own (by simp [createIocProperties]))
    | iocName => exact Or.inl (own (by simp [createIocProperties]))
    | iocId => exact Or.inl (own (by simp [createIocProperties]))
    | iocIp => exact Or.inl (own (by simp [createIocProperties]))
    | pvStatus => exact Or.inl (own (by simp [createIocProperties]))
    | time => exact Or.inl (own (by simp [createIocProperties]))
    | recceiverId => exact Or.inl (own (by simp [createIocProperties]))
    | recordType enabled =>
      refine Or.inr (Or.inl ?_)
      simp only [enabled, if_true, if_neg typed]
      exact ⟨_, List.mem_singleton_self _, rfl, rfl⟩
    | infoTag listed infosOf carried => exact Or.inr (Or.inr (Or.inl ⟨_, listed, infosOf, carried⟩))
    | environment mapped carried => exact Or.inr (Or.inr (Or.inr ⟨_, mapped, carried⟩))

end Supply

section Names

variable {cfg : CFConfig} {setup : Setup} {ioc : IOCInfo} {t : Transaction} {r : Nat}
  {ty n : String}

/-- The names of what a loop picks out follow the list that it walks. -/
theorem map_filterMap_sublist {α β γ : Type} {f : α → Option β} {g : β → γ} {h : α → γ}
    (same : ∀ a b, f a = some b → g b = h a) (l : List α) :
    ((l.filterMap f).map g).Sublist (l.map h) := by
  induction l with
  | nil => exact List.Sublist.slnil
  | cons a rest ih =>
    cases picked : f a with
    | none =>
      rw [List.filterMap_cons_none picked]
      exact ih.cons (h a)
    | some b =>
      rw [List.filterMap_cons_some picked, List.map_cons, List.map_cons, same a b picked]
      exact ih.cons_cons (h a)

theorem tagNames_sublist (infos : Py.Dict String String) :
    ((whitelistedInfos setup ioc.owner infos).map CFProperty.name).Sublist
      setup.recordPropertyNamesList := by
  have picked := @map_filterMap_sublist _ _ _ (fun tag =>
    (infos.get? tag).map fun value => (⟨tag, ioc.owner, value⟩ : CFProperty)) CFProperty.name id ?_
    setup.recordPropertyNamesList
  · rw [List.map_id] at picked
    exact picked
  · intro tag q found
    obtain ⟨value, -, rfl⟩ := Option.map_eq_some_iff.mp found
    rfl

theorem variableNames_sublist :
    ((applyEnvVars setup ioc.owner t).map CFProperty.name).Sublist
      (setup.envVars.entries.map Prod.snd) := by
  apply map_filterMap_sublist
  intro var q found
  obtain ⟨value, -, rfl⟩ := Option.map_eq_some_iff.mp found
  rfl

theorem infoProperties_nodup (distinct : setup.Distinct) :
    ((recordInfoOf cfg setup ioc.owner t r n ty).infoProperties.map CFProperty.name).Nodup := by
  unfold recordInfoOf
  rw [List.map_append]
  have tags : ∃ infos : Py.Dict String String,
      (((t.recordInfosToAdd.get? r).map (whitelistedInfos setup ioc.owner)).getD []).map
        CFProperty.name = (whitelistedInfos setup ioc.owner infos).map CFProperty.name := by
    cases t.recordInfosToAdd.get? r with
    | none => exact ⟨∅, by simp [whitelistedInfos]⟩
    | some infos => exact ⟨infos, rfl⟩
  obtain ⟨infos, same⟩ := tags
  rw [same]
  refine List.nodup_append.mpr ⟨(tagNames_sublist infos).nodup distinct.tags,
    variableNames_sublist.nodup distinct.vars, ?_⟩
  intro tag listed name mapped equal
  obtain ⟨var, inside, rfl⟩ := List.mem_map.mp (variableNames_sublist.subset mapped)
  exact distinct.between tag ((tagNames_sublist infos).subset listed) var inside equal

theorem infoProperties_apart (distinct : setup.Distinct) {q : CFProperty}
    (member : q ∈ (recordInfoOf cfg setup ioc.owner t r n ty).infoProperties) :
    ∀ p ∈ reservedNames, q.name ≠ p.value := by
  have supplied := infoProperties_supplied.mp
    (⟨q, member, rfl, rfl⟩ : Holds _ q.name q.value)
  rcases supplied with ⟨-, listed, -⟩ | ⟨var, mapped, -⟩
  · exact distinct.tagsApart q.name listed
  · exact distinct.varsApart _ mapped

theorem newProperties_parts {records : Py.Dict String RecordInfo} {info : RecordInfo}
    (found : records.get? n = some info) :
    ∃ type : List CFProperty, (type.map CFProperty.name).Sublist [CFPropertyName.recordType.value] ∧
      (type ≠ [] → cfg.recordTypeEnabled = true) ∧
      newProperties cfg ioc records n = createIocProperties ioc.owner ioc.time cfg.recceiverId
        ioc.hostname ioc.iocName ioc.iocIp ioc.id ++ (type ++ info.infoProperties) := by
  unfold newProperties
  rw [found]
  refine ⟨_, ?_, ?_, rfl⟩
  · split
    · split
      · exact List.nil_sublist _
      · split
        · exact List.nil_sublist _
        · exact List.Sublist.refl _
    · exact List.nil_sublist _
  · intro written
    by_contra disabled
    exact written (if_neg disabled)

/-- No name comes twice among the properties that the create and the move path write. -/
theorem newProperties_nodup (distinct : setup.Distinct) {records : Py.Dict String RecordInfo}
    (found : records.get? n = some (recordInfoOf cfg setup ioc.owner t r n ty)) :
    ((newProperties cfg ioc records n).map CFProperty.name).Nodup := by
  have iocNames : (createIocProperties ioc.owner ioc.time cfg.recceiverId ioc.hostname ioc.iocName
      ioc.iocIp ioc.id).map CFProperty.name = iocPropertyNames.map CFPropertyName.value := rfl
  have builtin : (iocPropertyNames.map CFPropertyName.value).Nodup := by decide
  have infos := @infoProperties_nodup cfg setup ioc t r ty n distinct
  obtain ⟨type, typed, -, parts⟩ := @newProperties_parts cfg ioc n records _ found
  rw [parts, List.map_append, List.map_append, iocNames]
  refine List.nodup_append.mpr ⟨builtin,
    List.nodup_append.mpr ⟨typed.nodup (List.nodup_singleton _),
    infos, ?_⟩, ?_⟩
  · intro name one other two equal
    have named := List.mem_singleton.mp (typed.subset one)
    obtain ⟨q, member, rfl⟩ := List.mem_map.mp two
    exact infoProperties_apart distinct member .recordType (by decide) (equal.symm.trans named)
  · intro name one other two equal
    obtain ⟨p, isIoc, rfl⟩ := List.mem_map.mp one
    rcases List.mem_append.mp two with isType | isInfo
    · have named := List.mem_singleton.mp (typed.subset isType)
      have same : p = .recordType := CFPropertyName.value_injective (equal.trans named)
      rw [same] at isIoc
      exact absurd isIoc (by decide)
    · obtain ⟨q, member, rfl⟩ := List.mem_map.mp isInfo
      exact infoProperties_apart distinct member p (List.mem_append_left _ isIoc) equal.symm

/-- Merging into an entry keeps the managed properties to what is new, and the names unique. -/
theorem mirrors_merge {new : List CFProperty} {managed : List String}
    {supplied : String → String → Prop} {owner : String} {e : CFEntry}
    (exact : ∀ name value, Holds new name value ↔ supplied name value)
    (nodup : (new.map CFProperty.name).Nodup)
    (unique : (e.properties.map CFProperty.name).Nodup) :
    Mirrors managed supplied ⟨owner, mergePropertyLists new e managed⟩ := by
  constructor
  · intro name isManaged value
    rw [← exact, mergePropertyLists, holds_append]
    refine or_iff_left ?_
    rintro ⟨q, kept, rfl, -⟩
    have outside : q.name ∉ managed :=
      of_decide_eq_true (Bool.and_eq_true_iff.mp (List.mem_filter.mp kept).2).2
    exact outside isManaged
  · rw [mergePropertyLists, List.map_append]
    refine List.nodup_append.mpr ⟨nodup, unique.sublist (List.filter_sublist.map _), ?_⟩
    intro name one other two equal
    obtain ⟨q, kept, rfl⟩ := List.mem_map.mp two
    have fresh : q.name ∉ new.map CFProperty.name :=
      of_decide_eq_true (Bool.and_eq_true_iff.mp (List.mem_filter.mp kept).2).1
    exact fresh (equal ▸ one)

end Names

section Entry

variable {client : ChannelFinderAdapter} {cfg : CFConfig} {setup : Setup} {env : Env}
  {p : Processor} {records : Py.Dict String RecordInfo} {del : List Key} {ioc : IOCInfo}
  {s s' : Store} {x : String}

/-- What is known and going to be written under `x` stays the same. -/
structure KeepsUnder (x : String) (st st' : NewChannels) : Prop where
  existing : st'.existing.get? x = st.existing.get? x
  last : st'.lastUnder x = st.lastUnder x

theorem KeepsUnder.trans {st st' st'' : NewChannels} (first : KeepsUnder x st st')
    (second : KeepsUnder x st' st'') : KeepsUnder x st st'' :=
  ⟨second.existing.trans first.existing, second.last.trans first.last⟩

theorem keepsUnder_overwriteExisting {properties : List CFProperty} {name : String}
    (other : name ≠ x) (e : CFEntry) (st : NewChannels) :
    KeepsUnder x st (overwriteExisting setup properties name e st) := by
  obtain ⟨last, still⟩ := @lastUnder_overwrite_ne setup x properties name other e st
  exact ⟨still, last⟩

theorem keepsUnder_createFresh {properties : List CFProperty} {name : String} (other : name ≠ x)
    (st : NewChannels) : KeepsUnder x st (createFresh ioc properties name st) := by
  refine ⟨rfl, ?_⟩
  rw [lastUnder_createFresh, if_neg other]

/-- Both alias loops keep what they have no alias for. -/
theorem keepsUnder_foldl {body : NewChannels → String → NewChannels}
    (step : ∀ st a, a ≠ x → KeepsUnder x st (body st a)) (names : List String) (apart : x ∉ names)
    (st : NewChannels) : KeepsUnder x st (names.foldl body st) := by
  refine List.foldlRecOn (motive := KeepsUnder x st) _ _ ⟨rfl, rfl⟩ ?_
  intro now kept a listed
  exact kept.trans (step now a fun same => apart (same ▸ listed))

theorem keepsUnder_moveAlias (name : String) (st : NewChannels) (a : String) (other : a ≠ x) :
    KeepsUnder x st (moveAlias cfg setup ioc records name st a) := by
  unfold moveAlias
  split
  · exact keepsUnder_overwriteExisting other _ st
  · exact keepsUnder_createFresh other st

/-- A turn for another name that does not have `x` among its aliases. -/
theorem keepsUnder_processNewChannel {name : String} (other : name ≠ x)
    (noAlias : x ∉ aliasesOf cfg records name) (st : NewChannels) :
    KeepsUnder x st (processNewChannel cfg setup ioc records st name) := by
  unfold processNewChannel
  split
  · exact (keepsUnder_overwriteExisting other _ st).trans
      (keepsUnder_foldl (keepsUnder_moveAlias name) _ noAlias _)
  · exact (keepsUnder_createFresh other st).trans
      (keepsUnder_foldl (fun st _ elsewhere => keepsUnder_createFresh elsewhere st) _ noAlias _)

/-- The entry that is going to be written under `x`. -/
def NewChannels.entryUnder (x : String) (st : NewChannels) : Option CFEntry :=
  (st.lastUnder x).map fun y => (st.resolve y).toCFEntry

theorem KeepsUnder.entryUnder {st st' : NewChannels} (kept : KeepsUnder x st st') :
    st'.entryUnder x = st.entryUnder x := by
  unfold NewChannels.entryUnder
  rw [kept.last]
  cases last : st.lastUnder x with
  | none => rfl
  | some y =>
    have target : y.target = x :=
      of_decide_eq_true (List.mem_filter.mp (List.mem_of_getLast? last)).2
    cases y with
    | fresh ch => rfl
    | existing n =>
      obtain rfl : n = x := target
      simp only [Option.map_some, NewChannels.resolve, kept.existing]

/-- The turn for `x` itself. -/
theorem processNewChannel_entryUnder (noAlias : x ∉ aliasesOf cfg records x) (st : NewChannels) :
    (processNewChannel cfg setup ioc records st x).entryUnder x =
      some (ownEntry cfg setup ioc records x (st.existing.get? x)) := by
  unfold processNewChannel
  cases found : st.existing.get? x with
  | some e =>
    refine (keepsUnder_foldl (keepsUnder_moveAlias x) _ noAlias _).entryUnder.trans ?_
    simp [NewChannels.entryUnder, NewChannels.lastUnder, overwriteExisting, Pending.target,
      NewChannels.resolve, ownEntry]
  | none =>
    refine (keepsUnder_foldl (fun st _ elsewhere => keepsUnder_createFresh elsewhere st) _ noAlias
      _).entryUnder.trans ?_
    simp [NewChannels.entryUnder, NewChannels.lastUnder, createFresh, Pending.target,
      NewChannels.resolve, ownEntry, channel]

/-- What the create and move paths leave under a new name that is nobody's alias. -/
theorem get?_processNewChannels_own {new : List String} (nodup : new.Nodup) (named : x ∈ new)
    (noAlias : ∀ z, x ∉ aliasesOf cfg records z) (now : Store)
    (existing : Py.Dict String CFEntry) :
    (setChannels now (processNewChannels cfg setup ioc records env new existing)).get? x =
      some (ownEntry cfg setup ioc records x (existing.get? x)) := by
  have ordered : (env.setOrder new).Nodup := (env.setOrder_perm new).nodup_iff.mpr nodup
  obtain ⟨before, after, split⟩ :=
    List.append_of_mem ((env.setOrder_perm new).mem_iff.mpr named)
  rw [split] at ordered
  have step : ∀ st z, z ≠ x → KeepsUnder x st (processNewChannel cfg setup ioc records st z) :=
    fun st z other => keepsUnder_processNewChannel other (noAlias z) st
  have first := keepsUnder_foldl step before (by grind) { existing }
  have later := fun st => keepsUnder_foldl step after (by grind) st
  have entry : ((env.setOrder new).foldl (processNewChannel cfg setup ioc records)
      { existing }).entryUnder x = some (ownEntry cfg setup ioc records x (existing.get? x)) := by
    rw [split, List.foldl_append, List.foldl_cons, (later _).entryUnder,
      processNewChannel_entryUnder (noAlias x), first.existing]
  refine (get?_setChannels_resolved now _).trans ?_
  obtain ⟨y, last, same⟩ := Option.map_eq_some_iff.mp entry
  rw [last]
  exact congrArg some same

/-- A record that ChannelFinder does not list under the IOC is still new after the loop over the
old channels. -/
theorem reconcileOld_keeps {new : List String} {handled : List CFChannel}
    (reconciled : reconcileOld cfg setup p records del ioc (client.findByIocId env s ioc.id) =
      .ok (new, handled))
    (noAlias : ∀ z, x ∉ aliasesOf cfg records z) (named : x ∈ records.keys)
    (unlisted : ∀ e, s.get? x = some e → ¬ e.has .iocId ioc.id) : x ∈ new := by
  rcases (handleChannels_left reconciled).2 x named with still | ⟨cf, found, same | listed⟩
  · exact still
  · obtain ⟨stored, own⟩ := client.findByIocId_listed env s ioc.id cf found
    exact absurd own (unlisted _ (same ▸ stored))
  · exact absurd listed (noAlias cf.name)

/-- The entry of such a record after an attempt that writes. -/
theorem updateChannelfinder_own (positive : 0 < cfg.cfQueryLimit)
    (ran : client.updateChannelfinder cfg setup env p records del ioc none s = (.ok (), s'))
    (noAlias : ∀ z, x ∉ aliasesOf cfg records z) (named : x ∈ records.keys)
    (unlisted : ∀ e, s.get? x = some e → ¬ e.has .iocId ioc.id) :
    ∃ new, x ∈ new ∧ s'.get? x = some (ownEntry cfg setup ioc records x
      ((client.getExistingChannels env s new).get? x)) := by
  obtain ⟨new, handled, reconciled, rfl⟩ := updateChannelfinder_writes positive ran
  have fewer := (handleChannels_left reconciled).1
  have still := reconcileOld_keeps reconciled noAlias named unlisted
  exact ⟨new, still, get?_processNewChannels_own (fewer.nodup records.keys_nodup) still noAlias _ _⟩

/-- A limit of zero makes the attempt raise, since there is something to write. -/
theorem updateChannelfinder_zero (zero : cfg.cfQueryLimit = 0)
    (noAlias : ∀ z, x ∉ aliasesOf cfg records z) (named : x ∈ records.keys)
    (unlisted : ∀ e, s.get? x = some e → ¬ e.has .iocId ioc.id) :
    client.updateChannelfinder cfg setup env p records del ioc none s ≠ (.ok (), s') := by
  intro ran
  rcases @updateChannelfinder_cases client cfg setup env p records del ioc none s with
    ⟨e, raised⟩ | ⟨new, handled, bs, -, reconciled, planned, -⟩
  · rw [raised] at ran
    cases ran
  · have still := reconcileOld_keeps reconciled noAlias named unlisted
    have written : x ∈ (processNewChannels cfg setup ioc records env new
        (client.getExistingChannels env s new)).map CFChannel.name := by
      rw [map_name_processNewChannels, List.mem_flatMap]
      exact ⟨x, (env.setOrder_perm new).mem_iff.mpr still, List.mem_cons_self⟩
    have something : ¬ (handled ++ processNewChannels cfg setup ioc records env new
        (client.getExistingChannels env s new) = [] ∧ client.findByIocId env s ioc.id = []) := by
      rintro ⟨nothing, -⟩
      rw [(List.append_eq_nil_iff.mp nothing).2] at written
      cases written
    unfold batches cfSetChunked at planned
    simp only [something, zero, if_false, if_true] at planned
    cases planned

end Entry

theorem aliasesOf_apart {cfg : CFConfig} {setup : Setup} {env : Env} {t : Transaction}
    (apart : t.AliasesApart) :
    ∀ z, ∀ a ∈ aliasesOf cfg (recordsOf cfg setup env t) z,
      a ∉ (recordsOf cfg setup env t).keys := by
  intro z a listed named
  obtain ⟨r, ty, added⟩ := (mem_keys_recordsOf cfg setup env t a).mp named
  obtain ⟨other, _, _, inside⟩ := listed_of_mem_aliasesOf listed
  exact apart r (a, ty) added other inside

/-- After every successful update of ChannelFinder, every record of the transaction that was not
listed under its IOC has the managed properties that the transaction supplies, and no name twice.
A record type is never empty: the decoder refuses that. -/
def ManagedMirrored (client : ChannelFinderAdapter) (cfg : CFConfig) (setup : Setup) : Prop :=
  ∀ (env : Env) (t : Transaction) (q p : Processor) (del : List Key) (fault : Option Fault)
    (s s' : Store), t.connected = true → t.AliasesApart → UniqueNames s →
    updateIocInfos cfg env t (iocInfoOf cfg env t) (recordsOf cfg setup env t) q = .ok del p →
    client.updateChannelfinder cfg setup env p (recordsOf cfg setup env t) del
      (iocInfoOf cfg env t) fault
      s = (.ok (), s') →
    ∀ n r ty, t.first n = some (r, n, ty) → ty ≠ "" →
      (∀ e, s.get? n = some e → ¬ e.has .iocId t.iocid) →
      ∃ e, s'.get? n = some e ∧ Mirrors setup.managedProperties
        (Supplies cfg setup (iocInfoOf cfg env t) t r ty) e

theorem managedMirrored_of_nonneg {client : ChannelFinderAdapter} {cfg : CFConfig}
    (nonneg : 0 ≤ cfg.cfQueryLimit)
    {setup : Setup} (distinct : setup.Distinct) : ManagedMirrored client cfg setup := by
  intro env t q p del fault s s' _ apart unique _ ran n r ty first typed unlisted
  have found : (recordsOf cfg setup env t).get? n =
      some (recordInfoOf cfg setup (iocInfoOf cfg env t).owner t r n ty) := by
    rw [get?_recordsOf_first, first]
    rfl
  have named : n ∈ (recordsOf cfg setup env t).keys := (Py.Dict.mem_keys_iff _ _).mpr ⟨_, found⟩
  have away := @aliasesOf_apart cfg setup env t apart
  have positive : 0 < cfg.cfQueryLimit := by
    by_contra zero
    exact updateChannelfinder_zero (by omega) (fun z listed => away z n listed named) named unlisted
      (updateChannelfinder_ok ran)
  obtain ⟨new, still, own⟩ := updateChannelfinder_own positive (updateChannelfinder_ok ran)
    (fun z listed => away z n listed named) named unlisted
  have exact (name value : String) := @newProperties_supplied cfg setup (iocInfoOf cfg env t) t r ty
    n (recordsOf cfg setup env t) found typed name value
  have nodup := newProperties_nodup distinct found
  refine ⟨_, own, ?_⟩
  cases returned : (client.getExistingChannels env s new).get? n with
  | none => exact ⟨fun name _ value => exact name value, nodup⟩
  | some e => exact mirrors_merge exact nodup (unique n e (getExistingChannels_stored returned))

/-- With a negative limit the first commit of an IOC returns and writes nothing. -/
theorem not_managedMirrored_of_negative {client : ChannelFinderAdapter} {cfg : CFConfig}
    (negative : cfg.cfQueryLimit < 0)
    (setup : Setup) : ¬ ManagedMirrored client cfg setup := by
  intro mirrored
  have update := @updateIocInfos_connected cfg {} (announce "a" 5064 "pv") {}
    (recordsOf cfg setup {} (announce "a" 5064 "pv")) rfl (Or.inl rfl)
      (fun r member => by cases member)
  have notCancelled : (afterConnected cfg setup {} (announce "a" 5064 "pv") {}).cancelled = false :=
    (@Sound.afterConnected cfg setup {} (announce "a" 5064 "pv") {} sound_empty).up.notCancelled
  have ran : client.updateChannelfinder cfg setup {}
    (afterConnected cfg setup {} (announce "a" 5064 "pv") {})
      (recordsOf cfg setup {} (announce "a" 5064 "pv")) []
        (iocInfoOf cfg {} (announce "a" 5064 "pv"))
      none ∅ = (.ok (), ∅) := by
    have nothing (iocid : String) : client.findByIocId {} ∅ iocid = [] := by
      apply List.eq_nil_iff_forall_not_mem.mpr
      intro ch member
      cases (client.findByIocId_listed {} ∅ iocid ch member).1
    have chunked (channels : List CFChannel) : cfSetChunked cfg channels = .ok [] := by
      rw [cfSetChunked, if_neg (by omega), if_pos negative]
    simp only [ChannelFinderAdapter.updateChannelfinder, notCancelled, failsFindByIocId,
      failsFindByNames, nothing,
      reconcileOld, handleChannels, batches, chunked, Bool.false_eq_true, if_false, false_and]
    split
    · rename_i raised
      split at raised
      · cases raised
      · cases raised
    · rename_i bs planned
      split at planned
      · rw [← Except.ok.inj planned]
        rfl
      · rw [← Except.ok.inj planned]
        rfl
  have unique : UniqueNames ∅ := by
    intro n e stored
    cases stored
  have apart : (announce "a" 5064 "pv").AliasesApart := by
    intro r record _ other
    simp [announce]
  obtain ⟨e, stored, -⟩ := mirrored {} (announce "a" 5064 "pv") {} _ [] none ∅ ∅ rfl apart unique
    update ran "pv" 1 "ai" rfl (by decide) (fun e stored => by cases stored)
  cases stored

/-- The managed properties follow the transaction exactly when the size limit is not negative. -/
theorem managedMirrored_iff {client : ChannelFinderAdapter} {cfg : CFConfig}
    (distinct : cfg.NamesDistinct) {env : Env}
    {cfProperties : List String} {setup : Setup} {registered : List String}
    (configured : setupCfProperties cfg env cfProperties = .ok (setup, registered)) :
    ManagedMirrored client cfg setup ↔ 0 ≤ cfg.cfQueryLimit := by
  constructor
  · intro mirrored
    by_contra negative
    exact not_managedMirrored_of_negative (by omega) setup mirrored
  · intro nonneg
    exact managedMirrored_of_nonneg nonneg (setupCfProperties_distinct distinct configured)

/-- A configuration with one info tag and one environment variable. -/
def taggedConfig (limit : Int) : CFConfig where
  infoTags := "archive"
  environmentVariables := "ENGINEER: engineer"
  recordTypeEnabled := true
  recceiverId := "r"
  cfQueryLimit := limit

theorem taggedConfig_distinct (limit : Int) : (taggedConfig limit).NamesDistinct := by
  have tags : infoTagNames (taggedConfig limit) = ["archive"] := by
    change infoTagNames (taggedConfig 0) = ["archive"]
    decide
  have vars : (parseEnvVars (taggedConfig limit)).toOption.map Py.Dict.values =
      some ["engineer"] := by
    change (parseEnvVars (taggedConfig 0)).toOption.map Py.Dict.values = some ["engineer"]
    decide
  have names : ∀ configured, parseEnvVars (taggedConfig limit) = .ok configured →
      configuredNames (taggedConfig limit) configured = ["archive", "engineer"] := by
    intro configured parsed
    rw [parsed] at vars
    rw [configuredNames, tags, Option.some.inj vars]
    rfl
  constructor
  · intro configured parsed
    rw [names configured parsed]
    intro name member p same
    simp only [List.mem_cons, List.not_mem_nil, or_false] at member
    rcases member with rfl | rfl
    · cases p <;> exact absurd same (by decide)
    · cases p <;> exact absurd same (by decide)
  · intro configured parsed
    rw [names configured parsed]
    decide

/-- One record with the tag, from an IOC that has the variable. -/
def taggedAnnounce : Transaction :=
  { announce "a" 5064 "pv" with
    clientInfos := (∅ : Py.Dict String String).set "ENGINEER" "op"
    recordInfosToAdd := (∅ : Py.Dict Nat (Py.Dict String String)).set 1
      ((∅ : Py.Dict String String).set "archive" "yes") }

theorem managedMirrored_iff_tagged :
    ∃ setup registered,
      setupCfProperties (taggedConfig 10000) {} [] = .ok (setup, registered) ∧
        ManagedMirrored ((taggedConfig 10000).queries (· == ·)) (taggedConfig 10000) setup := by
  have started : setupCfProperties (taggedConfig 10000) {} [] = .ok (_, _) := rfl
  exact ⟨_, _, started,
    (managedMirrored_iff (taggedConfig_distinct 10000) started).mpr (by decide)⟩

/-- With `findSizeLimit = -1` the commit of a new record returns and writes nothing. -/
theorem managedMirrored_fails_negative :
    ∃ setup registered,
      setupCfProperties (taggedConfig (-1)) {} [] = .ok (setup, registered) ∧
        (((taggedConfig (-1)).queries (· == ·)).updateChannelfinder (taggedConfig (-1)) setup {}
          (afterConnected (taggedConfig (-1)) setup {} taggedAnnounce {})
          (recordsOf (taggedConfig (-1)) setup {} taggedAnnounce) []
          (iocInfoOf (taggedConfig (-1)) {} taggedAnnounce) none ∅).1 = .ok () ∧
        (((taggedConfig (-1)).queries (· == ·)).updateChannelfinder (taggedConfig (-1)) setup {}
          (afterConnected (taggedConfig (-1)) setup {} taggedAnnounce {})
          (recordsOf (taggedConfig (-1)) setup {} taggedAnnounce) []
          (iocInfoOf (taggedConfig (-1)) {} taggedAnnounce) none ∅).2.get? "pv" = none ∧
        ¬ ManagedMirrored ((taggedConfig (-1)).queries (· == ·)) (taggedConfig (-1)) setup :=
  ⟨_, _, rfl, by decide, by decide, not_managedMirrored_of_negative (by decide) _⟩

end Recsync.Cf
