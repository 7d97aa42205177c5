import Recsync.Cf.Setup
import Recsync.Cf.UpdateWrites

set_option autoImplicit false

namespace Recsync.Cf

/-- A turn of the loop of `record_info_by_name`. -/
def addByName (d : Py.Dict String RecordInfo) (info : RecordInfo) : Py.Dict String RecordInfo :=
  if info.pvName ∈ d.keys then d else d.set info.pvName info

theorem recordInfoByName_eq (infos : List RecordInfo) :
    recordInfoByName infos = infos.foldl addByName ∅ := rfl

theorem mem_keys_addByName (d : Py.Dict String RecordInfo) (info : RecordInfo) (n : String) :
    n ∈ (addByName d info).keys ↔ n ∈ d.keys ∨ n = info.pvName := by
  unfold addByName
  split
  · rename_i known
    exact ⟨Or.inl, fun either => either.elim id (fun same => same ▸ known)⟩
  · rename_i fresh
    rw [Py.Dict.keys_set, if_neg fresh]
    simp

theorem mem_keys_foldl_addByName (infos : List RecordInfo) (d : Py.Dict String RecordInfo)
    (n : String) :
    n ∈ (infos.foldl addByName d).keys ↔ n ∈ d.keys ∨ ∃ info ∈ infos, info.pvName = n := by
  induction infos generalizing d with
  | nil => simp
  | cons info rest ih =>
    rw [List.foldl_cons, ih, mem_keys_addByName]
    simp [or_assoc, eq_comm]

theorem mem_keys_recordInfoByName (infos : List RecordInfo) (n : String) :
    n ∈ (recordInfoByName infos).keys ↔ ∃ info ∈ infos, info.pvName = n := by
  rw [recordInfoByName_eq, mem_keys_foldl_addByName]
  simp

theorem get?_foldl_addByName {infos : List RecordInfo} {d : Py.Dict String RecordInfo}
    {n : String} {info : RecordInfo} (found : (infos.foldl addByName d).get? n = some info) :
    d.get? n = some info ∨ info ∈ infos ∧ info.pvName = n := by
  induction infos generalizing d with
  | nil => exact Or.inl found
  | cons first rest ih =>
    rcases ih found with early | ⟨member, name⟩
    · unfold addByName at early
      split at early
      · exact Or.inl early
      · rw [Py.Dict.get?_set] at early
        split at early
        · rename_i same
          exact Or.inr ⟨by simp [Option.some.inj early], Option.some.inj early ▸ same.symm⟩
        · exact Or.inl early
    · exact Or.inr ⟨by simp [member], name⟩

theorem get?_recordInfoByName {infos : List RecordInfo} {n : String} {info : RecordInfo}
    (found : (recordInfoByName infos).get? n = some info) : info ∈ infos ∧ info.pvName = n := by
  rw [recordInfoByName_eq] at found
  rcases get?_foldl_addByName found with impossible | here
  · simp at impossible
  · exact here

section Transaction

variable (cfg : CFConfig) (setup : Setup) (env : Env) (t : Transaction)

theorem mem_keys_recordsOf (n : String) :
    n ∈ (recordsOf cfg setup env t).keys ↔ ∃ r ty, t.recordsToAdd.get? r = some (n, ty) := by
  rw [recordsOf, mem_keys_recordInfoByName]
  simp only [transactionToRecordInfos, List.mem_map, Py.Dict.get?_eq_some_iff]
  constructor
  · rintro ⟨-, ⟨⟨r, name, ty⟩, member, rfl⟩, rfl⟩
    exact ⟨r, ty, member⟩
  · rintro ⟨r, ty, member⟩
    exact ⟨_, ⟨⟨r, n, ty⟩, member, rfl⟩, rfl⟩

/-- Where the record info under a name comes from. -/
theorem get?_recordsOf {n : String} {info : RecordInfo}
    (found : (recordsOf cfg setup env t).get? n = some info) :
    ∃ r ty, t.recordsToAdd.get? r = some (n, ty) ∧
      info = recordInfoOf cfg setup (iocInfoOf cfg env t).owner t r n ty := by
  obtain ⟨member, name⟩ := get?_recordInfoByName found
  obtain ⟨⟨r, recordName, ty⟩, inside, rfl⟩ := List.mem_map.mp member
  obtain rfl : recordName = n := name
  exact ⟨r, ty, (Py.Dict.get?_eq_some_iff _ _ _).mpr inside, rfl⟩

variable {setup} in
theorem recordInfoOf_apart (apart : setup.Apart) (owner : String) (r : Nat) (n ty : String) :
    ∀ q ∈ (recordInfoOf cfg setup owner t r n ty).infoProperties,
      q.name ≠ CFPropertyName.iocId.value := by
  intro q member
  rcases List.mem_append.mp member with tagged | mapped
  · cases found : t.recordInfosToAdd.get? r with
    | none => simp [found] at tagged
    | some infos =>
      simp only [found, Option.map_some, Option.getD_some, whitelistedInfos,
        List.mem_filterMap] at tagged
      obtain ⟨tag, listed, value⟩ := tagged
      obtain ⟨v, -, rfl⟩ := Option.map_eq_some_iff.mp value
      exact apart.tags tag listed
  · simp only [applyEnvVars, List.mem_filterMap] at mapped
    obtain ⟨var, listed, value⟩ := mapped
    obtain ⟨v, -, rfl⟩ := Option.map_eq_some_iff.mp value
    exact apart.vars var listed

variable {setup} in
theorem recordsOf_apart (apart : setup.Apart) : InfosApart (recordsOf cfg setup env t) := by
  intro n info found
  obtain ⟨r, ty, -, rfl⟩ := get?_recordsOf cfg setup env t found
  exact recordInfoOf_apart cfg t apart _ r n ty

/-- The record names of the transaction and the alias names of these records. -/
def Transaction.names : List String :=
  t.recordsToAdd.entries.flatMap fun e => e.2.1 :: (t.aliases.get? e.1).getD []

variable {cfg} in
theorem mem_touched {records : Py.Dict String RecordInfo} {n : String} :
    n ∈ touched cfg records ↔ ∃ r ∈ records.keys, n = r ∨ n ∈ aliasesOf cfg records r := by
  simp only [touched, List.mem_flatMap, List.mem_cons, Py.Dict.keys, List.mem_map]
  constructor
  · rintro ⟨e, member, named⟩
    refine ⟨e.1, ⟨e, member, rfl⟩, named.imp id ?_⟩
    intro listed
    have found : records.get? e.1 = some e.2 := (Py.Dict.get?_eq_some_iff _ _ _).mpr member
    simpa [aliasesOf, found] using listed
  · rintro ⟨-, ⟨e, member, rfl⟩, named⟩
    refine ⟨e, member, named.imp id ?_⟩
    intro listed
    have found : records.get? e.1 = some e.2 := (Py.Dict.get?_eq_some_iff _ _ _).mpr member
    simpa [aliasesOf, found] using listed

theorem touched_subset_names : touched cfg (recordsOf cfg setup env t) ⊆ t.names := by
  intro n member
  obtain ⟨record, key, named⟩ := mem_touched.mp member
  obtain ⟨info, found⟩ := (Py.Dict.mem_keys_iff _ _).mp key
  obtain ⟨r, ty, added, rfl⟩ := get?_recordsOf cfg setup env t found
  refine List.mem_flatMap.mpr ⟨(r, record, ty), (Py.Dict.get?_eq_some_iff _ _ _).mp added, ?_⟩
  rcases named with rfl | listed
  · simp
  · unfold aliasesOf at listed
    split at listed
    · rw [found] at listed
      exact List.mem_cons_of_mem _ listed
    · simp at listed

end Transaction

end Recsync.Cf
