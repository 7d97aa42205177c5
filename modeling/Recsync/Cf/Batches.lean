import Mathlib.Data.List.Pairwise
import Recsync.Cf.Records
import Recsync.Cf.RecommitWrites
import Recsync.Recast.Groups

set_option autoImplicit false

/- What a commit writes when the names of its records and aliases are distinct and new to it. -/
namespace Recsync.Cf

open Recast (Upload UploadRecord groupTransaction groupTransactions)

section Written

variable (cfg : CFConfig) (setup : Setup) (ioc : IOCInfo) (records : Py.Dict String RecordInfo)

/-- The entry of a record after the commit, by the entry it had before. -/
def ownEntry (name : String) : Option CFEntry → CFEntry
  | some e => { e with
      properties := mergePropertyLists (newProperties cfg ioc records name) e
        setup.managedProperties }
  | none => ⟨ioc.owner, newProperties cfg ioc records name⟩

/-- The entry of an alias after the commit. It takes nothing over from an older entry. -/
def aliasEntry (name : String) : CFEntry := ⟨ioc.owner, aliasProperties cfg ioc records name⟩

def writtenFor (name : String) (stored : Option CFEntry) : List CFChannel :=
  { ownEntry cfg setup ioc records name stored with name } ::
    (aliasesOf cfg records name).map fun a => { aliasEntry cfg ioc records name with name := a }

theorem foldl_createAlias (name : String) (aliases : List String) (st : NewChannels) :
    aliases.foldl (createAlias cfg ioc records name) st =
      { st with pending := st.pending ++ aliases.map fun a =>
          .fresh { aliasEntry cfg ioc records name with name := a } } := by
  induction aliases generalizing st with
  | nil => simp
  | cons a rest ih =>
    rw [List.foldl_cons, ih]
    simp [createAlias, createFresh, aliasEntry, channel]

/-- An alias that was not looked up is created. -/
theorem foldl_moveAlias (name : String) {aliases : List String} {st : NewChannels}
    (absent : ∀ a ∈ aliases, st.existing.get? a = none) :
    aliases.foldl (moveAlias cfg setup ioc records name) st =
      aliases.foldl (createAlias cfg ioc records name) st := by
  induction aliases generalizing st with
  | nil => rfl
  | cons a rest ih =>
    have head : moveAlias cfg setup ioc records name st a =
      createAlias cfg ioc records name st a := by
      simp [moveAlias, createAlias, absent a (by simp)]
    rw [List.foldl_cons, List.foldl_cons, head]
    exact ih fun b member => absent b (List.mem_cons_of_mem a member)

/-- A turn of the loop whose aliases were not looked up. -/
structure Turn (st st' : NewChannels) (name : String) : Prop where
  others : ∀ m, m ≠ name ∨ st.existing.get? name = none → st'.existing.get? m = st.existing.get? m
  written : ∃ added, st'.pending = st.pending ++ added ∧
    added.map st'.resolve = writtenFor cfg setup ioc records name (st.existing.get? name) ∧
    ∀ m, .existing m ∈ added → m = name

theorem processNewChannel_turn {name : String} {st : NewChannels}
    (absent : ∀ a ∈ aliasesOf cfg records name, st.existing.get? a = none) :
    Turn cfg setup ioc records st (processNewChannel cfg setup ioc records st name) name := by
  unfold processNewChannel
  cases found : st.existing.get? name with
  | none =>
    rw [createNewChannel, foldl_createAlias]
    refine ⟨fun _ _ => rfl, _, List.append_assoc _ _ _, ?_, by simp⟩
    simp [writtenFor, ownEntry, aliasEntry, found, NewChannels.resolve, channel]
  | some e =>
    have still : ∀ a ∈ aliasesOf cfg records name,
        (overwriteExisting setup (newProperties cfg ioc records name) name e st).existing.get? a =
          none := by
      intro a listed
      have other : a ≠ name := by
        rintro rfl
        simp [absent a listed] at found
      rw [overwriteExisting, Py.Dict.get?_set_ne _ _ other]
      exact absent a listed
    dsimp only [updateExistingChannelDiffIocid]
    rw [foldl_moveAlias cfg setup ioc records name still, foldl_createAlias]
    refine ⟨?_, _, List.append_assoc _ _ _, ?_, by simp⟩
    · intro m either
      have other : m ≠ name := either.resolve_right (by simp [found])
      exact Py.Dict.get?_set_ne _ _ other
    · simp [writtenFor, ownEntry, aliasEntry, found, NewChannels.resolve, overwriteExisting]

/-- The loop writes the records one after the other, each by what was stored before. -/
theorem foldl_processNewChannel {order : List String} {st : NewChannels} (nodup : order.Nodup)
    (settled : ∀ m, .existing m ∈ st.pending → m ∉ order)
    (absent : ∀ n ∈ order, ∀ a ∈ aliasesOf cfg records n, st.existing.get? a = none) :
    let st' := order.foldl (processNewChannel cfg setup ioc records) st
    st'.pending.map st'.resolve = st.pending.map st.resolve ++
      order.flatMap fun n => writtenFor cfg setup ioc records n (st.existing.get? n) := by
  induction order generalizing st with
  | nil => simp
  | cons name rest ih =>
    obtain ⟨fresh, restNodup⟩ := List.nodup_cons.mp nodup
    obtain ⟨others, added, pending, resolved, own⟩ :=
      processNewChannel_turn cfg setup ioc records (absent name (by simp))
    rw [List.foldl_cons]
    generalize processNewChannel cfg setup ioc records st name = next at others pending resolved ⊢
    have absentNext : ∀ n ∈ rest, ∀ a ∈ aliasesOf cfg records n, next.existing.get? a = none := by
      intro n member a listed
      have before := absent n (List.mem_cons_of_mem name member) a listed
      by_cases same : a = name
      · subst same
        exact (others a (Or.inr before)).trans before
      · exact (others a (Or.inl same)).trans before
    have settledNext : ∀ m, .existing m ∈ next.pending → m ∉ rest := by
      intro m member
      rw [pending] at member
      rcases List.mem_append.mp member with old | new
      · exact fun later => settled m old (List.mem_cons_of_mem name later)
      · rw [own m new]
        exact fresh
    have kept : st.pending.map next.resolve = st.pending.map st.resolve := by
      apply List.map_congr_left
      intro x member
      cases x with
      | fresh ch => rfl
      | existing m =>
        have other : m ≠ name := fun same => settled m member (by simp [same])
        simp [NewChannels.resolve, others m (Or.inl other)]
    have later : (rest.flatMap fun n => writtenFor cfg setup ioc records n (next.existing.get? n)) =
        rest.flatMap fun n => writtenFor cfg setup ioc records n (st.existing.get? n) := by
      apply List.flatMap_congr
      intro n member
      have other : n ≠ name := fun same => fresh (same ▸ member)
      rw [others n (Or.inl other)]
    have tail := ih restNodup settledNext absentNext
    dsimp only at tail ⊢
    rw [tail, pending, List.map_append, kept, resolved, later, List.flatMap_cons,
      List.append_assoc]

/-- With names that are all distinct, the create and move paths write each record and each
alias once. -/
theorem processNewChannels_eq {client : ChannelFinderAdapter} {env : Env} {s : Store}
    {new : List String} (looked : client.LooksUp env s new) (nodup : new.Nodup)
    (apart : ∀ n ∈ new, ∀ a ∈ aliasesOf cfg records n, a ∉ new) :
    processNewChannels cfg setup ioc records env new (client.getExistingChannels env s new) =
      (env.setOrder new).flatMap fun n => writtenFor cfg setup ioc records n (s.get? n) := by
  have inOrder : ∀ n, n ∈ env.setOrder new ↔ n ∈ new := fun n => (env.setOrder_perm new).mem_iff
  have absent : ∀ n ∈ env.setOrder new, ∀ a ∈ aliasesOf cfg records n,
      (client.getExistingChannels env s new).get? a = none :=
    fun n member a listed => looked.of_not_mem (apart n ((inOrder n).mp member) a listed)
  have loop := @foldl_processNewChannel cfg setup ioc records (env.setOrder new)
    { existing := client.getExistingChannels env s new }
    ((env.setOrder_perm new).nodup_iff.mpr nodup) (by simp) absent
  refine loop.trans ?_
  rw [List.map_nil, List.nil_append]
  apply List.flatMap_congr
  intro n member
  rw [looked.of_mem ((inOrder n).mp member)]

end Written

theorem foldl_addByName_entries {infos : List RecordInfo} {d : Py.Dict String RecordInfo}
    (nodup : (d.keys ++ infos.map RecordInfo.pvName).Nodup) :
    (infos.foldl addByName d).entries = d.entries ++ infos.map fun info => (info.pvName, info) := by
  induction infos generalizing d with
  | nil => simp
  | cons info rest ih =>
    have fresh : info.pvName ∉ d.keys := by
      intro inside
      exact (List.nodup_append.mp nodup).2.2 _ inside info.pvName (by simp) rfl
    have step : (addByName d info).entries = d.entries ++ [(info.pvName, info)] := by
      rw [addByName, if_neg fresh, Py.Dict.entries_set_of_not_mem _ _ fresh]
    have keys : (addByName d info).keys = d.keys ++ [info.pvName] := by
      simp [Py.Dict.keys, step]
    rw [List.foldl_cons, ih (by rw [keys]; simpa using nodup), step]
    simp

/-- Records with distinct names are all kept. -/
theorem recordInfoByName_entries {infos : List RecordInfo}
    (nodup : (infos.map RecordInfo.pvName).Nodup) :
    (recordInfoByName infos).entries = infos.map fun info => (info.pvName, info) := by
  rw [recordInfoByName_eq, foldl_addByName_entries (by simpa using nodup)]
  rfl

section Group

variable (cfg : CFConfig) (setup : Setup)

def uploadIoc (u : Upload) (host : String) (port : Nat) (now : String) : IOCInfo :=
  iocInfoOf cfg { now } { host, port, clientInfos := u.clientInfos }

/-- The record as every transaction that holds it describes it. -/
def uploadRecordInfo (owner : String) (infos : Py.Dict String String) (r : UploadRecord) :
    RecordInfo where
  pvName := r.recordName
  recordType := if cfg.recordTypeEnabled then some r.recordType else none
  infoProperties :=
    (setup.recordPropertyNamesList.filterMap fun tag =>
      (r.info tag).map fun value => ⟨tag, owner, value⟩) ++
      applyEnvVars setup owner { host := "", port := 0, clientInfos := infos }
  aliases := r.aliases

/-- The names that a commit with the record touches. -/
def served (r : UploadRecord) : List String :=
  r.recordName :: if cfg.aliasEnabled then r.aliases else []

theorem served_sublist (r : UploadRecord) : (served cfg r).Sublist r.names := by
  unfold served UploadRecord.names
  split
  · exact List.Sublist.refl _
  · exact (List.nil_sublist _).cons_cons _

theorem flatMap_served_sublist (records : List UploadRecord) :
    (records.flatMap (served cfg)).Sublist (records.flatMap UploadRecord.names) := by
  induction records with
  | nil => exact List.Sublist.refl _
  | cons r rest ih => exact (served_sublist cfg r).append ih

/-- A transaction that holds the group of records of the upload. -/
structure HoldsRecords (u : Upload) (host : String) (port : Nat) (group : List UploadRecord)
    (t : Transaction) : Prop where
  ioc : ∀ env, iocInfoOf cfg env t = uploadIoc cfg u host port env.now
  connected : t.connected = true
  nothingDeleted : t.recordsToDelete = []
  entries : ∀ env, (recordsOf cfg setup env t).entries = group.map fun r =>
    (r.recordName, uploadRecordInfo cfg setup (uploadIoc cfg u host port "").owner u.clientInfos r)

theorem groupTransaction_ioc (u : Upload) (host : String) (port srcid : Nat) (initial : Bool)
    (group : List UploadRecord) (env : Env) :
    iocInfoOf cfg env (groupTransaction host port srcid u.clientInfos initial group).toTransaction =
      uploadIoc cfg u host port env.now := by
  have frame := Recast.groupTransaction_sameFrame host port srcid u.clientInfos initial group
  simp [iocInfoOf, uploadIoc, frame.host, frame.port, frame.clientInfos,
    Recast.CollectionSession.newTransaction]

theorem groupTransaction_holdsRecords (u : Upload) (host : String) (port srcid : Nat)
    (initial : Bool) {group : List UploadRecord} (ids : (group.map UploadRecord.recordId).Nodup)
    (names : (group.map UploadRecord.recordName).Nodup) :
    HoldsRecords cfg setup u host port group
      (groupTransaction host port srcid u.clientInfos initial group).toTransaction := by
  have frame := Recast.groupTransaction_sameFrame host port srcid u.clientInfos initial group
  have holds := Recast.groupTransaction_holds host port srcid u.clientInfos initial ids
  have ioc := groupTransaction_ioc cfg u host port srcid initial group
  generalize groupTransaction host port srcid u.clientInfos initial group = t at frame holds ioc
  refine ⟨ioc, frame.connected, frame.recordsToDelete, ?_⟩
  intro env
  have same : ∀ r ∈ group, recordInfoOf cfg setup (iocInfoOf cfg env t.toTransaction).owner
      t.toTransaction r.recordId r.recordName r.recordType =
        uploadRecordInfo cfg setup (uploadIoc cfg u host port "").owner u.clientInfos r := by
    intro r member
    have listed : r.recordId ∈ t.recordsToAdd.keys := by
      rw [Py.Dict.keys, holds.records, List.map_map]
      exact List.mem_map_of_mem member
    obtain ⟨aliases, info⟩ := Recast.group_speaks ids member
    have tagged (key : String) :
        ((t.recordInfosToAdd.get? r.recordId).getD ∅).get? key = r.info key :=
      (holds.complete.infos r.recordId listed key).trans (info key)
    have tags : ((t.recordInfosToAdd.get? r.recordId).map (whitelistedInfos setup
        (uploadIoc cfg u host port "").owner)).getD [] =
        setup.recordPropertyNamesList.filterMap fun tag =>
          (r.info tag).map fun value => ⟨tag, (uploadIoc cfg u host port "").owner, value⟩ := by
      cases found : t.recordInfosToAdd.get? r.recordId with
      | none =>
        have silent : ∀ key, r.info key = none := by
          intro key
          rw [← tagged key, found]
          rfl
        simp [silent]
      | some infos =>
        have same : ∀ key, infos.get? key = r.info key := by
          intro key
          rw [← tagged key, found]
          rfl
        simp [whitelistedInfos, same]
    have owner : (iocInfoOf cfg env t.toTransaction).owner =
      (uploadIoc cfg u host port "").owner := by
      rw [ioc env]
      rfl
    have vars (who : String) : applyEnvVars setup who t.toTransaction =
        applyEnvVars setup who { host := "", port := 0, clientInfos := u.clientInfos } := by
      simp [applyEnvVars, frame.clientInfos]
    have known : (t.aliases.get? r.recordId).getD [] = r.aliases :=
      (holds.complete.aliases r.recordId listed).trans aliases
    rw [owner, recordInfoOf, tags, vars, known]
    rfl
  rw [recordsOf, transactionToRecordInfos, holds.records, List.map_map]
  have infos : group.map ((fun e => recordInfoOf cfg setup (iocInfoOf cfg env t.toTransaction).owner
      t.toTransaction e.1 e.2.1 e.2.2) ∘ fun r => (r.recordId, r.recordName, r.recordType)) =
        group.map (uploadRecordInfo cfg setup (uploadIoc cfg u host port "").owner u.clientInfos) :=
    List.map_congr_left same
  rw [infos, recordInfoByName_entries (by rwa [List.map_map]), List.map_map]
  rfl

theorem HoldsRecords.keys {u : Upload} {host : String} {port : Nat} {group : List UploadRecord}
    {t : Transaction} (holds : HoldsRecords cfg setup u host port group t) (env : Env) :
    (recordsOf cfg setup env t).keys = group.map UploadRecord.recordName := by
  rw [Py.Dict.keys, holds.entries env, List.map_map]
  rfl

theorem HoldsRecords.get? {u : Upload} {host : String} {port : Nat} {group : List UploadRecord}
    {t : Transaction} (holds : HoldsRecords cfg setup u host port group t) (env : Env)
    {r : UploadRecord} (member : r ∈ group) :
    (recordsOf cfg setup env t).get? r.recordName = some (uploadRecordInfo cfg setup
      (uploadIoc cfg u host port "").owner u.clientInfos r) := by
  rw [Py.Dict.get?_eq_some_iff, holds.entries env]
  exact List.mem_map_of_mem member

theorem HoldsRecords.touched {u : Upload} {host : String} {port : Nat} {group : List UploadRecord}
    {t : Transaction} (holds : HoldsRecords cfg setup u host port group t) (env : Env) :
    touched cfg (recordsOf cfg setup env t) = group.flatMap (served cfg) := by
  rw [Cf.touched, holds.entries env, List.flatMap_map]
  rfl

theorem HoldsRecords.aliasesOf {u : Upload} {host : String} {port : Nat}
    {group : List UploadRecord} {t : Transaction}
    (holds : HoldsRecords cfg setup u host port group t) (env : Env) {r : UploadRecord}
    (member : r ∈ group) :
    r.recordName :: aliasesOf cfg (recordsOf cfg setup env t) r.recordName = served cfg r := by
  rw [Cf.aliasesOf, holds.get? cfg setup env member]
  rfl

/-- The records of a transaction that holds nothing but `r`. -/
def onlyRecord (u : Upload) (host : String) (port : Nat) (r : UploadRecord) :
    Py.Dict String RecordInfo :=
  (∅ : Py.Dict String RecordInfo).set r.recordName
    (uploadRecordInfo cfg setup (uploadIoc cfg u host port "").owner u.clientInfos r)

/-- The entry under one of the names of the record, by the time of its commit and the entry that
was stored before. -/
def uploadedEntry (u : Upload) (host : String) (port : Nat) (now : String) (r : UploadRecord)
    (n : String) (stored : Option CFEntry) : CFEntry :=
  if n = r.recordName then
    ownEntry cfg setup (uploadIoc cfg u host port now) (onlyRecord cfg setup u host port r) n stored
  else
    aliasEntry cfg (uploadIoc cfg u host port now) (onlyRecord cfg setup u host port r) r.recordName

theorem newProperties_congr {ioc : IOCInfo} {records others : Py.Dict String RecordInfo}
    {name : String} (same : records.get? name = others.get? name) :
    newProperties cfg ioc records name = newProperties cfg ioc others name := by
  rw [newProperties, newProperties, same]

theorem unique_of_served {records : List UploadRecord}
    (nodup : (records.flatMap (served cfg)).Nodup) {r r' : UploadRecord} (member : r ∈ records)
    (member' : r' ∈ records) {n : String} (first : n ∈ served cfg r) (second : n ∈ served cfg r') :
    r = r' := by
  apply Classical.byContradiction
  intro different
  have apart := (List.nodup_flatMap.mp nodup).2
  have symmetric : Std.Symm (Function.onFun List.Disjoint (served cfg)) :=
    ⟨fun _ _ disjoint => disjoint.symm⟩
  exact apart.forall member member' different first second

section Writes

variable {u : Upload} {host : String} {port : Nat} {group : List UploadRecord} {t : Transaction}
  (holds : HoldsRecords cfg setup u host port group t)
include holds

theorem HoldsRecords.mem_keys (env : Env) (n : String) :
    n ∈ (recordsOf cfg setup env t).keys ↔ ∃ r ∈ group, r.recordName = n := by
  rw [holds.keys cfg setup env, List.mem_map]

theorem HoldsRecords.aliases_apart (nodup : (group.flatMap (served cfg)).Nodup) (env : Env) :
    ∀ n ∈ (recordsOf cfg setup env t).keys,
      ∀ a ∈ Cf.aliasesOf cfg (recordsOf cfg setup env t) n,
        a ∉ (recordsOf cfg setup env t).keys := by
  intro n key a listed inside
  obtain ⟨r, member, rfl⟩ := (holds.mem_keys cfg setup env n).mp key
  obtain ⟨r', member', rfl⟩ := (holds.mem_keys cfg setup env a).mp inside
  have serves := holds.aliasesOf cfg setup env member
  have here : r'.recordName ∈ served cfg r := by
    rw [← serves]
    exact List.mem_cons_of_mem _ listed
  obtain rfl := unique_of_served cfg nodup member member' here (by simp [served])
  have own := (List.nodup_flatMap.mp nodup).1 r member
  rw [← serves] at own
  exact (List.nodup_cons.mp own).1 listed

/-- The commit writes the channels of the records, one record after the other. -/
theorem HoldsRecords.mem_written (nodup : (group.flatMap (served cfg)).Nodup)
    {client : ChannelFinderAdapter} {env : Env} {s : Store}
    (looked : client.LooksUp env s (recordsOf cfg setup env t).keys) (ch : CFChannel) :
    ch ∈ processNewChannels cfg setup (iocInfoOf cfg env t) (recordsOf cfg setup env t) env
        (recordsOf cfg setup env t).keys
        (client.getExistingChannels env s (recordsOf cfg setup env t).keys) ↔
      ∃ r ∈ group, ch ∈ writtenFor cfg setup (iocInfoOf cfg env t) (recordsOf cfg setup env t)
        r.recordName (s.get? r.recordName) := by
  rw [processNewChannels_eq cfg setup (iocInfoOf cfg env t) (recordsOf cfg setup env t) looked
    (Py.Dict.keys_nodup _) (holds.aliases_apart cfg setup nodup env), List.mem_flatMap]
  constructor
  · rintro ⟨n, asked, member⟩
    have key : n ∈ (recordsOf cfg setup env t).keys := (env.setOrder_perm _).mem_iff.mp asked
    obtain ⟨r, inside, rfl⟩ := (holds.mem_keys cfg setup env n).mp key
    exact ⟨r, inside, member⟩
  · rintro ⟨r, inside, member⟩
    have key := (holds.mem_keys cfg setup env r.recordName).mpr ⟨r, inside, rfl⟩
    exact ⟨r.recordName, (env.setOrder_perm _).mem_iff.mpr key, member⟩

theorem holdsRecords_writes (nodup : (group.flatMap (served cfg)).Nodup)
    {client : ChannelFinderAdapter} {env : Env} {s : Store}
    (looked : client.LooksUp env s (recordsOf cfg setup env t).keys) :
    let written :=
      processNewChannels cfg setup (iocInfoOf cfg env t) (recordsOf cfg setup env t) env
      (recordsOf cfg setup env t).keys
      (client.getExistingChannels env s (recordsOf cfg setup env t).keys)
    (∀ ch ∈ written, ∃ r ∈ group, ch.name ∈ served cfg r ∧
      ch.toCFEntry = uploadedEntry cfg setup u host port env.now r ch.name (s.get? ch.name)) ∧
    ∀ r ∈ group, ∀ n ∈ served cfg r, n ∈ written.map CFChannel.name := by
  have listed := holds.mem_written cfg setup nodup looked
  constructor
  · intro ch member
    obtain ⟨r, inside, here⟩ := (listed ch).mp member
    have serves := holds.aliasesOf cfg setup env inside
    have same : newProperties cfg (iocInfoOf cfg env t) (recordsOf cfg setup env t) r.recordName =
        newProperties cfg (uploadIoc cfg u host port env.now) (onlyRecord cfg setup u host port r)
          r.recordName := by
      rw [holds.ioc env]
      apply newProperties_congr
      rw [holds.get? cfg setup env inside, onlyRecord, Py.Dict.get?_set_self]
    refine ⟨r, inside, ?_⟩
    rcases List.mem_cons.mp here with rfl | isAlias
    · refine ⟨by simp [served], ?_⟩
      rw [uploadedEntry, if_pos rfl]
      show ownEntry _ _ _ _ _ _ = _
      unfold ownEntry
      rw [same, holds.ioc env]
    · obtain ⟨a, known, rfl⟩ := List.mem_map.mp isAlias
      have own := (List.nodup_flatMap.mp nodup).1 r inside
      rw [← serves] at own ⊢
      have other : a ≠ r.recordName := by
        rintro rfl
        exact (List.nodup_cons.mp own).1 known
      refine ⟨List.mem_cons_of_mem _ known, ?_⟩
      rw [uploadedEntry, if_neg other]
      show aliasEntry _ _ _ _ = _
      rw [aliasEntry, aliasProperties, same, holds.ioc env]
      rfl
  · intro r inside n name
    rw [← holds.aliasesOf cfg setup env inside] at name
    rw [List.mem_map]
    rcases List.mem_cons.mp name with rfl | known
    · exact ⟨_, (listed _).mpr ⟨r, inside, List.mem_cons_self⟩, rfl⟩
    · exact ⟨_, (listed _).mpr ⟨r, inside, List.mem_cons_of_mem _ (List.mem_map_of_mem known)⟩, rfl⟩

end Writes

end Group

end Recsync.Cf
