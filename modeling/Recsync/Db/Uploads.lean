import Recsync.Db.History
import Recsync.Recast.Groups

set_option autoImplicit false

/- What the messages of an upload mean for the tables. -/
namespace Recsync.Db

open Recast (SessionCall Upload UploadRecord RecordItem added aliasesOf infoOf clientInfoOf
  added_append aliasesOf_append infoOf_append clientInfoOf_append)
open Runs (EveryStep)

/-- The names that the messages give to a record. -/
def namesGiven (id : Nat) (calls : List SessionCall) : List String :=
  ((added calls).filter fun e => e.1 = id).map (·.2.1) ++ aliasesOf id calls

/-- What may come after some messages of an upload: a record has a new id, and its aliases and
infos come after it. -/
def UploadStep (done : List SessionCall) : SessionCall → Prop
  | .addRecord id _ _ => id ∉ (added done).map Prod.fst
  | .addAlias id name => id ∈ (added done).map Prod.fst ∧ name ∉ namesGiven id done
  | .recInfo id _ _ => id ∈ (added done).map Prod.fst
  | .delRecord _ => False
  | .iocInfo _ _ | .done => True

def keyed (value : String → Option String) : Value → Option Value
  | .text key => (value key).map .text
  | _ => none

def recordOf (calls : List SessionCall) (e : Nat × String × String) : RecordView where
  rtype := .text e.2.2
  names := (.text e.2.1, true) :: (aliasesOf e.1 calls).map fun name => (.text name, false)
  infos := keyed fun key => infoOf e.1 key calls

/-- What the messages say, record by record. -/
def viewOf (calls : List SessionCall) : View where
  infos := keyed fun key => clientInfoOf key calls
  records id := ((added calls).find? fun e => e.1 = id).map (recordOf calls)

section Keyed

variable {value value' : String → Option String}

theorem keyed_update {key text : String} (here : value' key = some text)
    (others : ∀ other, other ≠ key → value' other = value other) :
    keyed value' = Function.update (keyed value) (.text key) (some (.text text)) := by
  funext k
  cases k with
  | text other =>
    by_cases same : other = key
    · subst same
      rw [Function.update_self, keyed, here]
      rfl
    · rw [Function.update_of_ne (by simpa using same), keyed, keyed, others other same]
  | integer n => exact (Function.update_of_ne (by simp) _ _).symm
  | real bits => exact (Function.update_of_ne (by simp) _ _).symm

end Keyed

section Step

variable {done : List SessionCall}

theorem untouched (order : EveryStep UploadStep done) {id : Nat}
    (absent : id ∉ (added done).map Prod.fst) :
    aliasesOf id done = [] ∧ ∀ key, infoOf id key done = none := by
  induction done using List.reverseRecOn with
  | nil => exact ⟨rfl, fun _ => rfl⟩
  | append_singleton front c ih =>
    have step : UploadStep front c := order front c [] rfl
    rw [added_append, List.map_append, List.mem_append, not_or] at absent
    obtain ⟨aliases, infos⟩ := ih order.take absent.1
    rw [aliasesOf_append, aliases, List.nil_append]
    constructor
    · cases c with
      | addAlias target name =>
        have other : target ≠ id := fun same => absent.1 (same ▸ step.1)
        simp [aliasesOf, other]
      | _ => rfl
    · intro key
      rw [infoOf_append, infos key, Option.or_none]
      cases c with
      | recInfo target name value =>
        have other : target ≠ id := fun same => absent.1 (same ▸ step)
        simp [infoOf, other]
      | _ => rfl

theorem keyed_none : keyed (fun _ => none) = fun _ => none := by
  funext k
  cases k <;> rfl

/-- A message that is not about a record leaves its row alone. -/
theorem recordOf_same {c : SessionCall} {e : Nat × String × String}
    (aliases : aliasesOf e.1 [c] = []) (infos : ∀ key, infoOf e.1 key [c] = none) :
    recordOf (done ++ [c]) e = recordOf done e := by
  have names : aliasesOf e.1 (done ++ [c]) = aliasesOf e.1 done := by
    rw [aliasesOf_append, aliases, List.append_nil]
  have values (key : String) : infoOf e.1 key (done ++ [c]) = infoOf e.1 key done := by
    rw [infoOf_append, infos key, Option.none_or]
  simp only [recordOf, names, values]

/-- A message that is about one record at most, and adds none. -/
theorem records_change {c : SessionCall} (id : Nat) (adds : added [c] = [])
    (aliases : ∀ other, other ≠ id → aliasesOf other [c] = [])
    (infos : ∀ other, other ≠ id → ∀ key, infoOf other key [c] = none) :
    (viewOf (done ++ [c])).records = Function.update (viewOf done).records id
      (((added done).find? fun e => e.1 = id).map (recordOf (done ++ [c]))) := by
  funext other
  have same : added (done ++ [c]) = added done := by rw [added_append, adds, List.append_nil]
  simp only [viewOf, same]
  by_cases here : other = id
  · subst here
    rw [Function.update_self]
  · rw [Function.update_of_ne here]
    cases found : (added done).find? fun e => e.1 = other with
    | none => rfl
    | some e =>
      have id : e.1 = other := by simpa using List.find?_some found
      exact congrArg some (recordOf_same (id ▸ aliases other here) (id ▸ infos other here))

theorem receive_iocInfo (key value : String) :
    (viewOf done).receive (.iocInfo key value) = viewOf (done ++ [.iocInfo key value]) := by
  apply View.ext
  · refine (keyed_update ?_ ?_).symm
    · rw [clientInfoOf_append]
      simp [clientInfoOf]
    · intro other different
      rw [clientInfoOf_append]
      simp [clientInfoOf, Ne.symm different]
  · have change := @records_change done (.iocInfo key value) 0 rfl (fun _ _ => rfl) fun _ _ _ => rfl
    have same : recordOf (done ++ [.iocInfo key value]) = recordOf done :=
      funext fun e => recordOf_same rfl fun _ => rfl
    rw [change, same]
    exact (Function.update_eq_self 0 _).symm

theorem receive_addRecord (order : EveryStep UploadStep done) {id : Nat} (rtype name : String)
    (fresh : id ∉ (added done).map Prod.fst) :
    (viewOf done).receive (.addRecord id rtype name) = viewOf (done ++ [.addRecord id rtype name]) := by
  obtain ⟨aliases, infos⟩ := untouched order fresh
  apply View.ext
  · simp [View.receive, View.setRecord, viewOf, clientInfoOf]
  · funext other
    have more : added (done ++ [.addRecord id rtype name]) = added done ++ [(id, name, rtype)] :=
      added_append done _
    simp only [View.receive, View.setRecord, viewOf, more, List.find?_append]
    by_cases here : other = id
    · subst here
      have absent : (added done).find? (fun e => e.1 = other) = none := by
        rw [List.find?_eq_none]
        intro e member same
        exact fresh (List.mem_map.mpr ⟨e, member, of_decide_eq_true same⟩)
      have new : recordOf (done ++ [.addRecord other rtype name]) (other, name, rtype) =
          { rtype := .text rtype, names := [(.text name, true)] } := by
        rw [recordOf_same rfl fun _ => rfl, recordOf, aliases]
        simp only [infos, keyed_none, List.map_nil]
      rw [Function.update_self, absent]
      simp [new]
    · rw [Function.update_of_ne here]
      have last : [(id, name, rtype)].find? (fun e => decide (e.1 = other)) = none := by
        simp [Ne.symm here]
      rw [last, Option.or_none]
      have same : recordOf (done ++ [.addRecord id rtype name]) = recordOf done :=
        funext fun e => recordOf_same rfl fun _ => rfl
      rw [same]

theorem records_receive {c : SessionCall} {id : Nat} {f : RecordView → RecordView}
    (row : ∀ e : Nat × String × String, e.1 = id →
      f (recordOf done e) = recordOf (done ++ [c]) e) :
    ((viewOf done).records id).map f =
      ((added done).find? fun e => e.1 = id).map (recordOf (done ++ [c])) := by
  rw [viewOf, Option.map_map]
  cases found : (added done).find? fun e => e.1 = id with
  | none => rfl
  | some e => exact congrArg some (row e (by simpa using List.find?_some found))

theorem receive_addAlias (id : Nat) (name : String) :
    (viewOf done).receive (.addAlias id name) = viewOf (done ++ [.addAlias id name]) := by
  apply View.ext
  · simp [View.receive, View.insertName, View.setRecord, viewOf, clientInfoOf]
  · rw [records_change id rfl (fun other different => by simp [aliasesOf, Ne.symm different])
      fun _ _ _ => rfl, ← records_receive]
    · rfl
    · rintro e rfl
      have names : aliasesOf e.1 (done ++ [.addAlias e.1 name]) = aliasesOf e.1 done ++ [name] := by
        rw [aliasesOf_append]
        simp [aliasesOf]
      have values (key : String) : infoOf e.1 key (done ++ [.addAlias e.1 name]) =
          infoOf e.1 key done := by
        rw [infoOf_append]
        rfl
      simp [recordOf, names, values]

theorem receive_recInfo (id : Nat) (key value : String) :
    (viewOf done).receive (.recInfo id key value) = viewOf (done ++ [.recInfo id key value]) := by
  apply View.ext
  · simp [View.receive, View.setRecinfo, View.setRecord, viewOf, clientInfoOf]
  · rw [records_change id rfl (fun _ _ => rfl)
      (fun other different k => by simp [infoOf, Ne.symm different]), ← records_receive]
    · rfl
    · rintro e rfl
      have names : aliasesOf e.1 (done ++ [.recInfo e.1 key value]) = aliasesOf e.1 done := by
        rw [aliasesOf_append]
        exact List.append_nil _
      have put : keyed (fun k => infoOf e.1 k (done ++ [.recInfo e.1 key value])) =
          Function.update (keyed fun k => infoOf e.1 k done) (.text key) (some (.text value)) := by
        refine keyed_update ?_ ?_
        · rw [infoOf_append]
          simp [infoOf]
        · intro other different
          rw [infoOf_append]
          simp [infoOf, Ne.symm different]
      rw [recordOf, recordOf, names, put]

theorem history_eq (order : EveryStep UploadStep done) : history done = viewOf done := by
  induction done using List.reverseRecOn with
  | nil =>
    apply View.ext
    · exact keyed_none.symm
    · rfl
  | append_singleton front c ih =>
    have step : UploadStep front c := order front c [] rfl
    rw [history_concat, ih order.take]
    cases c with
    | iocInfo key value => exact receive_iocInfo key value
    | addRecord id rtype name => exact receive_addRecord order.take rtype name step
    | addAlias id name => exact receive_addAlias id name
    | recInfo id key value => exact receive_recInfo id key value
    | delRecord id => exact absurd step not_false
    | done =>
      have same : recordOf (front ++ [.done]) = recordOf front :=
        funext fun e => recordOf_same rfl fun _ => rfl
      simp [View.receive, viewOf, same, added, clientInfoOf]

theorem found_of_added {id : Nat} (known : id ∈ (added done).map Prod.fst) :
    ∃ e ∈ added done, e.1 = id ∧ (viewOf done).records id = some (recordOf done e) := by
  cases found : (added done).find? fun e => e.1 = id with
  | none =>
    obtain ⟨e, member, same⟩ := List.mem_map.mp known
    exact absurd (decide_eq_true same) (List.find?_eq_none.mp found e member)
  | some e =>
    refine ⟨e, List.mem_of_find?_eq_some found, by simpa using List.find?_some found, ?_⟩
    show Option.map _ _ = _
    rw [found]
    rfl

/-- The tables can take what comes next. -/
theorem orderlyCall_of_step (order : EveryStep UploadStep done) {c : SessionCall}
    (step : UploadStep done c) (t : Recast.Transaction) : OrderlyCall (history done) t c := by
  rw [history_eq order]
  cases c with
  | iocInfo key value => trivial
  | done => trivial
  | delRecord id => exact absurd step not_false
  | addRecord id rtype name =>
    show Option.map _ _ = none
    rw [Option.map_eq_none_iff, List.find?_eq_none]
    intro e member same
    exact step (List.mem_map.mpr ⟨e, member, of_decide_eq_true same⟩)
  | recInfo id key value =>
    obtain ⟨e, -, -, found⟩ := found_of_added step
    rw [OrderlyCall, found]
    rfl
  | addAlias id name =>
    obtain ⟨e, member, rfl, found⟩ := found_of_added step.1
    refine ⟨_, found, ?_⟩
    intro given
    apply step.2
    rw [namesGiven, List.mem_append]
    simp only [recordOf, List.map_cons, List.map_map, List.mem_cons, List.mem_map,
      Value.text.injEq] at given
    rcases given with own | ⟨other, listed, same⟩
    · exact Or.inl (List.mem_map.mpr ⟨e, List.mem_filter.mpr ⟨member, by simp⟩, own.symm⟩)
    · obtain rfl : other = name := by simpa using same
      exact Or.inr listed

end Step

section Upload

variable (u : Upload)

theorem added_infoCalls : added u.infoCalls = [] := by
  simp [added, Upload.infoCalls, List.filterMap_map]

theorem added_calls (r : UploadRecord) :
    added r.calls = [(r.recordId, r.recordName, r.recordType)] := by
  have items : added r.itemCalls = [] := by
    rw [added, UploadRecord.itemCalls, List.filterMap_map, List.filterMap_eq_nil_iff]
    intro item _
    cases item <;> rfl
  show [(r.recordId, r.recordName, r.recordType)] ++ added r.itemCalls = _
  rw [items, List.append_nil]

theorem added_records (records : List UploadRecord) : added (records.flatMap UploadRecord.calls) =
    records.map fun r => (r.recordId, r.recordName, r.recordType) := by
  induction records with
  | nil => rfl
  | cons r rest ih =>
    rw [List.flatMap_cons, added_append, added_calls, ih]
    rfl

theorem aliasesOf_calls (id : Nat) (rtype name : String) (items : List RecordItem) (item : RecordItem) :
    aliasesOf id (UploadRecord.calls ⟨id, rtype, name, items ++ [item]⟩) =
      aliasesOf id (UploadRecord.calls ⟨id, rtype, name, items⟩) ++ aliasesOf id [item.call id] := by
  rw [← aliasesOf_append]
  simp [UploadRecord.calls, UploadRecord.itemCalls]

/-- The messages about a new record. -/
theorem record_order {front : List SessionCall} (order : EveryStep UploadStep front) {id : Nat}
    (fresh : id ∉ (added front).map Prod.fst) (rtype name : String) (items : List RecordItem)
    (nodup : (UploadRecord.names ⟨id, rtype, name, items⟩).Nodup) :
    EveryStep UploadStep (front ++ UploadRecord.calls ⟨id, rtype, name, items⟩) := by
  induction items using List.reverseRecOn with
  | nil => exact order.append fresh
  | append_singleton its item ih =>
    have names : UploadRecord.names ⟨id, rtype, name, its ++ [item]⟩ =
        UploadRecord.names ⟨id, rtype, name, its⟩ ++ aliasesOf id [item.call id] :=
      congrArg (name :: ·) (aliasesOf_calls id rtype name its item)
    rw [names, List.nodup_append] at nodup
    have calls : front ++ UploadRecord.calls ⟨id, rtype, name, its ++ [item]⟩ =
        front ++ UploadRecord.calls ⟨id, rtype, name, its⟩ ++ [item.call id] := by
      simp [UploadRecord.calls, UploadRecord.itemCalls]
    have all : added (front ++ UploadRecord.calls ⟨id, rtype, name, its⟩) =
        added front ++ [(id, name, rtype)] := by rw [added_append, added_calls]
    have known : id ∈ (added (front ++ UploadRecord.calls ⟨id, rtype, name, its⟩)).map Prod.fst := by
      rw [all]
      simp
    rw [calls]
    refine (ih nodup.1).append ?_
    cases item with
    | recInfo key value => exact known
    | addAlias a =>
      refine ⟨known, ?_⟩
      have others : (added front).filter (fun e => e.1 = id) = [] := by
        rw [List.filter_eq_nil_iff]
        intro e member same
        exact fresh (List.mem_map.mpr ⟨e, member, of_decide_eq_true same⟩)
      have given : namesGiven id (front ++ UploadRecord.calls ⟨id, rtype, name, its⟩) =
          UploadRecord.names ⟨id, rtype, name, its⟩ := by
        rw [namesGiven, all, List.filter_append, others, aliasesOf_append, (untouched order fresh).1]
        simp [UploadRecord.names, UploadRecord.aliases]
      rw [given]
      intro again
      exact nodup.2.2 a again a (by simp [aliasesOf, RecordItem.call]) rfl

theorem records_order {front : List SessionCall} (order : EveryStep UploadStep front)
    {records : List UploadRecord}
    (fresh : ((added front).map Prod.fst ++ records.map UploadRecord.recordId).Nodup)
    (names : ∀ r ∈ records, r.names.Nodup) :
    EveryStep UploadStep (front ++ records.flatMap UploadRecord.calls) := by
  induction records generalizing front with
  | nil => simpa using order
  | cons r rest ih =>
    rw [List.forall_mem_cons] at names
    rw [List.map_cons, List.append_cons] at fresh
    have new : r.recordId ∉ (added front).map Prod.fst := by
      intro there
      have start := (List.nodup_append.mp fresh).1
      exact (List.nodup_append.mp start).2.2 r.recordId there r.recordId (by simp) rfl
    rw [List.flatMap_cons, ← List.append_assoc]
    refine ih (record_order order new r.recordType r.recordName r.items names.1) ?_ names.2
    rw [added_append, added_calls, List.map_append]
    exact fresh

theorem infoCalls_order : EveryStep UploadStep u.infoCalls := by
  intro done c rest split
  have member : c ∈ u.infoCalls := by rw [split]; simp
  obtain ⟨info, -, rfl⟩ := List.mem_map.mp member
  trivial

theorem calls_order : EveryStep UploadStep u.calls := by
  have records := @records_order u.infoCalls (infoCalls_order u) u.records
    (by rw [added_infoCalls]; exact u.ids_nodup)
    (fun r member => (List.nodup_flatMap.mp u.names_nodup).1 r member)
  rw [Upload.calls, ← List.append_assoc]
  exact records.append trivial

theorem added_upload : added u.calls =
    u.records.map fun r => (r.recordId, r.recordName, r.recordType) := by
  rw [Upload.calls, added_append, added_append, added_infoCalls, added_records]
  exact List.append_nil _

theorem infoCalls_silent (id : Nat) :
    aliasesOf id u.infoCalls = [] ∧ ∀ key, infoOf id key u.infoCalls = none := by
  simp [aliasesOf, infoOf, Upload.infoCalls, List.filterMap_map]

variable {u} {r : UploadRecord}

/-- The upload says about a record what is said after its record message. -/
theorem upload_about (member : r ∈ u.records) : aliasesOf r.recordId u.calls = r.aliases ∧
    ∀ key, infoOf r.recordId key u.calls = r.info key := by
  obtain ⟨front, back, split⟩ := List.append_of_mem member
  have nodup := u.ids_nodup
  rw [split, List.map_append, List.map_cons, List.nodup_append, List.nodup_cons] at nodup
  have before : r.recordId ∉ front.map UploadRecord.recordId := fun there =>
    nodup.2.2 r.recordId there r.recordId List.mem_cons_self rfl
  obtain ⟨frontAliases, frontInfos⟩ := Recast.group_silent before
  obtain ⟨backAliases, backInfos⟩ := Recast.group_silent nodup.2.1.1
  obtain ⟨ownAliases, ownInfos⟩ := infoCalls_silent u r.recordId
  rw [Upload.calls, split, List.flatMap_append, List.flatMap_cons]
  constructor
  · simp only [aliasesOf_append, ownAliases, frontAliases, backAliases, List.nil_append,
      List.append_nil]
    exact List.append_nil _
  · intro key
    simp only [infoOf_append, ownInfos, frontInfos, backInfos, Option.or_none]
    rfl

/-- What the tables say about a record of the upload. -/
theorem history_record (member : r ∈ u.records) : (history u.calls).records r.recordId = some
    { rtype := .text r.recordType
      names := (.text r.recordName, true) :: r.aliases.map fun name => (.text name, false)
      infos := keyed r.info } := by
  have known : r.recordId ∈ (added u.calls).map Prod.fst := by
    rw [added_upload, List.map_map]
    exact List.mem_map.mpr ⟨r, member, rfl⟩
  obtain ⟨e, listed, same, found⟩ := found_of_added known
  rw [added_upload] at listed
  obtain ⟨r', member', rfl⟩ := List.mem_map.mp listed
  obtain rfl : r' = r := List.inj_on_of_nodup_map u.ids_nodup member' member same
  obtain ⟨aliases, infos⟩ := upload_about member
  rw [history_eq (calls_order u), found]
  simp only [recordOf, aliases, infos]

theorem history_noRecord {id : Nat} (absent : id ∉ u.records.map UploadRecord.recordId) :
    (history u.calls).records id = none := by
  rw [history_eq (calls_order u)]
  show Option.map _ _ = none
  rw [Option.map_eq_none_iff, List.find?_eq_none, added_upload]
  intro e member same
  obtain ⟨r, listed, rfl⟩ := List.mem_map.mp member
  exact absent (List.mem_map.mpr ⟨r, listed, of_decide_eq_true same⟩)

/-- The last value that an upload gives to an info of the client. -/
def lastInfo (infos : List (String × String)) (key : String) : Option String :=
  (infos.filterMap fun info => if info.1 = key then some info.2 else none).getLast?

theorem clientInfoOf_records (key : String) (records : List UploadRecord) :
    clientInfoOf key (records.flatMap UploadRecord.calls) = none := by
  induction records with
  | nil => rfl
  | cons r rest ih =>
    have own : clientInfoOf key r.calls = none := by
      rw [clientInfoOf, List.getLast?_eq_none_iff, List.filterMap_eq_nil_iff]
      intro c member
      rcases List.mem_cons.mp member with rfl | later
      · rfl
      · obtain ⟨item, -, rfl⟩ := List.mem_map.mp later
        cases item <;> rfl
    rw [List.flatMap_cons, clientInfoOf_append, own, ih]
    rfl

theorem history_infos : (history u.calls).infos = keyed (lastInfo u.infos) := by
  rw [history_eq (calls_order u)]
  show keyed _ = _
  congr 1
  funext key
  rw [Upload.calls, clientInfoOf_append, clientInfoOf_append, clientInfoOf_records]
  show clientInfoOf key u.infoCalls = _
  rw [clientInfoOf, Upload.infoCalls, List.filterMap_map]
  rfl

/-- The tables can take the next message of an upload. -/
theorem orderlyCall_upload {done : List SessionCall} {c : SessionCall} (next : done ++ [c] <+: u.calls)
    (t : Recast.Transaction) : OrderlyCall (history done) t c := by
  obtain ⟨rest, split⟩ := next
  have order := calls_order u
  rw [← split] at order
  exact orderlyCall_of_step order.take.take (order.take done c [] rfl) t

end Upload

end Recsync.Db
