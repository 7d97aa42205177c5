import Recsync.Db.Model

set_option autoImplicit false

/- What the rows of a server say, and what each statement does to it. -/
namespace Recsync.Db

open Tables

/-- What the rows of a record say: its names with the column `prim`, and its infos. -/
@[ext]
structure RecordView where
  rtype : Value
  names : List (Value × Bool) := []
  infos : Value → Option Value := fun _ => none

/-- What the rows of a server say. -/
@[ext]
structure View where
  infos : Value → Option Value := fun _ => none
  records : Nat → Option RecordView := fun _ => none

namespace Database

variable (db : Database)

def infosOf (rows : List InfoRow) (parent : Nat) : Value → Option Value := fun key =>
  (find InfoRow.index rows (parent, key)).map InfoRow.value

def namesOf (pkey : Nat) : List (Value × Bool) :=
  (db.recordName.filter fun row => decide (row.record = pkey)).map fun row => (row.rname, row.prim)

def recordView (row : RecordRow) : RecordView :=
  ⟨row.rtype, db.namesOf row.pkey, infosOf db.recinfo row.pkey⟩

def view (srvid : Nat) : View where
  infos := infosOf db.servinfo srvid
  records id := (find RecordRow.index db.record (id, srvid)).map db.recordView

def serverIds : List Nat := db.server.map ServerRow.id

def pkeys : List Nat := db.record.map RecordRow.pkey

def rowsOf (srvid : Nat) : List InfoRow × List RecordRow × List NameRow × List InfoRow :=
  let record := db.record.filter fun row => decide (row.host = srvid)
  (db.servinfo.filter fun row => decide (row.parent = srvid), record,
    db.recordName.filter fun row => decide (row.record ∈ record.map RecordRow.pkey),
    db.recinfo.filter fun row => decide (row.parent ∈ record.map RecordRow.pkey))

/-- The constraints of the schema hold. -/
structure Sound : Prop where
  serverKeys : db.serverIds.Nodup
  servinfoKeys : (db.servinfo.map InfoRow.index).Nodup
  servinfoParents : ∀ row ∈ db.servinfo, row.parent ∈ db.serverIds
  recordPkeys : db.pkeys.Nodup
  recordKeys : (db.record.map RecordRow.index).Nodup
  recordHosts : ∀ row ∈ db.record, row.host ∈ db.serverIds
  nameKeys : (db.recordName.map NameRow.index).Nodup
  nameParents : ∀ row ∈ db.recordName, row.record ∈ db.pkeys
  recinfoKeys : (db.recinfo.map InfoRow.index).Nodup
  recinfoParents : ∀ row ∈ db.recinfo, row.parent ∈ db.pkeys

theorem sound_empty : ({} : Database).Sound := by
  constructor <;> simp [serverIds, pkeys]

end Database

namespace View

def setInfo (v : View) (key value : Value) : View :=
  { v with infos := Function.update v.infos key (some value) }

def setRecord (v : View) (id : Nat) (r : Option RecordView) : View :=
  { v with records := Function.update v.records id r }

def insertName (v : View) (id : Nat) (name : Value) (prim : Bool) : View :=
  v.setRecord id ((v.records id).map fun r => { r with names := r.names ++ [(name, prim)] })

def setRecinfo (v : View) (id : Nat) (key value : Value) : View :=
  v.setRecord id ((v.records id).map fun r =>
    { r with infos := Function.update r.infos key (some value) })

end View

namespace Database

variable {db : Database}

theorem Sound.view_absent (sound : db.Sound) {srvid : Nat} (absent : srvid ∉ db.serverIds) :
    db.view srvid = {} := by
  have noInfos : ∀ key, find InfoRow.index db.servinfo (srvid, key) = none := by
    intro key
    rw [find_eq_none_iff]
    intro row member same
    have parent : row.parent = srvid := congrArg Prod.fst same
    exact absent (parent ▸ sound.servinfoParents row member)
  have noRecords : ∀ id, find RecordRow.index db.record (id, srvid) = none := by
    intro id
    rw [find_eq_none_iff]
    intro row member same
    have host : row.host = srvid := congrArg Prod.snd same
    exact absent (host ▸ sound.recordHosts row member)
  apply View.ext
  · funext key
    simp [view, infosOf, noInfos]
  · funext id
    simp [view, noRecords]

/-- A statement that changes what the rows of one server say, and nothing else. -/
structure Turns (db : Database) (srvid : Nat) (v : View) (db' : Database) : Prop where
  sound : db'.Sound
  server : db'.server = db.server
  view : db'.view = Function.update db.view srvid v
  others : ∀ s, s ≠ srvid → db'.rowsOf s = db.rowsOf s

theorem views_eq_update {views views' : Nat → View} {srvid : Nat} {v : View}
    (here : views' srvid = v) (others : ∀ s, s ≠ srvid → views' s = views s) :
    views' = Function.update views srvid v := by
  funext s
  by_cases same : s = srvid
  · subst same
    rw [here, Function.update_self]
  · rw [others s same, Function.update_of_ne same]

theorem infosOf_upsert (rows : List InfoRow) (parent : Nat) (key value : Value) :
    infosOf (upsert InfoRow.index rows ⟨parent, key, value⟩) =
      Function.update (infosOf rows) parent
        (Function.update (infosOf rows parent) key (some value)) := by
  funext p k
  rw [infosOf, find_upsert, InfoRow.index]
  by_cases here : p = parent
  · subst here
    by_cases same : k = key
    · subst same
      simp
    · simp [same, infosOf]
  · simp [here, infosOf]

theorem replaceServinfo_turns (sound : db.Sound) {host : Nat} (known : host ∈ db.serverIds)
    (key value : Value) :
    ∃ db', db.replaceServinfo host key value = .ok db' ∧
      Turns db host ((db.view host).setInfo key value) db' := by
  refine ⟨{ db with servinfo := upsert InfoRow.index db.servinfo ⟨host, key, value⟩ }, ?_, ?_, rfl, ?_, ?_⟩
  · have inside : host ∈ db.server.map ServerRow.id := known
    simp only [replaceServinfo, replaceInfo, if_pos inside]
    rfl
  · refine ⟨sound.serverKeys, nodup_upsert sound.servinfoKeys _, ?_, sound.recordPkeys,
      sound.recordKeys, sound.recordHosts, sound.nameKeys, sound.nameParents, sound.recinfoKeys,
      sound.recinfoParents⟩
    intro row member
    rcases mem_upsert.mp member with ⟨old, -⟩ | rfl
    · exact sound.servinfoParents row old
    · exact known
  · apply views_eq_update
    · exact congrArg (View.mk · _) (by rw [infosOf_upsert, Function.update_self]; rfl)
    · intro srvid other
      exact congrArg (View.mk · _) (by rw [infosOf_upsert, Function.update_of_ne other])
  · intro srvid other
    have elsewhere : ¬ host = srvid := fun same => other same.symm
    refine congrArg (Prod.mk · _) (filter_upsert (by simp [elsewhere]) ?_)
    intro row _ same
    have own : row.parent = host := congrArg Prod.fst same
    simp [own, elsewhere]

/-- The rows that a deletion takes along are those of the records that are gone. -/
theorem Sound.pkey_gone (sound : db.Sound) {gone : RecordRow → Bool} {row : RecordRow}
    (member : row ∈ db.record) :
    row.pkey ∈ (db.record.filter gone).map RecordRow.pkey ↔ gone row = true := by
  constructor
  · intro listed
    obtain ⟨other, inside, same⟩ := List.mem_map.mp listed
    obtain ⟨stored, dropped⟩ := List.mem_filter.mp inside
    rwa [List.inj_on_of_nodup_map sound.recordPkeys stored member same] at dropped
  · intro dropped
    exact List.mem_map_of_mem (List.mem_filter.mpr ⟨member, dropped⟩)

theorem Sound.pkey_left (sound : db.Sound) {gone : RecordRow → Bool} {pkey : Nat}
    (known : pkey ∈ db.pkeys) (kept : pkey ∉ (db.record.filter gone).map RecordRow.pkey) :
    pkey ∈ (db.deleteRecords gone).pkeys := by
  obtain ⟨row, member, rfl⟩ := List.mem_map.mp known
  have stays : gone row ≠ true := fun dropped => kept ((sound.pkey_gone member).mpr dropped)
  exact List.mem_map_of_mem (List.mem_filter.mpr ⟨member, by simpa using stays⟩)

theorem Sound.deleteRecords (sound : db.Sound) (gone : RecordRow → Bool) :
    (db.deleteRecords gone).Sound where
  serverKeys := sound.serverKeys
  servinfoKeys := sound.servinfoKeys
  servinfoParents := sound.servinfoParents
  recordPkeys := nodup_filter sound.recordPkeys _
  recordKeys := nodup_filter sound.recordKeys _
  recordHosts row member := sound.recordHosts row (List.mem_of_mem_filter member)
  nameKeys := nodup_filter sound.nameKeys _
  nameParents row member := by
    obtain ⟨inside, kept⟩ := List.mem_filter.mp member
    exact sound.pkey_left (sound.nameParents row inside) (of_decide_eq_true kept)
  recinfoKeys := nodup_filter sound.recinfoKeys _
  recinfoParents row member := by
    obtain ⟨inside, kept⟩ := List.mem_filter.mp member
    exact sound.pkey_left (sound.recinfoParents row inside) (of_decide_eq_true kept)

/-- A record that stays keeps its names and infos. -/
theorem Sound.recordView_deleteRecords (sound : db.Sound) {gone : RecordRow → Bool}
    {row : RecordRow} (member : row ∈ db.record) (stays : gone row = false) :
    (db.deleteRecords gone).recordView row = db.recordView row := by
  have kept : row.pkey ∉ (db.record.filter gone).map RecordRow.pkey := by
    rw [sound.pkey_gone member, stays]
    simp
  apply RecordView.ext
  · rfl
  · simp only [recordView, namesOf, Database.deleteRecords, List.filter_filter]
    congr 1
    apply List.filter_congr
    intro name _
    by_cases own : name.record = row.pkey
    · simp [own, kept]
    · simp [own]
  · funext key
    simp only [recordView, infosOf, Database.deleteRecords]
    rw [find_filter_of_keeps]
    intro info _ same
    have own : info.parent = row.pkey := congrArg Prod.fst same
    simp [own, kept]

theorem Sound.view_deleteRecords (sound : db.Sound) (g : Nat × Nat → Bool) (srvid : Nat) :
    (db.deleteRecords fun row => g row.index).view srvid =
      { db.view srvid with
        records := fun id => if g (id, srvid) = true then none else (db.view srvid).records id } := by
  apply View.ext
  · rfl
  · funext id
    simp only [view]
    by_cases gone : g (id, srvid) = true
    · rw [if_pos gone, Option.map_eq_none_iff]
      apply find_filter_of_drops
      intro row _ same
      simp [same, gone]
    · rw [if_neg gone]
      have same : find RecordRow.index (db.deleteRecords fun row => g row.index).record (id, srvid) =
          find RecordRow.index db.record (id, srvid) := by
        apply find_filter_of_keeps
        intro row _ same
        simp [same, gone]
      rw [same]
      cases found : find RecordRow.index db.record (id, srvid) with
      | none => rfl
      | some row =>
        obtain ⟨member, index⟩ := mem_of_find found
        rw [Option.map_some, Option.map_some, sound.recordView_deleteRecords member]
        simpa [index] using gone

/-- The primary keys of the records of different servers are different. -/
theorem Sound.pkey_elsewhere (sound : db.Sound) {row : RecordRow} (member : row ∈ db.record)
    {srvid : Nat} (elsewhere : row.host ≠ srvid) :
    row.pkey ∉ (db.record.filter fun row => decide (row.host = srvid)).map RecordRow.pkey := by
  rw [sound.pkey_gone member]
  simpa using elsewhere

theorem Sound.rowsOf_deleteRecords (sound : db.Sound) {gone : RecordRow → Bool} {srvid : Nat}
    (stay : ∀ row, row.host = srvid → gone row = false) :
    (db.deleteRecords gone).rowsOf srvid = db.rowsOf srvid := by
  have record : ((db.deleteRecords gone).record.filter fun row => decide (row.host = srvid)) =
      db.record.filter fun row => decide (row.host = srvid) := by
    simp only [Database.deleteRecords, List.filter_filter]
    apply List.filter_congr
    intro row _
    by_cases own : row.host = srvid
    · simp [own, stay row own]
    · simp [own]
  have kept : ∀ pkey ∈ (db.record.filter fun row => decide (row.host = srvid)).map RecordRow.pkey,
      pkey ∉ (db.record.filter gone).map RecordRow.pkey := by
    intro pkey listed
    obtain ⟨row, inside, rfl⟩ := List.mem_map.mp listed
    obtain ⟨member, own⟩ := List.mem_filter.mp inside
    rw [sound.pkey_gone member, stay row (of_decide_eq_true own)]
    simp
  simp only [rowsOf, record]
  refine congrArg (Prod.mk _) (congrArg (Prod.mk _) ?_)
  simp only [Database.deleteRecords, List.filter_filter]
  refine congr (congrArg Prod.mk ?_) ?_
  · apply List.filter_congr
    intro name _
    by_cases listed : name.record ∈
      (db.record.filter fun row => decide (row.host = srvid)).map RecordRow.pkey
    · simp only [listed, kept _ listed, not_false_eq_true, decide_true, Bool.and_self]
    · simp only [listed, decide_false, Bool.false_and]
  · apply List.filter_congr
    intro info _
    by_cases listed : info.parent ∈
      (db.record.filter fun row => decide (row.host = srvid)).map RecordRow.pkey
    · simp only [listed, kept _ listed, not_false_eq_true, decide_true, Bool.and_self]
    · simp only [listed, decide_false, Bool.false_and]

theorem deleteRecord_turns (sound : db.Sound) (host id : Nat) :
    Turns db host ((db.view host).setRecord id none) (db.deleteRecord host id) := by
  let g : Nat × Nat → Bool := fun index => decide (index.2 = host ∧ index.1 = id)
  have same : db.deleteRecord host id = db.deleteRecords fun row => g row.index := rfl
  rw [same]
  refine ⟨sound.deleteRecords _, rfl, ?_, ?_⟩
  · apply views_eq_update
    · rw [sound.view_deleteRecords]
      apply View.ext
      · rfl
      · funext other
        by_cases here : other = id <;> simp [g, View.setRecord, here]
    · intro srvid other
      rw [sound.view_deleteRecords]
      simp [g, other]
  · intro srvid other
    apply sound.rowsOf_deleteRecords
    intro row own
    have elsewhere : ¬ row.host = host := fun here => other (own.symm.trans here)
    simp [g, RecordRow.index, elsewhere]

theorem Sound.recordView_absent (sound : db.Sound) {row : RecordRow} (absent : row.pkey ∉ db.pkeys) :
    db.recordView row = { rtype := row.rtype } := by
  apply RecordView.ext
  · rfl
  · simp only [recordView, namesOf, List.map_eq_nil_iff, List.filter_eq_nil_iff]
    intro name member own
    exact absent (of_decide_eq_true own ▸ sound.nameParents name member)
  · funext key
    simp only [recordView, infosOf, Option.map_eq_none_iff, find_eq_none_iff]
    intro info member same
    have own : info.parent = row.pkey := congrArg Prod.fst same
    exact absent (own ▸ sound.recinfoParents info member)

/-- A record row with a key, an index and a host of its own keeps the tables sound. -/
theorem Sound.concatRecord (sound : db.Sound) {row : RecordRow} (unused : row.pkey ∉ db.pkeys)
    (missing : find RecordRow.index db.record row.index = none) (known : row.host ∈ db.serverIds) :
    ({ db with record := db.record ++ [row] } : Database).Sound := by
  refine ⟨sound.serverKeys, sound.servinfoKeys, sound.servinfoParents, ?_,
    nodup_concat sound.recordKeys missing, ?_, sound.nameKeys, ?_, sound.recinfoKeys, ?_⟩
  · refine nodup_concat sound.recordPkeys (find_eq_none_iff.mpr ?_)
    intro other member same
    exact unused (same ▸ List.mem_map_of_mem member)
  · intro other member
    rcases List.mem_append.mp member with old | last
    · exact sound.recordHosts other old
    · rw [List.mem_singleton.mp last]
      exact known
  · intro name member
    have old := sound.nameParents name member
    simp only [pkeys, List.map_append, List.mem_append] at old ⊢
    exact Or.inl old
  · intro info member
    have old := sound.recinfoParents info member
    simp only [pkeys, List.map_append, List.mem_append] at old ⊢
    exact Or.inl old

/-- The new row is found under its own index, every other index finds what it found before. -/
theorem Sound.records_concat (sound : db.Sound) {row : RecordRow} (unused : row.pkey ∉ db.pkeys)
    (missing : find RecordRow.index db.record row.index = none) (srvid other : Nat) :
    (({ db with record := db.record ++ [row] } : Database).view srvid).records other =
      if row.index = (other, srvid) then some { rtype := row.rtype }
      else (db.view srvid).records other := by
  simp only [view, find_concat]
  by_cases here : row.index = (other, srvid)
  · rw [if_pos here, if_pos here, ← here, missing]
    exact congrArg some (sound.recordView_absent unused)
  · rw [if_neg here, if_neg here, Option.or_none]
    rfl

theorem insertRecord_turns (sound : db.Sound) {host id : Nat} (known : host ∈ db.serverIds)
    (fresh : (db.view host).records id = none) (rtype : Value) :
    ∃ db', db.insertRecord host id rtype = .ok db' ∧
      Turns db host ((db.view host).setRecord id (some { rtype })) db' := by
  have missing : find RecordRow.index db.record (id, host) = none := by
    simpa [view] using fresh
  have inside : host ∈ db.server.map ServerRow.id := known
  let row : RecordRow := ⟨nextKey db.pkeys, id, rtype, host⟩
  have unused : row.pkey ∉ db.pkeys := nextKey_fresh db.pkeys
  refine ⟨{ db with record := db.record ++ [row] }, ?_, sound.concatRecord unused missing known,
    rfl, ?_, ?_⟩
  · simp only [insertRecord, missing, Option.isSome_none, Bool.false_eq_true, if_false, inside,
      not_true_eq_false]
    rfl
  · have records (srvid other : Nat) :
        ({ db with record := db.record ++ [row] }.view srvid).records other =
          if (id, host) = (other, srvid) then some { rtype } else (db.view srvid).records other :=
      sound.records_concat unused missing srvid other
    apply views_eq_update
    · apply View.ext
      · rfl
      · funext other
        rw [records]
        by_cases here : other = id
        · simp [View.setRecord, here]
        · have different : ¬ id = other := fun same => here same.symm
          simp [View.setRecord, here, different]
    · intro srvid other
      apply View.ext
      · rfl
      · funext k
        rw [records]
        have different : ¬ host = srvid := fun same => other same.symm
        simp [different]
  · intro srvid other
    have elsewhere : ¬ row.host = srvid := fun same => other same.symm
    have record : ((db.record ++ [row]).filter fun row => decide (row.host = srvid)) =
        db.record.filter fun row => decide (row.host = srvid) := by
      simp [List.filter_append, elsewhere]
    simp only [rowsOf, record]

theorem selectRecord_of_view {host id : Nat} {r : RecordView}
    (known : (db.view host).records id = some r) :
    ∃ row ∈ db.record, row.index = (id, host) ∧ db.selectRecord id host = some row.pkey ∧
      db.recordView row = r := by
  obtain ⟨row, found, same⟩ := Option.map_eq_some_iff.mp known
  obtain ⟨member, index⟩ := mem_of_find found
  exact ⟨row, member, index, by simp [selectRecord, found], same⟩

theorem host_ne {row : RecordRow} {host id s : Nat} (index : row.index = (id, host))
    (other : s ≠ host) : row.host ≠ s := by
  have own : row.host = host := congrArg Prod.snd index
  exact fun here => other (here.symm.trans own)

/-- A statement that changes what refers to one record. -/
theorem turns_of_record (sound : db.Sound) {host id : Nat} {row : RecordRow}
    (member : row ∈ db.record) (index : row.index = (id, host)) {db' : Database} (sound' : db'.Sound)
    (server : db'.server = db.server) (servinfo : db'.servinfo = db.servinfo)
    (record : db'.record = db.record)
    (others : ∀ other ∈ db.record, other.pkey ≠ row.pkey → db'.recordView other = db.recordView other)
    (elsewhere : ∀ s, s ≠ host → db'.rowsOf s = db.rowsOf s) :
    Turns db host ((db.view host).setRecord id (some (db'.recordView row))) db' := by
  have found : find RecordRow.index db.record (id, host) = some row := by
    rw [← index]
    exact find_of_mem sound.recordKeys member
  have records (srvid k : Nat) (different : (k, srvid) ≠ (id, host)) :
      (db'.view srvid).records k = (db.view srvid).records k := by
    simp only [view, record]
    cases hit : find RecordRow.index db.record (k, srvid) with
    | none => rfl
    | some other =>
      obtain ⟨inside, at_⟩ := mem_of_find hit
      have apart : other.pkey ≠ row.pkey := by
        intro same
        have equal := List.inj_on_of_nodup_map sound.recordPkeys inside member same
        rw [equal, index] at at_
        exact different at_.symm
      rw [Option.map_some, Option.map_some, others other inside apart]
  refine ⟨sound', server, ?_, elsewhere⟩
  apply views_eq_update
  · apply View.ext
    · simp [view, View.setRecord, servinfo]
    · funext k
      by_cases here : k = id
      · subst here
        simp [view, View.setRecord, record, found]
      · rw [records host k (by simp [here])]
        simp [View.setRecord, here]
  · intro srvid other
    apply View.ext
    · simp [view, servinfo]
    · funext k
      exact records srvid k (by simp [other])

theorem insertName_turns (sound : db.Sound) {host id : Nat} {r : RecordView}
    (known : (db.view host).records id = some r) {name : Value} (fresh : name ∉ r.names.map Prod.fst)
    (prim : Bool) :
    ∃ db', db.insertName host id name prim = .ok db' ∧
      Turns db host ((db.view host).insertName id name prim) db' := by
  obtain ⟨row, member, index, selected, rfl⟩ := selectRecord_of_view known
  have missing : find NameRow.index db.recordName (row.pkey, name) = none := by
    rw [find_eq_none_iff]
    intro other inside same
    obtain ⟨own, equal⟩ : other.record = row.pkey ∧ other.rname = name := by
      simpa [NameRow.index] using same
    apply fresh
    simp only [recordView, namesOf, List.map_map, List.mem_map, List.mem_filter]
    exact ⟨other, ⟨inside, by simp [own]⟩, equal⟩
  let db' : Database := { db with recordName := db.recordName ++ [⟨row.pkey, name, prim⟩] }
  have sound' : db'.Sound := by
    refine ⟨sound.serverKeys, sound.servinfoKeys, sound.servinfoParents, sound.recordPkeys,
      sound.recordKeys, sound.recordHosts, nodup_concat sound.nameKeys missing, ?_,
      sound.recinfoKeys, sound.recinfoParents⟩
    intro other inside
    rcases List.mem_append.mp inside with old | last
    · exact sound.nameParents other old
    · rw [List.mem_singleton.mp last]
      exact List.mem_map_of_mem member
  refine ⟨db', by simp [insertName, selected, missing, db'], ?_⟩
  have others : ∀ other ∈ db.record, other.pkey ≠ row.pkey →
      db'.recordView other = db.recordView other := by
    intro other _ apart
    apply RecordView.ext
    · rfl
    · have different : ¬ row.pkey = other.pkey := fun same => apart same.symm
      simp [recordView, namesOf, db', different]
    · rfl
  have elsewhere : ∀ s, s ≠ host → db'.rowsOf s = db.rowsOf s := by
    intro srvid other
    have unlisted := sound.pkey_elsewhere member (host_ne index other)
    refine congrArg (Prod.mk _) (congrArg (Prod.mk _) (congrArg (Prod.mk · _) ?_))
    simp only [db', List.filter_append, List.filter_cons, unlisted, decide_false,
      Bool.false_eq_true, if_false, List.filter_nil, List.append_nil]
  have turned := turns_of_record sound member index sound' rfl rfl rfl others elsewhere
  have view : (db.view host).setRecord id (some (db'.recordView row)) =
      (db.view host).insertName id name prim := by
    rw [View.insertName, known]
    simp [recordView, namesOf, db']
  rwa [view] at turned

theorem replaceRecinfo_turns (sound : db.Sound) {host id : Nat} {r : RecordView}
    (known : (db.view host).records id = some r) (key value : Value) :
    ∃ db', db.replaceRecinfo host id key value = .ok db' ∧
      Turns db host ((db.view host).setRecinfo id key value) db' := by
  obtain ⟨row, member, index, selected, rfl⟩ := selectRecord_of_view known
  have listed : row.pkey ∈ db.record.map RecordRow.pkey := List.mem_map_of_mem member
  let db' : Database := { db with recinfo := upsert InfoRow.index db.recinfo ⟨row.pkey, key, value⟩ }
  have sound' : db'.Sound := by
    refine ⟨sound.serverKeys, sound.servinfoKeys, sound.servinfoParents, sound.recordPkeys,
      sound.recordKeys, sound.recordHosts, sound.nameKeys, sound.nameParents,
      nodup_upsert sound.recinfoKeys _, ?_⟩
    intro info inside
    rcases mem_upsert.mp inside with ⟨old, -⟩ | rfl
    · exact sound.recinfoParents info old
    · exact listed
  refine ⟨db', ?_, ?_⟩
  · simp only [replaceRecinfo, replaceInfo, selected, if_pos listed]
    rfl
  have others : ∀ other ∈ db.record, other.pkey ≠ row.pkey →
      db'.recordView other = db.recordView other := by
    intro other _ apart
    apply RecordView.ext
    · rfl
    · rfl
    · simp only [recordView, db', infosOf_upsert, Function.update_of_ne apart]
  have elsewhere : ∀ s, s ≠ host → db'.rowsOf s = db.rowsOf s := by
    intro srvid other
    have unlisted := sound.pkey_elsewhere member (host_ne index other)
    refine congrArg (Prod.mk _) (congrArg (Prod.mk _) (congrArg (Prod.mk _) ?_))
    refine filter_upsert (decide_eq_false unlisted) ?_
    intro info _ same
    have own : info.parent = row.pkey := congrArg Prod.fst same
    rw [own]
    exact decide_eq_false unlisted
  have turned := turns_of_record sound member index sound' rfl rfl rfl others elsewhere
  have view : (db.view host).setRecord id (some (db'.recordView row)) =
      (db.view host).setRecinfo id key value := by
    rw [View.setRecinfo, known]
    simp [recordView, namesOf, db', infosOf_upsert]
  rwa [view] at turned

theorem Sound.insertServer (sound : db.Sound) (hostname : String) (port : Nat) (owner : Int) :
    (db.insertServer hostname port owner).Sound := by
  have ids : (db.insertServer hostname port owner).serverIds =
      db.serverIds ++ [nextKey db.serverIds] := by
    simp [serverIds, Database.insertServer]
  have kept {id : Nat} (old : id ∈ db.serverIds) :
      id ∈ (db.insertServer hostname port owner).serverIds := by
    rw [ids]
    exact List.mem_append_left _ old
  refine ⟨?_, sound.servinfoKeys, fun row member => kept (sound.servinfoParents row member),
    sound.recordPkeys, sound.recordKeys, fun row member => kept (sound.recordHosts row member),
    sound.nameKeys, sound.nameParents, sound.recinfoKeys, sound.recinfoParents⟩
  rw [ids, List.nodup_append]
  refine ⟨sound.serverKeys, List.nodup_singleton _, ?_⟩
  intro a inside b last same
  obtain rfl : b = nextKey db.serverIds := by simpa using last
  exact nextKey_fresh _ (same ▸ inside)

/-- The new row is selected when there was none with its endpoint. -/
theorem selectServer_insertServer (hostname : String) (port : Nat) (owner : Int) :
    (db.insertServer hostname port owner).selectServer hostname port owner =
      some ((find ServerRow.endpoint db.server (hostname, port, owner)).getD
        ⟨nextKey db.serverIds, owner, hostname, port⟩).id := by
  rw [selectServer, Database.insertServer, find_concat]
  cases find ServerRow.endpoint db.server (hostname, port, owner) with
  | none => simp [ServerRow.endpoint, serverIds]
  | some row => rfl

/-- The owner in the condition takes no row away, since the ids of the servers are unique. -/
theorem Sound.server_gone (sound : db.Sound) {row : ServerRow} (member : row ∈ db.server) :
    ∀ other ∈ db.server,
      decide (other.id = row.id ∧ other.owner = row.owner) = decide (other.id = row.id) := by
  intro other inside
  by_cases same : other.id = row.id
  · have equal := List.inj_on_of_nodup_map sound.serverKeys inside member same
    simp [equal]
  · simp [same]

theorem Sound.mem_ids_gone (sound : db.Sound) {row : ServerRow} (member : row ∈ db.server) {id : Nat} :
    id ∈ (db.server.filter fun other =>
      decide (other.id = row.id ∧ other.owner = row.owner)).map ServerRow.id ↔ id = row.id := by
  rw [List.filter_congr (sound.server_gone member)]
  constructor
  · intro listed
    obtain ⟨other, inside, rfl⟩ := List.mem_map.mp listed
    exact of_decide_eq_true (List.mem_filter.mp inside).2
  · rintro rfl
    exact List.mem_map_of_mem (List.mem_filter.mpr ⟨member, by simp⟩)

/-- The rows of the server and of its records go. The records go first here, so that every state in
between satisfies the schema. -/
theorem Sound.deleteServer_eq (sound : db.Sound) {row : ServerRow} (member : row ∈ db.server) :
    db.deleteServer row.id row.owner =
      { db.deleteRecords (fun record => decide (record.index.2 = row.id)) with
        server := db.server.filter fun other => decide (other.id ≠ row.id)
        servinfo := db.servinfo.filter fun info => decide (info.parent ≠ row.id) } := by
  have server : (db.server.filter fun other =>
      !decide (other.id = row.id ∧ other.owner = row.owner)) =
        db.server.filter fun other => decide (other.id ≠ row.id) := by
    apply List.filter_congr
    intro other inside
    rw [sound.server_gone member other inside]
    simp
  have infos : (fun info : InfoRow => decide (info.parent ∉ (db.server.filter fun other =>
      decide (other.id = row.id ∧ other.owner = row.owner)).map ServerRow.id)) =
        fun info => decide (info.parent ≠ row.id) := by
    funext info
    rw [decide_eq_decide, sound.mem_ids_gone member]
  have hosts : (fun record : RecordRow => decide (record.host ∈ (db.server.filter fun other =>
      decide (other.id = row.id ∧ other.owner = row.owner)).map ServerRow.id)) =
        fun record => decide (record.index.2 = row.id) := by
    funext record
    rw [decide_eq_decide, sound.mem_ids_gone member]
    rfl
  unfold Database.deleteServer
  dsimp only
  rw [server, infos, hosts]
  rfl

section DeleteServer

variable {row : ServerRow}

theorem Sound.sound_deleteServer (sound : db.Sound) (member : row ∈ db.server) :
    (db.deleteServer row.id row.owner).Sound := by
  have without := sound.deleteRecords fun record => decide (record.index.2 = row.id)
  rw [sound.deleteServer_eq member]
  have left : ∀ id ∈ db.serverIds, id ≠ row.id →
      id ∈ (db.server.filter fun other => decide (other.id ≠ row.id)).map ServerRow.id := by
    intro id listed other
    obtain ⟨stored, inside, rfl⟩ := List.mem_map.mp listed
    exact List.mem_map_of_mem (List.mem_filter.mpr ⟨inside, by simpa using other⟩)
  constructor
  · exact nodup_filter sound.serverKeys _
  · exact nodup_filter sound.servinfoKeys _
  · intro info inside
    obtain ⟨stored, kept⟩ := List.mem_filter.mp inside
    exact left _ (sound.servinfoParents info stored) (of_decide_eq_true kept)
  · exact without.recordPkeys
  · exact without.recordKeys
  · intro record inside
    obtain ⟨stored, kept⟩ := List.mem_filter.mp inside
    have other : record.index.2 ≠ row.id := by simpa using kept
    exact left _ (sound.recordHosts record stored) other
  · exact without.nameKeys
  · exact without.nameParents
  · exact without.recinfoKeys
  · exact without.recinfoParents

theorem Sound.view_deleteServer (sound : db.Sound) (member : row ∈ db.server) :
    (db.deleteServer row.id row.owner).view = Function.update db.view row.id {} := by
  have views (srvid : Nat) : (db.deleteServer row.id row.owner).view srvid =
      { infos := infosOf (db.servinfo.filter fun info => decide (info.parent ≠ row.id)) srvid
        records := ((db.deleteRecords fun record =>
          decide (record.index.2 = row.id)).view srvid).records } := by
    rw [sound.deleteServer_eq member]
    rfl
  have deleted := sound.view_deleteRecords fun index => decide (index.2 = row.id)
  apply views_eq_update
  · rw [views, deleted]
    apply View.ext
    · funext key
      simp only [infosOf, Option.map_eq_none_iff]
      apply find_filter_of_drops
      intro info _ index
      have own : info.parent = row.id := congrArg Prod.fst index
      simp [own]
    · funext id
      simp
  · intro srvid other
    rw [views, deleted]
    apply View.ext
    · funext key
      simp only [infosOf, view]
      rw [find_filter_of_keeps]
      intro info _ index
      have own : info.parent = srvid := congrArg Prod.fst index
      simp [own, other]
    · funext id
      simp [other]

theorem Sound.rowsOf_deleteServer (sound : db.Sound) (member : row ∈ db.server) {srvid : Nat}
    (other : srvid ≠ row.id) : (db.deleteServer row.id row.owner).rowsOf srvid = db.rowsOf srvid := by
  have records := @Sound.rowsOf_deleteRecords db sound
    (fun record => decide (record.index.2 = row.id)) srvid (by
      intro record own
      simp [RecordRow.index, own, other])
  rw [← records, sound.deleteServer_eq member]
  refine congrArg (Prod.mk · _) ?_
  simp only [List.filter_filter]
  apply List.filter_congr
  intro info _
  by_cases own : info.parent = srvid
  · simp [own, other]
  · simp [own]

theorem Sound.deleteServer (sound : db.Sound) (member : row ∈ db.server) :
    (db.deleteServer row.id row.owner).Sound ∧
      (db.deleteServer row.id row.owner).server =
        db.server.filter (fun other => decide (other.id ≠ row.id)) ∧
      (db.deleteServer row.id row.owner).view = Function.update db.view row.id {} ∧
      ∀ s, s ≠ row.id → (db.deleteServer row.id row.owner).rowsOf s = db.rowsOf s :=
  ⟨sound.sound_deleteServer member, congrArg Database.server (sound.deleteServer_eq member),
    sound.view_deleteServer member, fun _ => sound.rowsOf_deleteServer member⟩

end DeleteServer

end Database

end Recsync.Db
