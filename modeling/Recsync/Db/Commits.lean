import Recsync.Db.Rows
import Recsync.Lib.Runs

set_option autoImplicit false

/- What a transaction does to the rows of its server. -/
namespace Recsync.Db

open Recast (Transaction)
open Tables

namespace View

/-- Change what the rows of a record say, if there is one. -/
def mapRecord (v : View) (id : Nat) (f : RecordView → RecordView) : View :=
  v.setRecord id ((v.records id).map f)

def putInfos (stored : String → Value) (infos : Value → Option Value)
    (entries : List (String × String)) : Value → Option Value :=
  entries.foldl (fun f e => Function.update f (stored e.1) (some (stored e.2))) infos

/-- The record under an id, after the deletions and with the records that are added. -/
def renewed (cfg : DbConfig) (t : Transaction) (v : View) (id : Nat) : Option RecordView :=
  match t.recordsToAdd.get? id with
  | some (name, rtype) => some { rtype := cfg.stored rtype, names := [(cfg.stored name, true)] }
  | none => if id ∈ t.recordsToDelete then none else v.records id

def commit (cfg : DbConfig) (t : Transaction) (v : View) : View where
  infos := putInfos cfg.stored v.infos t.clientInfos.entries
  records id := (v.renewed cfg t id).map fun r => { r with
    names := r.names ++ ((t.aliases.get? id).getD []).map fun name => (cfg.stored name, false)
    infos := putInfos cfg.stored r.infos (((t.recordInfosToAdd.get? id).map Py.Dict.entries).getD []) }

/-- Aliases and infos are about records that are there, and no name comes twice. -/
structure Fits (cfg : DbConfig) (v : View) (t : Transaction) : Prop where
  aliases : ∀ id names, t.aliases.get? id = some names → names ≠ [] →
    ∃ r, v.renewed cfg t id = some r ∧ (r.names.map Prod.fst ++ names.map cfg.stored).Nodup
  infos : ∀ id infos, t.recordInfosToAdd.get? id = some infos → infos.entries ≠ [] →
    (v.renewed cfg t id).isSome

/-- The records of the first view are in the second one, as they are. -/
def Extends (v v' : View) : Prop := ∀ id r, v.records id = some r → v'.records id = some r

section Extends

variable {cfg : DbConfig} {t : Transaction} {v v' : View}

theorem extends_empty (v : View) : Extends {} v := by
  intro id r found
  cases found

theorem Extends.renewed (part : v.Extends v') {id : Nat} {r : RecordView}
    (found : v.renewed cfg t id = some r) : v'.renewed cfg t id = some r := by
  unfold View.renewed at found ⊢
  split at found
  · exact found
  · split at found
    · cases found
    · next kept => rw [if_neg kept, part id r found]

theorem Extends.commit (part : v.Extends v') : (v.commit cfg t).Extends (v'.commit cfg t) := by
  intro id r found
  obtain ⟨old, renewed, rfl⟩ := Option.map_eq_some_iff.mp found
  exact Option.map_eq_some_iff.mpr ⟨old, part.renewed renewed, rfl⟩

theorem Fits.extends (fits : v.Fits cfg t) (part : v.Extends v') : v'.Fits cfg t where
  aliases id names found nonempty := by
    obtain ⟨r, here, distinct⟩ := fits.aliases id names found nonempty
    exact ⟨r, part.renewed here, distinct⟩
  infos id infos found nonempty := by
    obtain ⟨r, here⟩ := Option.isSome_iff_exists.mp (fits.infos id infos found nonempty)
    exact Option.isSome_iff_exists.mpr ⟨r, part.renewed here⟩

end Extends

section Folds

variable {β : Type}

theorem foldl_setInfo_records (stored : String → Value) (entries : List (String × String))
    (v : View) :
    entries.foldl (fun v e => v.setInfo (stored e.1) (stored e.2)) v =
      { v with infos := putInfos stored v.infos entries } := by
  induction entries generalizing v with
  | nil => rfl
  | cons e rest ih => exact ih (v.setInfo (stored e.1) (stored e.2))

/-- Independent changes of records, one after the other. -/
theorem foldl_mapRecord (target : β → Nat) (f : β → RecordView → RecordView) (l : List β) (v : View)
    (id : Nat) :
    (l.foldl (fun v x => v.mapRecord (target x) (f x)) v).records id =
      (v.records id).map fun r =>
        (l.filter fun x => decide (target x = id)).foldl (fun r x => f x r) r := by
  induction l generalizing v with
  | nil => simp
  | cons x rest ih =>
    rw [List.foldl_cons, ih, List.filter_cons]
    by_cases here : target x = id
    · subst here
      simp [mapRecord, setRecord, Function.comp_def]
    · have other : ¬ id = target x := fun same => here same.symm
      simp [mapRecord, setRecord, here, other]

theorem foldl_mapRecord_infos (target : β → Nat) (f : β → RecordView → RecordView) (l : List β)
    (v : View) : (l.foldl (fun v x => v.mapRecord (target x) (f x)) v).infos = v.infos := by
  induction l generalizing v with
  | nil => rfl
  | cons x rest ih => exact ih _

theorem foldl_delete_records (ids : List Nat) (v : View) :
    ids.foldl (fun v id => v.setRecord id none) v =
      { v with records := fun id => if id ∈ ids then none else v.records id } := by
  induction ids generalizing v with
  | nil => simp
  | cons id rest ih =>
    rw [List.foldl_cons, ih]
    apply View.ext
    · rfl
    · funext other
      by_cases later : other ∈ rest
      · simp [later]
      · by_cases here : other = id <;> simp [later, here, setRecord]

/-- Of several writes to a record the last one counts. -/
theorem foldl_setRecord (target : β → Nat) (f : β → Option RecordView) (l : List β) (v : View)
    (id : Nat) :
    (l.foldl (fun v x => v.setRecord (target x) (f x)) v).records id =
      ((l.filter fun x => decide (target x = id)).getLast?.map f).getD (v.records id) := by
  induction l generalizing v with
  | nil => rfl
  | cons x rest ih =>
    rw [List.foldl_cons, ih, List.filter_cons]
    by_cases here : target x = id
    · subst here
      simp only [setRecord, decide_true, if_true, Function.update_self, List.getLast?_cons,
        Option.map_some, Option.getD_some]
      cases (rest.filter fun y => decide (target y = target x)).getLast? <;> rfl
    · have other : ¬ id = target x := fun same => here same.symm
      simp [setRecord, here, other]

theorem foldl_setRecord_infos (target : β → Nat) (f : β → Option RecordView) (l : List β)
    (v : View) : (l.foldl (fun v x => v.setRecord (target x) (f x)) v).infos = v.infos := by
  induction l generalizing v with
  | nil => rfl
  | cons x rest ih => exact ih _

end Folds

end View

namespace Database

variable {db db' db'' : Database} {srvid : Nat} {v v' : View}

theorem Turns.refl (sound : db.Sound) (srvid : Nat) : Turns db srvid (db.view srvid) db :=
  ⟨sound, rfl, (Function.update_eq_self _ _).symm, fun _ _ => rfl⟩

theorem Turns.trans (first : Turns db srvid v db') (second : Turns db' srvid v' db'') :
    Turns db srvid v' db'' where
  sound := second.sound
  server := second.server.trans first.server
  view := by rw [second.view, first.view, Function.update_idem]
  others s other := (second.others s other).trans (first.others s other)

theorem Turns.here (turns : Turns db srvid v db') : db'.view srvid = v := by
  rw [turns.view, Function.update_self]

theorem Turns.serverIds (turns : Turns db srvid v db') : db'.serverIds = db.serverIds := by
  rw [Database.serverIds, Database.serverIds, turns.server]

/-- `executemany`: the statement runs for every row, each one where the rows before have led. -/
theorem foldlM_turns {β : Type} {op : Database → β → Except DbError Database}
    {act : View → β → View} {pre : View → β → Prop}
    (step : ∀ db x, db.Sound → srvid ∈ db.serverIds → pre (db.view srvid) x →
      ∃ db', op db x = .ok db' ∧ Turns db srvid (act (db.view srvid) x) db')
    {rows : List β} (sound : db.Sound) (known : srvid ∈ db.serverIds)
    (ready : Runs.EveryStep (fun done x => pre (done.foldl act (db.view srvid)) x) rows) :
    ∃ db', rows.foldlM op db = .ok db' ∧ Turns db srvid (rows.foldl act (db.view srvid)) db' := by
  induction rows generalizing db with
  | nil => exact ⟨db, rfl, Turns.refl sound srvid⟩
  | cons x rest ih =>
    obtain ⟨next, ran, turned⟩ := step db x sound known (ready [] x rest rfl)
    have later : Runs.EveryStep (fun done x => pre (done.foldl act (next.view srvid)) x) rest := by
      intro done y after split
      rw [turned.here]
      exact ready (x :: done) y after (by rw [split]; rfl)
    obtain ⟨last, ranRest, turnedRest⟩ := ih turned.sound (turned.serverIds ▸ known) later
    rw [turned.here] at turnedRest
    refine ⟨last, ?_, turned.trans turnedRest⟩
    rw [List.foldlM_cons, ran]
    exact ranRest

theorem foldl_deleteRecord_turns (sound : db.Sound) (ids : List Nat) :
    Turns db srvid (ids.foldl (fun v id => v.setRecord id none) (db.view srvid))
      (ids.foldl (fun db id => db.deleteRecord srvid id) db) := by
  induction ids generalizing db with
  | nil => exact Turns.refl sound srvid
  | cons id rest ih =>
    have first := deleteRecord_turns sound srvid id
    have later := ih first.sound
    rw [first.here] at later
    exact first.trans later

end Database

section Stages

variable (cfg : DbConfig) (t : Transaction) (v : View)

def View.cleared : View where
  infos := View.putInfos cfg.stored v.infos t.clientInfos.entries
  records id := if id ∈ t.recordsToAdd.keys ++ t.recordsToDelete then none else v.records id

/-- After the new rows of `record`. -/
def View.started : View :=
  t.recordsToAdd.entries.foldl (fun v e => v.setRecord e.1 (some { rtype := cfg.stored e.2.2 }))
    (v.cleared cfg t)

def View.named : View :=
  t.recordsToAdd.entries.foldl (fun v e => v.insertName e.1 (cfg.stored e.2.1) true)
    (v.started cfg t)

def View.aliased : View :=
  (aliasRows t).foldl (fun v e => v.insertName e.1 (cfg.stored e.2) false) (v.named cfg t)

theorem foldl_names {β : Type} (name : β → Value) (prim : Bool) (l : List β) (r : RecordView) :
    l.foldl (fun r x => { r with names := r.names ++ [(name x, prim)] }) r =
      { r with names := r.names ++ l.map fun x => (name x, prim) } := by
  induction l generalizing r with
  | nil => simp
  | cons x rest ih =>
    rw [List.foldl_cons, ih]
    simp

theorem foldl_insertName_records {β : Type} (target : β → Nat) (name : β → Value) (prim : Bool)
    (l : List β) (v : View) (id : Nat) :
    (l.foldl (fun v x => v.insertName (target x) (name x) prim) v).records id =
      (v.records id).map fun r => { r with
        names := r.names ++ (l.filter fun x => decide (target x = id)).map fun x => (name x, prim) } := by
  have all := View.foldl_mapRecord target
    (fun x r => { r with names := r.names ++ [(name x, prim)] }) l v id
  simp only [foldl_names] at all
  exact all

theorem View.started_records (id : Nat) :
    (v.started cfg t).records id =
      match t.recordsToAdd.get? id with
      | some (_, rtype) => some { rtype := cfg.stored rtype }
      | none => if id ∈ t.recordsToDelete then none else v.records id := by
  have last := View.foldl_setRecord Prod.fst
    (fun e : Nat × String × String => some { rtype := cfg.stored e.2.2 })
    t.recordsToAdd.entries (v.cleared cfg t) id
  rw [Py.Dict.filter_entries] at last
  refine last.trans ?_
  cases found : t.recordsToAdd.get? id with
  | none =>
    have other : id ∉ t.recordsToAdd.keys := (Py.Dict.get?_eq_none_iff _ _).mp found
    simp [View.cleared, other]
  | some record => simp

theorem View.named_records (id : Nat) : (v.named cfg t).records id = v.renewed cfg t id := by
  have names := foldl_insertName_records Prod.fst (fun e : Nat × String × String => cfg.stored e.2.1)
    true t.recordsToAdd.entries (v.started cfg t) id
  rw [Py.Dict.filter_entries, View.started_records] at names
  refine names.trans ?_
  unfold View.renewed
  cases found : t.recordsToAdd.get? id with
  | none => simp
  | some record => simp

/-- The rows of `aliases` for a record. -/
theorem filter_aliasRows (id : Nat) :
    (aliasRows t).filter (fun e => decide (e.1 = id)) =
      ((t.aliases.get? id).getD []).map fun name => (id, name) := by
  have all := Py.Dict.filter_flatMap t.aliases (fun names => names) id
  simpa [aliasRows] using all

theorem filter_recinfoRows (id : Nat) :
    (recinfoRows t).filter (fun e => decide (e.1 = id)) =
      (((t.recordInfosToAdd.get? id).map Py.Dict.entries).getD []).map fun info => (id, info) :=
  Py.Dict.filter_flatMap t.recordInfosToAdd Py.Dict.entries id

theorem View.aliased_records (id : Nat) :
    (v.aliased cfg t).records id = (v.renewed cfg t id).map fun r => { r with
      names := r.names ++ ((t.aliases.get? id).getD []).map fun name => (cfg.stored name, false) } := by
  have names := foldl_insertName_records Prod.fst (fun e : Nat × String => cfg.stored e.2) false
    (aliasRows t) (v.named cfg t) id
  rw [filter_aliasRows, View.named_records] at names
  simpa [View.aliased, Function.comp_def] using names

theorem View.aliased_infos : (v.aliased cfg t).infos = (v.cleared cfg t).infos := by
  have third := View.foldl_mapRecord_infos Prod.fst
    (fun (e : Nat × String) (r : RecordView) => { r with names := r.names ++ [(cfg.stored e.2, false)] })
    (aliasRows t) (v.named cfg t)
  have second := View.foldl_mapRecord_infos Prod.fst
    (fun (e : Nat × String × String) (r : RecordView) =>
      { r with names := r.names ++ [(cfg.stored e.2.1, true)] })
    t.recordsToAdd.entries (v.started cfg t)
  have first := View.foldl_setRecord_infos Prod.fst
    (fun e : Nat × String × String => some { rtype := cfg.stored e.2.2 }) t.recordsToAdd.entries
    (v.cleared cfg t)
  exact (third.trans second).trans first

/-- The six statements together. -/
theorem View.recinfo_commit :
    (recinfoRows t).foldl (fun v e => v.setRecinfo e.1 (cfg.stored e.2.1) (cfg.stored e.2.2))
      (v.aliased cfg t) = v.commit cfg t := by
  let put (e : Nat × String × String) (r : RecordView) : RecordView :=
    { r with infos := Function.update r.infos (cfg.stored e.2.1) (some (cfg.stored e.2.2)) }
  have puts : ∀ (l : List (String × String)) (id : Nat) (r : RecordView),
      (l.map fun info => (id, info)).foldl (fun r e => put e r) r =
        { r with infos := View.putInfos cfg.stored r.infos l } := by
    intro l id
    induction l with
    | nil => exact fun _ => rfl
    | cons info rest ih => exact fun r => ih (put (id, info) r)
  apply View.ext
  · have same := View.foldl_mapRecord_infos Prod.fst put (recinfoRows t) (v.aliased cfg t)
    exact same.trans (v.aliased_infos cfg t)
  · funext id
    have records := View.foldl_mapRecord Prod.fst put (recinfoRows t) (v.aliased cfg t) id
    rw [filter_recinfoRows, View.aliased_records] at records
    refine records.trans ?_
    simp [View.commit, puts, Function.comp_def]

end Stages

section CommitRows

variable {cfg : DbConfig} {t : Transaction} {db : Database} {srvid : Nat}

/-- A row that comes after `done` has another id than the rows of `done`. -/
theorem filter_done {done rest : List (Nat × String × String)} {e : Nat × String × String}
    (split : t.recordsToAdd.entries = done ++ e :: rest) :
    done.filter (fun x => decide (x.1 = e.1)) = [] := by
  have nodup := t.recordsToAdd.nodup
  rw [split, List.map_append, List.nodup_append] at nodup
  rw [List.filter_eq_nil_iff]
  intro x member same
  exact nodup.2.2 x.1 (List.mem_map_of_mem member) e.1 (by simp) (of_decide_eq_true same)

theorem insertRecords_ready (v : View) :
    Runs.EveryStep (fun done e => (done.foldl (fun (v : View) (e : Nat × String × String) =>
      v.setRecord e.1 (some { rtype := cfg.stored e.2.2 })) (v.cleared cfg t)).records e.1 = none)
      t.recordsToAdd.entries := by
  intro done e rest split
  have last := View.foldl_setRecord Prod.fst
    (fun e : Nat × String × String => some { rtype := cfg.stored e.2.2 }) done (v.cleared cfg t) e.1
  rw [filter_done split] at last
  refine last.trans ?_
  have listed : e.1 ∈ t.recordsToAdd.keys := by
    rw [Py.Dict.keys, split]
    simp
  simp [View.cleared, listed]

theorem insertNames_ready (v : View) :
    Runs.EveryStep (fun done e => ∃ r, (done.foldl (fun (v : View) (e : Nat × String × String) =>
      v.insertName e.1 (cfg.stored e.2.1) true) (v.started cfg t)).records e.1 = some r ∧
        cfg.stored e.2.1 ∉ r.names.map Prod.fst) t.recordsToAdd.entries := by
  intro done e rest split
  have names := foldl_insertName_records Prod.fst (fun e : Nat × String × String => cfg.stored e.2.1)
    true done (v.started cfg t) e.1
  have found : t.recordsToAdd.get? e.1 = some e.2 := by
    rw [Py.Dict.get?_eq_some_iff, split]
    simp
  rw [filter_done split, View.started_records, found] at names
  exact ⟨_, names, by simp⟩

theorem insertAliases_ready {v : View} (fits : v.Fits cfg t) :
    Runs.EveryStep (fun done e => ∃ r, (done.foldl (fun (v : View) (e : Nat × String) =>
      v.insertName e.1 (cfg.stored e.2) false) (v.named cfg t)).records e.1 = some r ∧
        cfg.stored e.2 ∉ r.names.map Prod.fst) (aliasRows t) := by
  rintro done ⟨id, name⟩ rest split
  have rows := filter_aliasRows t id
  rw [split, List.filter_append, List.filter_cons, if_pos (by simp)] at rows
  obtain ⟨names, found⟩ : ∃ names, t.aliases.get? id = some names := by
    cases found : t.aliases.get? id with
    | none => simp [found] at rows
    | some names => exact ⟨names, rfl⟩
  rw [found, Option.getD_some] at rows
  obtain ⟨r, here, nodup⟩ := fits.aliases id names found (by rintro rfl; simp at rows)
  have before := foldl_insertName_records Prod.fst (fun e : Nat × String => cfg.stored e.2) false
    done (v.named cfg t) id
  rw [View.named_records, here, Option.map_some] at before
  refine ⟨_, before, ?_⟩
  -- the name comes after the names of the record and after the aliases before it
  have order : names = (done.filter fun x => decide (x.1 = id)).map Prod.snd ++
      name :: (rest.filter fun x => decide (x.1 = id)).map Prod.snd := by
    have seconds := congrArg (List.map Prod.snd) rows
    simpa [Function.comp_def] using seconds.symm
  rw [order, List.map_append, List.map_cons, ← List.append_assoc, List.nodup_append] at nodup
  intro taken
  apply nodup.2.2 (cfg.stored name) _ (cfg.stored name) (by simp) rfl
  simpa [Function.comp_def] using taken

theorem insertRecinfos_ready {v : View} (fits : v.Fits cfg t) :
    Runs.EveryStep (fun done e => ∃ r, (done.foldl (fun (v : View) (e : Nat × String × String) =>
      v.setRecinfo e.1 (cfg.stored e.2.1) (cfg.stored e.2.2)) (v.aliased cfg t)).records e.1 = some r)
      (recinfoRows t) := by
  rintro done ⟨id, info⟩ rest split
  have member : (id, info) ∈ recinfoRows t := by simp [split]
  obtain ⟨⟨key, infos⟩, listed, inside⟩ := List.mem_flatMap.mp member
  obtain ⟨own, present, same⟩ := List.mem_map.mp inside
  obtain ⟨rfl, rfl⟩ : key = id ∧ own = info := by simpa using same
  have found : t.recordInfosToAdd.get? key = some infos := (Py.Dict.get?_eq_some_iff _ _ _).mpr listed
  obtain ⟨r, here⟩ := Option.isSome_iff_exists.mp
    (fits.infos key infos found (List.ne_nil_of_mem present))
  have before := View.foldl_mapRecord Prod.fst (fun (e : Nat × String × String) (r : RecordView) =>
    { r with infos := Function.update r.infos (cfg.stored e.2.1) (some (cfg.stored e.2.2)) })
    done (v.aliased cfg t) key
  rw [View.aliased_records, here, Option.map_some, Option.map_some] at before
  exact ⟨_, before⟩

/-- A transaction that fits is carried out, and means what it says. -/
theorem commitRows_turns (sound : db.Sound) (known : srvid ∈ db.serverIds)
    (fits : (db.view srvid).Fits cfg t) :
    ∃ db', commitRows cfg srvid t db = .ok db' ∧
      db.Turns srvid ((db.view srvid).commit cfg t) db' := by
  obtain ⟨db₁, ran₁, turns₁⟩ := @Database.foldlM_turns db srvid _
    (fun db e => db.replaceServinfo srvid (cfg.stored e.1) (cfg.stored e.2))
    (fun v e => v.setInfo (cfg.stored e.1) (cfg.stored e.2)) (fun _ _ => True)
    (fun db e sound known _ => Database.replaceServinfo_turns sound known _ _)
    t.clientInfos.entries sound known (fun _ _ _ _ => trivial)
  have turns₂ := @Database.foldl_deleteRecord_turns db₁ srvid turns₁.sound
    (t.recordsToAdd.keys ++ t.recordsToDelete)
  rw [turns₁.here, View.foldl_setInfo_records, View.foldl_delete_records] at turns₂
  generalize deleted : (t.recordsToAdd.keys ++ t.recordsToDelete).foldl
    (fun db id => db.deleteRecord srvid id) db₁ = db₂ at turns₂
  have turned₂ := turns₁.trans turns₂
  have view₂ : db₂.view srvid = (db.view srvid).cleared cfg t := turned₂.here
  obtain ⟨db₃, ran₃, turns₃⟩ := @Database.foldlM_turns db₂ srvid _
    (fun db e => db.insertRecord srvid e.1 (cfg.stored e.2.2))
    (fun v e => v.setRecord e.1 (some { rtype := cfg.stored e.2.2 }))
    (fun v e => v.records e.1 = none)
    (fun db e sound known fresh => Database.insertRecord_turns sound known fresh _)
    t.recordsToAdd.entries turned₂.sound (turned₂.serverIds ▸ known)
    (by rw [view₂]; exact insertRecords_ready _)
  rw [view₂] at turns₃
  have turned₃ := turned₂.trans turns₃
  obtain ⟨db₄, ran₄, turns₄⟩ := @Database.foldlM_turns db₃ srvid _
    (fun db e => db.insertName srvid e.1 (cfg.stored e.2.1) true)
    (fun v e => v.insertName e.1 (cfg.stored e.2.1) true)
    (fun v e => ∃ r, v.records e.1 = some r ∧ cfg.stored e.2.1 ∉ r.names.map Prod.fst)
    (fun db e sound _ ready => Database.insertName_turns sound ready.choose_spec.1
      ready.choose_spec.2 true)
    t.recordsToAdd.entries turned₃.sound (turned₃.serverIds ▸ known)
    (by rw [turned₃.here]; exact insertNames_ready _)
  rw [turned₃.here] at turns₄
  have turned₄ := turned₃.trans turns₄
  obtain ⟨db₅, ran₅, turns₅⟩ := @Database.foldlM_turns db₄ srvid _
    (fun db e => db.insertName srvid e.1 (cfg.stored e.2) false)
    (fun v e => v.insertName e.1 (cfg.stored e.2) false)
    (fun v e => ∃ r, v.records e.1 = some r ∧ cfg.stored e.2 ∉ r.names.map Prod.fst)
    (fun db e sound _ ready => Database.insertName_turns sound ready.choose_spec.1
      ready.choose_spec.2 false)
    (aliasRows t) turned₄.sound (turned₄.serverIds ▸ known)
    (by rw [turned₄.here]; exact insertAliases_ready fits)
  rw [turned₄.here] at turns₅
  have turned₅ := turned₄.trans turns₅
  obtain ⟨db₆, ran₆, turns₆⟩ := @Database.foldlM_turns db₅ srvid _
    (fun db e => db.replaceRecinfo srvid e.1 (cfg.stored e.2.1) (cfg.stored e.2.2))
    (fun v e => v.setRecinfo e.1 (cfg.stored e.2.1) (cfg.stored e.2.2))
    (fun v e => ∃ r, v.records e.1 = some r)
    (fun db e sound _ ready => Database.replaceRecinfo_turns sound ready.choose_spec _ _)
    (recinfoRows t) turned₅.sound (turned₅.serverIds ▸ known)
    (by rw [turned₅.here]; exact insertRecinfos_ready fits)
  rw [turned₅.here] at turns₆
  have turned₆ := turned₅.trans turns₆
  refine ⟨db₆, ?_, ?_⟩
  · simp only [commitRows, ran₁, deleted, ran₃, ran₄, ran₅, ran₆, bind, Except.bind]
  · exact (View.recinfo_commit cfg t (db.view srvid)) ▸ turned₆

end CommitRows

section Processor

variable {cfg : DbConfig} {t : Transaction} {p : DBProcessor}

/-- An initial transaction makes a row, and gets the oldest one with its endpoint. -/
theorem commit_initial (sound : p.db.Sound) (initial : t.initial = true)
    (connected : t.connected = true) (fits : View.Fits cfg {} t) :
    let new : ServerRow := ⟨nextKey p.db.serverIds, cfg.mykey, t.host, t.port⟩
    let row := (find ServerRow.endpoint p.db.server (t.host, t.port, cfg.mykey)).getD new
    ∃ db, commit cfg t p = (.ok (), ⟨db, Function.update p.sources t.srcid (some row.id)⟩) ∧
      db.Sound ∧ db.server = p.db.server ++ [new] ∧ row ∈ db.server ∧
      row.endpoint = (t.host, t.port, cfg.mykey) ∧
      db.view = Function.update p.db.view row.id ((p.db.view row.id).commit cfg t) ∧
      ∀ s, s ≠ row.id → db.rowsOf s = p.db.rowsOf s := by
  intro new row
  have soundNow := sound.insertServer t.host t.port cfg.mykey
  have selected : (p.db.insertServer t.host t.port cfg.mykey).selectServer t.host t.port cfg.mykey =
      some row.id := Database.selectServer_insertServer t.host t.port cfg.mykey
  have chosen : row ∈ (p.db.insertServer t.host t.port cfg.mykey).server ∧
      row.endpoint = (t.host, t.port, cfg.mykey) := by
    simp only [row]
    cases found : find ServerRow.endpoint p.db.server (t.host, t.port, cfg.mykey) with
    | none => exact ⟨List.mem_append_right _ (List.mem_singleton_self _), rfl⟩
    | some old => exact ⟨List.mem_append_left _ (mem_of_find found).1, (mem_of_find found).2⟩
  have listed : row.id ∈ (p.db.insertServer t.host t.port cfg.mykey).serverIds :=
    List.mem_map_of_mem chosen.1
  obtain ⟨db, ran, turns⟩ := commitRows_turns soundNow listed
    (fits.extends (View.extends_empty _))
  refine ⟨db, ?_, turns.sound, turns.server, turns.server ▸ chosen.1, chosen.2, turns.view,
    turns.others⟩
  simp [commit, serverOf, initial, selected, connected, ran]

theorem commit_connected (sound : p.db.Sound) {srvid : Nat} (source : p.sources t.srcid = some srvid)
    (listed : srvid ∈ p.db.serverIds) (later : t.initial = false) (connected : t.connected = true)
    (fits : (p.db.view srvid).Fits cfg t) :
    ∃ db, commit cfg t p = (.ok (), { p with db }) ∧
      p.db.Turns srvid ((p.db.view srvid).commit cfg t) db := by
  obtain ⟨db, ran, turns⟩ := commitRows_turns sound listed fits
  exact ⟨db, by simp [commit, serverOf, later, source, connected, ran], turns⟩

/-- The last commit of a session takes its rows away. -/
theorem commit_goodbye {row : ServerRow} (source : p.sources t.srcid = some row.id)
    (own : row.owner = cfg.mykey) (later : t.initial = false) (gone : t.connected = false) :
    commit cfg t p =
      (.ok (), ⟨p.db.deleteServer row.id row.owner, Function.update p.sources t.srcid none⟩) := by
  simp [commit, serverOf, later, source, gone, own]

end Processor

end Recsync.Db
