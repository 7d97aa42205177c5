import Recsync.Client.UploadPlan

set_option autoImplicit false

/- Which names an upload sends. -/
namespace Recsync.Client

open Attempts Bytes

def aliasesOf (type : DbRecordType) (pent : DbRecordNode) : List DbRecordNode :=
  type.recList.filter fun a => a.isAlias ∧ a.precord = pent.precord

/-- The info tags of a record that have a value, and its description. -/
def infosOf (ioc : Ioc) (pent : DbRecordNode) : List (CString × CString) :=
  (pent.infos.filterMap fun info => (given info.2).map (info.1, ·)) ++
    ((descOf ioc pent).map (recordDesc, ·)).toList

/-- The entries of a record: it gets the id, and its aliases and infos follow under this id. -/
def recordEntries (ioc : Ioc) (type : DbRecordType) (pent : DbRecordNode) (rid : Int) :
    List (SendCall × Int) :=
  (recordCall ioc pent, rid) ::
    ((aliasesOf type pent).map (fun a => (.sendAlias rid a.recordname, 0)) ++
      (infosOf ioc pent).map fun info => (.sendInfo rid info.1 info.2, 0))

def recordsEntries (ioc : Ioc) : Int → List (DbRecordType × DbRecordNode) → List (SendCall × Int)
  | _, [] => []
  | rid, (type, pent) :: rest =>
    recordEntries ioc type pent rid ++ recordsEntries ioc (rid + 1) rest

def SendCall.pvName : SendCall → Option CString
  | sendRecord _ rname => some rname
  | sendAlias _ rname => some rname
  | sendInfo _ _ _ => none

/-- After the variables come the records whose name matches no pattern, each of them once and
directly followed by its aliases and infos, and no name is sent that matches a pattern. -/
structure HidesExactly (ioc : Ioc) (rid : Int) (log : List (SendCall × Int)) : Prop where
  records : log = (envPlan ioc).map (·, 0) ++
    recordsEntries ioc rid (shownRecords ioc ioc.pdbbase.recordTypes)
  hidden : ∀ entry ∈ log, ∀ name, entry.1.pvName = some name →
    ∀ pattern ∈ ioc.excludePatterns, ioc.globMatch name pattern = false

theorem log_of_tags {calls : List SendCall} (tags : ∀ c ∈ calls, c.IsTag) (described : Bool)
    {u u' : Upload}
    (made : attempt Planned.perform (calls.map (⟨·, described⟩)) u = .complete u') :
    u'.log = u.log ++ calls.map (·, 0) := by
  induction calls generalizing u with
  | nil =>
    cases made
    simp
  | cons c rest ih =>
    rw [List.forall_mem_cons] at tags
    have returns : (u.send c).1 = 0 ∨ (u.send c).1 = -1 := (SendCall.tag_run tags.1 u.caster).1
    rw [List.map_cons, attempt_cons, Planned.perform] at made
    split at made
    · rename_i success
      have zero : (u.send c).1 = 0 := by
        have := of_decide_eq_true success
        dsimp only at this
        omega
      have here : (u.send c).2.log = u.log ++ [(c, 0)] := by
        rw [← zero]
        rfl
      rw [ih tags.2 made, here, List.map_cons, List.append_assoc]
      rfl
    · cases made

section Entries

variable {ioc : Ioc}

/-- A list of a record type holds all the nodes of its aliases, and the record is flagged. -/
theorem aliasCalls (type : DbRecordType) {pent : DbRecordNode} (inside : pent ∈ type.recList)
    (record : pent.isAlias = false) (rid : Int) :
    (if pent.hasAlias then type.recList.filterMap (aliasCall rid pent) else []) =
      (aliasesOf type pent).map fun a => .sendAlias rid a.recordname := by
  have all : type.recList.filterMap (aliasCall rid pent) =
      (aliasesOf type pent).map fun a => .sendAlias rid a.recordname := by
    rw [aliasesOf]
    generalize type.recList = nodes
    induction nodes with
    | nil => rfl
    | cons a rest ih =>
      by_cases own : a.isAlias = true ∧ a.precord = pent.precord
      · rw [List.filterMap_cons_some (by rw [aliasCall, if_pos own]),
          List.filter_cons_of_pos (by simpa using own), List.map_cons, ih]
      · rw [List.filterMap_cons_none (by rw [aliasCall, if_neg own]),
          List.filter_cons_of_neg (by simpa using own), ih]
  by_cases flag : pent.hasAlias = true
  · rw [if_pos flag, all]
  · have none : aliasesOf type pent = [] := by
      rw [aliasesOf, List.filter_eq_nil_iff]
      intro a member
      rw [decide_eq_true_eq]
      rintro ⟨alias', same⟩
      exact flag (type.flagged pent inside a member record alias' same)
    rw [if_neg flag, none, List.map_nil]

theorem infoCalls (pent : DbRecordNode) (rid : Int) :
    pent.infos.filterMap (infoCall rid) ++ descPlan ioc pent rid =
      (infosOf ioc pent).map fun info => .sendInfo rid info.1 info.2 := by
  rw [infosOf, List.map_append, List.map_filterMap]
  congr 1
  · congr 1
    funext info
    rw [infoCall]
    cases given info.2 <;> rfl
  · rw [descPlan]
    cases descOf ioc pent <;> rfl

theorem log_of_record {type : DbRecordType} {pent : DbRecordNode} (inside : pent ∈ type.recList)
    (record : pent.isAlias = false) {u u' : Upload} {rid : Int} (counts : u.caster.Counts rid)
    (made : attempt Planned.perform (recordPlan ioc type pent rid) u = .complete u') :
    u'.log = u.log ++ recordEntries ioc type pent rid := by
  cases (@attempt_recordPlan ioc type pent u rid counts).2 with
  | inl failed =>
    rw [failed.2] at made
    cases made
  | inr sent =>
    obtain ⟨-, ret, tags⟩ := sent
    rw [tags, attempt_append] at made
    have first : (u.send (recordCall ioc pent)).2.log = u.log ++ [(recordCall ioc pent, rid)] := by
      rw [← ret]
      rfl
    have calls : (tagPlan type pent rid ++ descPlan ioc pent rid).map (fun c => (c, (0 : Int))) =
        (aliasesOf type pent).map (fun a => (.sendAlias rid a.recordname, 0)) ++
          (infosOf ioc pent).map fun info => (.sendInfo rid info.1 info.2, 0) := by
      rw [tagPlan, aliasCalls type inside record, List.append_assoc, infoCalls, List.map_append,
        List.map_map, List.map_map]
      rfl
    cases middle : attempt Planned.perform
        ((tagPlan type pent rid).map (⟨·, (descOf ioc pent).isSome⟩))
        (u.send (recordCall ioc pent)).2 with
    | failed p t =>
      rw [middle] at made
      cases made
    | complete t =>
      rw [middle] at made
      rw [log_of_tags (fun _ => descPlan_tags) false made,
        log_of_tags (fun _ => tagPlan_tags) _ middle, first, List.append_assoc, List.append_assoc,
        ← List.map_append, calls]
      rfl

theorem log_of_records {records : List (DbRecordType × DbRecordNode)}
    (visible : ∀ record ∈ records, record.2 ∈ record.1.recList ∧ record.2.isAlias = false)
    {u u' : Upload} {rid : Int} (counts : u.caster.Counts rid)
    (made : attempt Planned.perform (recordsPlan ioc rid records) u = .complete u') :
    u'.log = u.log ++ recordsEntries ioc rid records := by
  induction records generalizing u rid with
  | nil =>
    cases made
    simp [recordsEntries]
  | cons record rest ih =>
    rw [List.forall_mem_cons] at visible
    have next := @recordPlan_counts ioc record.1 record.2 u rid counts
    rw [recordsPlan, attempt_append] at made
    cases here : attempt Planned.perform (recordPlan ioc record.1 record.2 rid) u with
    | failed p t =>
      rw [here] at made
      cases made
    | complete t =>
      rw [here] at made next
      have later : u'.log = t.log ++ recordsEntries ioc (rid + 1) rest := ih visible.2 next made
      rw [later, log_of_record visible.1.1 visible.1.2 counts here,
        recordsEntries, List.append_assoc]

theorem shown_of_mem {types : List DbRecordType} {record : DbRecordType × DbRecordNode}
    (member : record ∈ shownRecords ioc types) :
    record.2 ∈ record.1.recList ∧ shown ioc record.2 = true := by
  induction types with
  | nil => cases member
  | cons type rest ih =>
    cases List.mem_append.mp member with
    | inl here =>
      obtain ⟨pent, inside, rfl⟩ := List.mem_map.mp here
      exact List.mem_filter.mp inside
    | inr later => exact ih later

theorem isAlias_of_shown {pent : DbRecordNode} (visible : shown ioc pent = true) :
    pent.isAlias = false := by
  rw [shown, Bool.and_eq_true, Bool.not_eq_true'] at visible
  exact visible.1

theorem unmatched_of_shown {pent : DbRecordNode} (visible : shown ioc pent = true) :
    ∀ pattern ∈ ioc.excludePatterns,
      ioc.globMatch (ioc.pdbbase.deref pent.precord).name pattern = false := by
  rw [shown, Bool.and_eq_true, Bool.not_eq_true', Bool.not_eq_true'] at visible
  intro pattern member
  exact Bool.eq_false_iff.mpr (List.any_eq_false.mp visible.2 pattern member)

/-- A log without failures is the plan carried out. -/
theorem log_of_sent {self : Caster} {rid : Int} (counts : self.Counts rid)
    (sent : ∀ entry ∈ (casterPushPDB ioc ⟨self, []⟩).2.log, 0 ≤ entry.2) :
    (casterPushPDB ioc ⟨self, []⟩).2.log = (envPlan ioc).map (·, 0) ++
      recordsEntries ioc rid (shownRecords ioc ioc.pdbbase.recordTypes) := by
  have follows := @casterPushPDB_follows ioc ⟨self, []⟩ rid counts
  cases made : attempt Planned.perform (uploadPlan ioc rid) ⟨self, []⟩ with
  | failed p u' =>
    obtain ⟨entries, ret, log, negative, -⟩ := log_of_failed made
    have inside : (p.call, ret) ∈ (casterPushPDB ioc ⟨self, []⟩).2.log := by
      rw [made, Follows] at follows
      split at follows
      · obtain ⟨entry, more⟩ := follows
        apply more.subset
        simp [log]
      · rw [follows, log]
        simp
    exact absurd (sent _ inside) (Int.not_le.mpr negative)
  | complete u' =>
    rw [made] at follows
    rw [show casterPushPDB ioc ⟨self, []⟩ = (0, u') from follows]
    rw [uploadPlan, attempt_append] at made
    cases env : attempt Planned.perform ((envPlan ioc).map (⟨·, false⟩)) ⟨self, []⟩ with
    | failed p t =>
      rw [env] at made
      cases made
    | complete t =>
      rw [env] at made
      have still := @envPlan_counts ioc ⟨self, []⟩ rid counts
      rw [env] at still
      change t.caster.Counts rid at still
      have visible (record) (member : record ∈ shownRecords ioc ioc.pdbbase.recordTypes) :=
        shown_of_mem member
      rw [log_of_records (fun record member =>
          ⟨(visible record member).1, isAlias_of_shown (visible record member).2⟩) still made,
        log_of_tags (fun _ => envPlan_tags) false env]
      rfl

theorem mem_recordsEntries {records : List (DbRecordType × DbRecordNode)} {rid : Int}
    {entry : SendCall × Int} (member : entry ∈ recordsEntries ioc rid records) :
    ∃ record ∈ records, ∃ id, entry ∈ recordEntries ioc record.1 record.2 id := by
  induction records generalizing rid with
  | nil => cases member
  | cons record rest ih =>
    cases List.mem_append.mp member with
    | inl here => exact ⟨record, List.mem_cons_self, rid, here⟩
    | inr later =>
      obtain ⟨other, inside, id, found⟩ := ih later
      exact ⟨other, List.mem_cons_of_mem record inside, id, found⟩

theorem recordEntries_sublist {records : List (DbRecordType × DbRecordNode)} {rid : Int}
    {record : DbRecordType × DbRecordNode} (member : record ∈ records) :
    ∃ id, ∀ entry ∈ recordEntries ioc record.1 record.2 id,
      entry ∈ recordsEntries ioc rid records := by
  induction records generalizing rid with
  | nil => cases member
  | cons first rest ih =>
    cases List.mem_cons.mp member with
    | inl here =>
      subst here
      exact ⟨rid, fun entry inside => List.mem_append.mpr (Or.inl inside)⟩
    | inr later =>
      obtain ⟨id, inside⟩ := @ih (rid + 1) later
      exact ⟨id, fun entry found => List.mem_append.mpr (Or.inr (inside entry found))⟩

end Entries

/-- Where all sends succeed the upload hides exactly the matching names when no alias of a record
that is sent matches a pattern. -/
theorem casterPushPDB_hides_iff (ioc : Ioc) {self : Caster} {rid : Int} (counts : self.Counts rid)
    (sent : ∀ entry ∈ (casterPushPDB ioc ⟨self, []⟩).2.log, 0 ≤ entry.2) :
    HidesExactly ioc rid (casterPushPDB ioc ⟨self, []⟩).2.log ↔
      ∀ record ∈ shownRecords ioc ioc.pdbbase.recordTypes, ∀ a ∈ aliasesOf record.1 record.2,
        ∀ pattern ∈ ioc.excludePatterns, ioc.globMatch a.recordname pattern = false := by
  have log := log_of_sent counts sent
  constructor
  · intro hides record member a alias'
    obtain ⟨id, inside⟩ := @recordEntries_sublist ioc _ rid record member
    have call : (.sendAlias id a.recordname, 0) ∈ recordEntries ioc record.1 record.2 id :=
      List.mem_cons_of_mem _ (List.mem_append.mpr (Or.inl (List.mem_map.mpr ⟨a, alias', rfl⟩)))
    apply hides.hidden (.sendAlias id a.recordname, 0) _ a.recordname rfl
    rw [log]
    exact List.mem_append.mpr (Or.inr (inside _ call))
  · intro others
    refine ⟨log, ?_⟩
    intro entry member name named
    rw [log] at member
    cases List.mem_append.mp member with
    | inl env =>
      -- no variable is a name of a record
      obtain ⟨c, inside, rfl⟩ := List.mem_map.mp env
      cases List.mem_cons.mp inside with
      | inl version =>
        rw [version] at named
        cases named
      | inr variable' =>
        obtain ⟨item, -, asked⟩ := List.mem_filterMap.mp variable'
        obtain ⟨val, -, rfl⟩ := Option.map_eq_some_iff.mp asked
        cases named
    | inr records =>
      obtain ⟨record, listed, id, inside⟩ := mem_recordsEntries records
      rcases List.mem_cons.mp inside with rfl | tag
      · obtain rfl : _ = name := Option.some.inj named
        exact unmatched_of_shown (shown_of_mem listed).2
      rcases List.mem_append.mp tag with alias' | info
      · obtain ⟨a, own, rfl⟩ := List.mem_map.mp alias'
        obtain rfl : _ = name := Option.some.inj named
        exact others record listed a own
      · obtain ⟨item, -, rfl⟩ := List.mem_map.mp info
        cases named

/-- A record with an alias of another area. -/
def aliased : DbRecordType where
  recList := [
    { recordname := ⟨encode "TEST:pump", by decide +kernel⟩, precord := 0, hasAlias := true },
    { recordname := ⟨encode "SEC:pump", by decide +kernel⟩, precord := 0, isAlias := true }]
  flagged := by decide

/-- A database with it, and a pattern that is matched by the names that are equal to it. -/
def excludingIoc (pattern : CString) : Ioc where
  epicsVersion := ⟨encode "7.0.8", by decide +kernel⟩
  excludePatterns := [pattern]
  globMatch := fun name pattern => name = pattern
  pdbbase := {
    recordTypes := [aliased]
    deref := fun _ => {
      name := ⟨encode "TEST:pump", by decide +kernel⟩
      rdes := ⟨encode "calc", by decide +kernel⟩
      desc := ⟨encode "Pump", by decide +kernel⟩ } }

/-- With its record an alias is hidden as well. -/
theorem casterPushPDB_hides_iff_record :
    HidesExactly (excludingIoc ⟨encode "TEST:pump", by decide +kernel⟩) 1
      (casterPushPDB (excludingIoc ⟨encode "TEST:pump", by decide +kernel⟩) ⟨{}, []⟩).2.log := by
  apply (casterPushPDB_hides_iff _ (casterInit_counts {}) (by decide +kernel)).mpr
  decide +kernel

/-- The alias matches the pattern and is sent. -/
theorem alias_not_hidden :
    (∀ entry ∈ (casterPushPDB (excludingIoc ⟨encode "SEC:pump", by decide +kernel⟩)
        ⟨{}, []⟩).2.log, 0 ≤ entry.2) ∧
      ¬ HidesExactly (excludingIoc ⟨encode "SEC:pump", by decide +kernel⟩) 1
        (casterPushPDB (excludingIoc ⟨encode "SEC:pump", by decide +kernel⟩) ⟨{}, []⟩).2.log := by
  refine ⟨by decide +kernel, fun hides => ?_⟩
  have inside : (SendCall.sendAlias 1 ⟨encode "SEC:pump", by decide +kernel⟩, (0 : Int)) ∈
      (casterPushPDB (excludingIoc ⟨encode "SEC:pump", by decide +kernel⟩) ⟨{}, []⟩).2.log := by
    decide +kernel
  have unmatched := hides.hidden _ inside _ rfl _ List.mem_cons_self
  cases unmatched.symm.trans (show _ = true by decide +kernel)

end Recsync.Client
