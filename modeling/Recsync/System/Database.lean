import Recsync.Client.UploadPlan
import Recsync.Recast.Groups
import Recsync.System.Letters

set_option autoImplicit false

/- What the upload of a record database says. -/
namespace Recsync.System

open Bytes Client Protocol
open Recast (RecordItem UploadRecord SessionCall)
open Upload (Call ValidFrom servedFrom)

section Text

def text (s : CString) : String :=
  match decodeText s.bytes with
  | .ok text => text
  | .error _ => ""

def IsText (s : CString) : Prop := encode (text s) = s.bytes

instance (s : CString) : Decidable (IsText s) := inferInstanceAs (Decidable (encode _ = _))

theorem encode_text (s : CString) : encode (text s) = s.bytes ∨ encode (text s) = [] := by
  unfold text
  split
  · next decoded => exact Or.inl ((decodeText_eq_ok_iff _ _).mp decoded).symm
  · exact Or.inr (by decide)

theorem noNul_text (s : CString) : 0 ∉ encode (text s) := by
  rcases encode_text s with same | nothing
  · rw [same]
    exact s.noNul
  · simp [nothing]

def asText (s : CString) : Upload.Text := ⟨text s, noNul_text s⟩

theorem asText_cstr {s : CString} (legible : IsText s) : (asText s).cstr = s := by
  cases s with
  | mk bytes noNul =>
    simp only [Upload.Text.cstr, CString.mk.injEq]
    exact legible

theorem asText_length {s : CString} (legible : IsText s) : (asText s).length = strlen s :=
  congrArg List.length legible

/-- Different strings have different texts. -/
theorem text_injective {s s' : CString} (legible : IsText s) (legible' : IsText s')
    (same : text s = text s') : s = s' := by
  rw [← asText_cstr legible, ← asText_cstr legible']
  simp only [asText, same]

end Text

section Calls

/-- The strings of the call are texts that fit into the fields of its message. -/
def Legible : SendCall → Prop
  | .sendRecord rtype rname => IsText rtype ∧ IsText rname ∧
      (0 < strlen rtype ∧ strlen rtype ≤ 255) ∧ 0 < strlen rname ∧ strlen rname ≤ 65535
  | .sendAlias _ rname => IsText rname ∧ 0 < strlen rname ∧ strlen rname ≤ 65535
  | .sendInfo _ name val => IsText name ∧ IsText val ∧
      (0 < strlen name ∧ strlen name ≤ 255) ∧ strlen val ≤ 65535

instance : (c : SendCall) → Decidable (Legible c)
  | .sendRecord rtype rname => inferInstanceAs (Decidable (IsText rtype ∧ IsText rname ∧
      (0 < strlen rtype ∧ strlen rtype ≤ 255) ∧ 0 < strlen rname ∧ strlen rname ≤ 65535))
  | .sendAlias _ rname =>
    inferInstanceAs (Decidable (IsText rname ∧ 0 < strlen rname ∧ strlen rname ≤ 65535))
  | .sendInfo _ name val => inferInstanceAs (Decidable (IsText name ∧ IsText val ∧
      (0 < strlen name ∧ strlen name ≤ 255) ∧ strlen val ≤ 65535))

def asCall : SendCall → Call
  | .sendRecord rtype rname => .sendRecord (asText rtype) (asText rname)
  | .sendAlias rid rname => .sendAlias rid.toNat (asText rname)
  | .sendInfo rid name val => .sendInfo rid.toNat (asText name) (asText val)

/-- The id that a call carries is one of an upload with fewer than 2^32 records. -/
def KnownId : SendCall → Prop
  | .sendRecord _ _ => True
  | .sendAlias rid _ => 1 ≤ rid ∧ rid < 2 ^ 32
  | .sendInfo rid _ _ => 0 ≤ rid ∧ rid < 2 ^ 32

theorem asCall_send {c : SendCall} (legible : Legible c) (known : KnownId c) (self : Caster) :
    (asCall c).send self = c.run self := by
  cases c with
  | sendRecord rtype rname =>
    simp only [asCall, Call.send, SendCall.run, asText_cstr legible.1, asText_cstr legible.2.1]
  | sendAlias rid rname => simp only [asCall, Call.send, SendCall.run, asText_cstr legible.1]
  | sendInfo rid name val =>
    have same : ((rid.toNat : Nat) : Int) = rid := Int.toNat_of_nonneg known.1
    simp only [asCall, Call.send, SendCall.run, asText_cstr legible.1,
      asText_cstr legible.2.1, same]

theorem asCall_fits {c : SendCall} (legible : Legible c) : (asCall c).Fits = true := by
  cases c with
  | sendRecord rtype rname =>
    have := asText_length legible.1
    have := asText_length legible.2.1
    have := legible.2.2
    simp only [asCall, Call.Fits, decide_eq_true_eq]
    omega
  | sendAlias rid rname =>
    have := asText_length legible.1
    have := legible.2
    simp only [asCall, Call.Fits, decide_eq_true_eq]
    omega
  | sendInfo rid name val =>
    have := asText_length legible.1
    have := asText_length legible.2.1
    have := legible.2.2
    simp only [asCall, Call.Fits, decide_eq_true_eq]
    omega

theorem asCall_valid {c : SendCall} (legible : Legible c) (known : KnownId c) {nextRecID : Int}
    (counted : 1 ≤ nextRecID ∧ nextRecID < 2 ^ 32 ∨ c.IsTag) : (asCall c).Valid nextRecID := by
  cases c with
  | sendRecord rtype rname =>
    have := asText_length legible.1
    have := asText_length legible.2.1
    have := legible.2.2
    have counted := counted.resolve_right id
    refine ⟨counted, ?_, ?_, ?_⟩ <;> omega
  | sendAlias rid rname =>
    have := asText_length legible.1
    have := legible.2
    refine ⟨?_, ?_, ?_⟩
    · have := known
      simp only [KnownId] at this
      omega
    · omega
    · omega
  | sendInfo rid name val =>
    have := asText_length legible.1
    have := asText_length legible.2.1
    have := legible.2.2
    refine ⟨?_, ?_, ?_⟩
    · have := known
      simp only [KnownId] at this
      omega
    · omega
    · omega

end Calls

section Upload

variable (ioc : Ioc)

def aliasesIn (type : DbRecordType) (pent : DbRecordNode) : List CString :=
  (type.recList.filter fun sub => sub.isAlias && decide (sub.precord = pent.precord)).map
    DbRecordNode.recordname

/-- The info tags of a record that have a value, and its description. -/
def infosIn (pent : DbRecordNode) : List (CString × CString) :=
  pent.infos.filterMap (fun info => (given info.2).map (info.1, ·)) ++
    ((descOf ioc pent).map (recordDesc, ·)).toList

def namesIn (record : DbRecordType × DbRecordNode) : List CString :=
  (ioc.pdbbase.deref record.2.precord).name :: aliasesIn record.1 record.2

def uploadItems (record : DbRecordType × DbRecordNode) : List RecordItem :=
  (aliasesIn record.1 record.2).map (fun name => .addAlias (text name)) ++
    (infosIn ioc record.2).map fun info => .recInfo (text info.1) (text info.2)

/-- What the server is told about a record. -/
def uploadRecord (recordId : Nat) (record : DbRecordType × DbRecordNode) : UploadRecord where
  recordId
  recordType := text (ioc.pdbbase.deref record.2.precord).rdes
  recordName := text (ioc.pdbbase.deref record.2.precord).name
  items := uploadItems ioc record

def uploadRecords : Nat → List (DbRecordType × DbRecordNode) → List UploadRecord
  | _, [] => []
  | recordId, record :: rest =>
    uploadRecord ioc recordId record :: uploadRecords (recordId + 1) rest

/-- The version of EPICS and the variables of the environment that are set. -/
def uploadInfos : List (CString × CString) :=
  (epicsVersionName, ioc.epicsVersion) ::
    ioc.envs.filterMap fun name => (given (ioc.environment name)).map (name, ·)

/-- An IOC whose upload the server can read, with the id of its first record. -/
structure Database where
  ioc : Ioc
  firstId : Nat := 1
  legible : ∀ p ∈ uploadPlan ioc firstId, Legible p.call
  positive : 1 ≤ firstId
  few : firstId + (shownRecords ioc ioc.pdbbase.recordTypes).length ≤ 2 ^ 32
  distinct : ((shownRecords ioc ioc.pdbbase.recordTypes).flatMap (namesIn ioc)).Nodup

end Upload

section Plan

variable {ioc : Ioc}

theorem mem_shownRecords {types : List DbRecordType} {record : DbRecordType × DbRecordNode}
    (member : record ∈ shownRecords ioc types) :
    record.2 ∈ record.1.recList ∧ record.2.isAlias = false := by
  induction types with
  | nil => cases member
  | cons type rest ih =>
    rcases List.mem_append.mp member with here | later
    · obtain ⟨pent, kept, rfl⟩ := List.mem_map.mp here
      obtain ⟨listed, visible⟩ := List.mem_filter.mp kept
      simp only [shown, Bool.and_eq_true, Bool.not_eq_true'] at visible
      exact ⟨listed, visible.1⟩
    · exact ih later

def tagCalls (ioc : Ioc) (rid : Int) (record : DbRecordType × DbRecordNode) : List SendCall :=
  (aliasesIn record.1 record.2).map (.sendAlias rid ·) ++
    (infosIn ioc record.2).map fun info => .sendInfo rid info.1 info.2

/-- A record whose flag is not set has no aliases. -/
theorem tagPlan_eq (rid : Int) {record : DbRecordType × DbRecordNode}
    (listed : record.2 ∈ record.1.recList) (original : record.2.isAlias = false) :
    tagPlan record.1 record.2 rid ++ descPlan ioc record.2 rid = tagCalls ioc rid record := by
  have aliases : (if record.2.hasAlias = true then
        record.1.recList.filterMap (aliasCall rid record.2) else []) =
      (aliasesIn record.1 record.2).map (.sendAlias rid ·) := by
    have all : record.1.recList.filterMap (aliasCall rid record.2) =
        (aliasesIn record.1 record.2).map (.sendAlias rid ·) := by
      rw [aliasesIn, List.map_map, ← List.filterMap_eq_map, List.filterMap_filter]
      apply List.filterMap_congr
      intro sub _
      simp [aliasCall]
    by_cases flagged : record.2.hasAlias = true
    · rw [if_pos flagged, all]
    · have none : aliasesIn record.1 record.2 = [] := by
        rw [aliasesIn, List.map_eq_nil_iff, List.filter_eq_nil_iff]
        intro sub member both
        simp only [Bool.and_eq_true, decide_eq_true_eq] at both
        exact flagged (record.1.flagged _ listed sub member original both.1 both.2)
      rw [if_neg flagged, none, List.map_nil]
  have infos : record.2.infos.filterMap (infoCall rid) ++ descPlan ioc record.2 rid =
      (infosIn ioc record.2).map fun info => .sendInfo rid info.1 info.2 := by
    rw [infosIn, List.map_append, List.map_filterMap, descPlan]
    congr 1
    · apply List.filterMap_congr
      intro info _
      simp [infoCall, Function.comp_def]
    · cases descOf ioc record.2 <;> rfl
  rw [tagPlan, List.append_assoc, infos, aliases]
  rfl

theorem recordPlan_calls (rid : Int) {record : DbRecordType × DbRecordNode}
    (listed : record.2 ∈ record.1.recList) (original : record.2.isAlias = false) :
    (recordPlan ioc record.1 record.2 rid).map Planned.call =
      recordCall ioc record.2 :: tagCalls ioc rid record := by
  rw [← tagPlan_eq rid listed original, recordPlan, List.map_cons, List.map_append, List.map_map,
    List.map_map]
  simp [Function.comp_def]

theorem tagCalls_tags {rid : Int} {record : DbRecordType × DbRecordNode} {c : SendCall}
    (member : c ∈ tagCalls ioc rid record) : c.IsTag ∧ (1 ≤ rid ∧ rid < 2 ^ 32 → KnownId c) := by
  rcases List.mem_append.mp member with one | one
  · obtain ⟨name, -, rfl⟩ := List.mem_map.mp one
    exact ⟨trivial, id⟩
  · obtain ⟨info, -, rfl⟩ := List.mem_map.mp one
    refine ⟨trivial, fun range => ?_⟩
    simp only [KnownId]
    omega

theorem next_tag {c : SendCall} (tag : c.IsTag) (nextRecID : Int) :
    (asCall c).next nextRecID = nextRecID := by
  cases c with
  | sendRecord rtype rname => exact tag.elim
  | sendAlias rid rname => rfl
  | sendInfo rid name val => rfl

theorem validFrom_tags {tags : List SendCall} {rest : List Call} {nextRecID : Int}
    (tag : ∀ c ∈ tags, c.IsTag) (legible : ∀ c ∈ tags, Legible c) (known : ∀ c ∈ tags, KnownId c)
    (later : ValidFrom nextRecID rest) : ValidFrom nextRecID (tags.map asCall ++ rest) := by
  induction tags with
  | nil => exact later
  | cons c tags ih =>
    rw [List.forall_mem_cons] at tag legible known
    refine ⟨asCall_valid legible.1 known.1 (Or.inr tag.1), ?_⟩
    rw [next_tag tag.1]
    exact ih tag.2 legible.2 known.2

theorem servedFrom_tags {tags : List SendCall} {rest : List Call} {nextRecID : Int}
    (tag : ∀ c ∈ tags, c.IsTag) (legible : ∀ c ∈ tags, Legible c) :
    servedFrom nextRecID (tags.map asCall ++ rest) =
      tags.map (fun c => (asCall c).session nextRecID) ++ servedFrom nextRecID rest := by
  induction tags with
  | nil => rfl
  | cons c tags ih =>
    rw [List.forall_mem_cons] at tag legible
    have served : (asCall c).served nextRecID = [(asCall c).session nextRecID] :=
      if_pos (asCall_fits legible.1)
    rw [List.map_cons, List.cons_append, servedFrom, next_tag tag.1, ih tag.2 legible.2, served]
    rfl

theorem tagCalls_session {rid nextRecID : Int} (positive : 1 ≤ rid)
    (record : DbRecordType × DbRecordNode) :
    (tagCalls ioc rid record).map (fun c => (asCall c).session nextRecID) =
      (uploadItems ioc record).map (RecordItem.call rid.toNat) := by
  have some : ¬ rid.toNat = 0 := by omega
  rw [tagCalls, uploadItems, List.map_append, List.map_append, List.map_map, List.map_map,
    List.map_map, List.map_map]
  congr 1
  apply List.map_congr_left
  intro info _
  simp only [Function.comp_apply, asCall, Call.session, if_neg some]
  rfl

theorem recordsPlan_served {records : List (DbRecordType × DbRecordNode)} {rid : Int}
    (listed : ∀ record ∈ records, record.2 ∈ record.1.recList ∧ record.2.isAlias = false)
    (legible : ∀ p ∈ recordsPlan ioc rid records, Legible p.call) (positive : 1 ≤ rid)
    (few : rid + records.length ≤ 2 ^ 32) :
    ValidFrom rid ((recordsPlan ioc rid records).map fun p => asCall p.call) ∧
      servedFrom rid ((recordsPlan ioc rid records).map fun p => asCall p.call) =
        (uploadRecords ioc rid.toNat records).flatMap UploadRecord.calls := by
  induction records generalizing rid with
  | nil => exact ⟨trivial, rfl⟩
  | cons record rest ih =>
    rw [List.forall_mem_cons] at listed
    rw [← rid_length_cons] at few
    have calls := @recordPlan_calls ioc rid record listed.1.1 listed.1.2
    have split : (recordsPlan ioc rid (record :: rest)).map (fun p => asCall p.call) =
        asCall (recordCall ioc record.2) :: ((tagCalls ioc rid record).map asCall ++
          (recordsPlan ioc (rid + 1) rest).map fun p => asCall p.call) := by
      have first := congrArg (List.map asCall) calls
      rw [List.map_map] at first
      rw [recordsPlan, List.map_append, show (fun p => asCall p.call) =
        asCall ∘ Planned.call from rfl,
        first]
      rfl
    have own : ∀ c ∈ recordCall ioc record.2 :: tagCalls ioc rid record, Legible c := by
      intro c member
      rw [← calls] at member
      obtain ⟨p, planned, rfl⟩ := List.mem_map.mp member
      exact legible p (List.mem_append_left _ planned)
    rw [List.forall_mem_cons] at own
    have range : 1 ≤ rid ∧ rid < 2 ^ 32 := by omega
    obtain ⟨valid, served⟩ := ih listed.2 (fun p planned =>
      legible p (List.mem_append_right _ planned)) (by omega) few
    have next : (asCall (recordCall ioc record.2)).next rid = rid + 1 := rfl
    have first : (asCall (recordCall ioc record.2)).served rid =
        [(asCall (recordCall ioc record.2)).session rid] := if_pos (asCall_fits own.1)
    have tags := fun c member => (@tagCalls_tags ioc rid record c member).1
    rw [split]
    constructor
    · refine ⟨asCall_valid own.1 trivial (Or.inl range), ?_⟩
      rw [next]
      exact validFrom_tags tags own.2 (fun c member => (tagCalls_tags member).2 range) valid
    · rw [servedFrom, next, servedFrom_tags tags own.2, tagCalls_session range.1, served, first,
        uploadRecords, List.flatMap_cons, show (rid + 1).toNat = rid.toNat + 1 by omega]
      rfl

end Plan

section Records

variable (ioc : Ioc)

theorem uploadRecord_aliases (recordId : Nat) (record : DbRecordType × DbRecordNode) :
    (uploadRecord ioc recordId record).aliases = (aliasesIn record.1 record.2).map text := by
  have silent : Recast.aliasesOf recordId
      (((infosIn ioc record.2).map fun info => RecordItem.recInfo (text info.1) (text info.2)).map
        (RecordItem.call recordId)) = [] := by
    rw [Recast.aliasesOf, List.map_map, List.filterMap_map, List.filterMap_eq_nil_iff]
    intro info _
    rfl
  have spoken : Recast.aliasesOf recordId
      (((aliasesIn record.1 record.2).map fun name => RecordItem.addAlias (text name)).map
        (RecordItem.call recordId)) = (aliasesIn record.1 record.2).map text := by
    rw [Recast.aliasesOf, List.map_map, List.filterMap_map, ← List.filterMap_eq_map]
    apply List.filterMap_congr
    intro name _
    simp [RecordItem.call]
  show Recast.aliasesOf recordId ([.addRecord recordId _ _] ++
    (uploadItems ioc record).map (RecordItem.call recordId)) = _
  rw [Recast.aliasesOf_append, uploadItems, List.map_append, Recast.aliasesOf_append, spoken,
    silent]
  exact List.append_nil _

/-- The value of an info tag of a record, with its description among the tags: the last one. -/
def tagIn (record : DbRecordType × DbRecordNode) (tag : String) : Option String :=
  ((infosIn ioc record.2).filterMap fun info =>
    if text info.1 = tag then some (text info.2) else none).getLast?

theorem uploadRecord_info (recordId : Nat) (record : DbRecordType × DbRecordNode)
    (tag : String) : (uploadRecord ioc recordId record).info tag = tagIn ioc record tag := by
  have silent (ty name : String) : Recast.infoOf recordId tag ([.addRecord recordId ty name] ++
        ((aliasesIn record.1 record.2).map fun name => RecordItem.addAlias (text name)).map
          (RecordItem.call recordId)) = none := by
    rw [Recast.infoOf, List.getLast?_eq_none_iff, List.filterMap_eq_nil_iff]
    intro c member
    rcases List.mem_append.mp member with first | later
    · rw [List.mem_singleton.mp first]
    · obtain ⟨item, spoken, rfl⟩ := List.mem_map.mp later
      obtain ⟨name, -, rfl⟩ := List.mem_map.mp spoken
      rfl
  have spoken : Recast.infoOf recordId tag
      (((infosIn ioc record.2).map fun info => RecordItem.recInfo (text info.1) (text info.2)).map
        (RecordItem.call recordId)) = tagIn ioc record tag := by
    rw [Recast.infoOf, tagIn, List.map_map, List.filterMap_map]
    congr 1
    apply List.filterMap_congr
    intro info _
    simp [RecordItem.call]
  show Recast.infoOf recordId tag ([.addRecord recordId _ _] ++
    (uploadItems ioc record).map (RecordItem.call recordId)) = _
  rw [uploadItems, List.map_append, ← List.append_assoc, Recast.infoOf_append, silent, spoken,
    Option.or_none]

theorem uploadRecord_names (recordId : Nat) (record : DbRecordType × DbRecordNode) :
    (uploadRecord ioc recordId record).names = (namesIn ioc record).map text := by
  rw [UploadRecord.names, uploadRecord_aliases]
  rfl

variable {ioc} in
theorem mem_uploadRecords {recordId : Nat} {records : List (DbRecordType × DbRecordNode)}
    {r : UploadRecord} (member : r ∈ uploadRecords ioc recordId records) :
    ∃ id, ∃ record ∈ records, r = uploadRecord ioc id record := by
  induction records generalizing recordId with
  | nil => cases member
  | cons first rest ih =>
    rcases List.mem_cons.mp member with rfl | later
    · exact ⟨recordId, first, List.mem_cons_self, rfl⟩
    · obtain ⟨id, record, inside, same⟩ := ih later
      exact ⟨id, record, List.mem_cons_of_mem _ inside, same⟩

variable {ioc} in
theorem uploadRecords_mem {records : List (DbRecordType × DbRecordNode)}
    {record : DbRecordType × DbRecordNode} (member : record ∈ records) (recordId : Nat) :
    ∃ id, uploadRecord ioc id record ∈ uploadRecords ioc recordId records := by
  induction records generalizing recordId with
  | nil => cases member
  | cons first rest ih =>
    rcases List.mem_cons.mp member with rfl | later
    · exact ⟨recordId, List.mem_cons_self⟩
    · obtain ⟨id, inside⟩ := ih later (recordId + 1)
      exact ⟨id, List.mem_cons_of_mem _ inside⟩

theorem uploadRecords_names (recordId : Nat)
    (records : List (DbRecordType × DbRecordNode)) :
    (uploadRecords ioc recordId records).flatMap UploadRecord.names =
      (records.flatMap (namesIn ioc)).map text := by
  induction records generalizing recordId with
  | nil => rfl
  | cons record rest ih =>
    rw [uploadRecords, List.flatMap_cons, List.flatMap_cons, List.map_append, ih,
      uploadRecord_names]

theorem uploadRecords_ids (recordId : Nat)
    (records : List (DbRecordType × DbRecordNode)) :
    (uploadRecords ioc recordId records).map UploadRecord.recordId =
      List.range' recordId records.length := by
  induction records generalizing recordId with
  | nil => rfl
  | cons record rest ih =>
    rw [uploadRecords, List.map_cons, ih]
    rfl

end Records

namespace Database

variable (d : Database)

/-- The records of the database that no pattern excludes. -/
def records : List (DbRecordType × DbRecordNode) := shownRecords d.ioc d.ioc.pdbbase.recordTypes

def calls : List Call := (uploadPlan d.ioc d.firstId).map fun p => asCall p.call

theorem records_listed :
    ∀ record ∈ d.records, record.2 ∈ record.1.recList ∧ record.2.isAlias = false :=
  fun _ member => mem_shownRecords member

theorem records_legible : ∀ p ∈ recordsPlan d.ioc d.firstId d.records, Legible p.call :=
  fun p planned => d.legible p (List.mem_append_right _ planned)

theorem envPlan_legible : ∀ c ∈ envPlan d.ioc, Legible c := fun c member =>
  d.legible ⟨c, false⟩ (List.mem_append_left _ (List.mem_map_of_mem member))

theorem calls_eq : d.calls = (envPlan d.ioc).map asCall ++
    (recordsPlan d.ioc d.firstId d.records).map fun p => asCall p.call := by
  rw [calls, uploadPlan, List.map_append, List.map_map]
  rfl

theorem envPlan_eq : envPlan d.ioc =
    (uploadInfos d.ioc).map fun info => .sendInfo 0 info.1 info.2 := by
  rw [envPlan, uploadInfos, List.map_cons, List.map_filterMap]
  congr 1
  apply List.filterMap_congr
  intro name _
  simp [envCall, Function.comp_def]

theorem envPlan_known : ∀ c ∈ envPlan d.ioc, KnownId c := by
  intro c member
  rw [envPlan_eq] at member
  obtain ⟨info, -, rfl⟩ := List.mem_map.mp member
  exact ⟨Int.le_refl 0, by decide⟩

theorem few_records : (d.firstId : Int) + d.records.length ≤ 2 ^ 32 := by
  have few := d.few
  have same : d.records.length = (shownRecords d.ioc d.ioc.pdbbase.recordTypes).length := rfl
  omega

theorem records_served :
    ValidFrom d.firstId ((recordsPlan d.ioc d.firstId d.records).map fun p => asCall p.call) ∧
      servedFrom d.firstId ((recordsPlan d.ioc d.firstId d.records).map fun p => asCall p.call) =
        (uploadRecords d.ioc d.firstId d.records).flatMap UploadRecord.calls :=
  recordsPlan_served d.records_listed d.records_legible (Int.ofNat_le.mpr d.positive) d.few_records

theorem valid : ValidFrom d.firstId d.calls := by
  rw [calls_eq]
  exact validFrom_tags (fun _ member => envPlan_tags member) d.envPlan_legible d.envPlan_known
    d.records_served.1

theorem fits : ∀ c ∈ d.calls, c.Fits = true := by
  intro c member
  obtain ⟨p, planned, rfl⟩ := List.mem_map.mp member
  exact asCall_fits (d.legible p planned)

def letters : List Letter := lettersFrom d.firstId d.calls d.valid d.fits

theorem record_legible {record : DbRecordType × DbRecordNode} (member : record ∈ d.records) :
    ∃ rid, ∀ c ∈ recordCall d.ioc record.2 :: tagCalls d.ioc rid record, Legible c := by
  have listed := d.records_listed record member
  obtain ⟨first, last, split⟩ := List.append_of_mem member
  refine ⟨d.firstId + first.length, fun c called => ?_⟩
  rw [← recordPlan_calls _ listed.1 listed.2] at called
  obtain ⟨p, planned, rfl⟩ := List.mem_map.mp called
  apply d.records_legible
  rw [split, recordsPlan_append]
  exact List.mem_append_right _ (List.mem_append_left _ planned)

theorem namesIn_legible {record : DbRecordType × DbRecordNode} (member : record ∈ d.records)
    {name : CString} (named : name ∈ namesIn d.ioc record) : IsText name := by
  obtain ⟨rid, legible⟩ := d.record_legible member
  rcases List.mem_cons.mp named with rfl | other
  · exact (legible _ List.mem_cons_self).2.1
  · have called : SendCall.sendAlias rid name ∈ tagCalls d.ioc rid record :=
      List.mem_append_left _ (List.mem_map_of_mem other)
    exact (legible _ (List.mem_cons_of_mem _ called)).1

theorem names_nodup :
    ((uploadRecords d.ioc d.firstId d.records).flatMap UploadRecord.names).Nodup := by
  rw [uploadRecords_names]
  apply List.Nodup.map_on _ d.distinct
  intro name member name' member' same
  obtain ⟨record, known, named⟩ := List.mem_flatMap.mp member
  obtain ⟨record', known', named'⟩ := List.mem_flatMap.mp member'
  exact text_injective (d.namesIn_legible known named) (d.namesIn_legible known' named') same

def upload : Recast.Upload where
  infos := (uploadInfos d.ioc).map fun info => (text info.1, text info.2)
  records := uploadRecords d.ioc d.firstId d.records
  ids_nodup := by
    rw [uploadRecords_ids]
    exact List.nodup_range'
  names_nodup := d.names_nodup

/-- The session calls of the messages are those of the upload. -/
theorem letters_calls : d.letters.map Letter.call ++ [.done] = d.upload.calls := by
  have infos : (envPlan d.ioc).map (fun c => (asCall c).session d.firstId) =
      d.upload.infoCalls := by
    rw [envPlan_eq, List.map_map, Recast.Upload.infoCalls, upload, List.map_map]
    rfl
  rw [letters, lettersFrom_calls, calls_eq, servedFrom_tags (fun _ member => envPlan_tags member)
    d.envPlan_legible, infos, d.records_served.2, List.append_assoc]
  rfl

end Database

end Recsync.System
