import Mathlib.Logic.Relation
import Recsync.Client.Database
import Recsync.Lib.Attempts

set_option autoImplicit false

/- The calls of an upload, as the database asks for them. -/
namespace Recsync.Client

open Attempts

/-- One more call was made. -/
def Upload.Sends (u u' : Upload) : Prop := ∃ call, u' = (u.send call).2

/-- Some calls were made. -/
def Upload.Reaches : Upload → Upload → Prop := Relation.ReflTransGen Upload.Sends

section Reaches

theorem Upload.send_reaches (u : Upload) (call : SendCall) : u.Reaches (u.send call).2 :=
  .single ⟨call, rfl⟩

theorem Upload.Reaches.extends {u u' : Upload} (reaches : u.Reaches u') : u.log <+: u'.log := by
  induction reaches with
  | refl => exact List.prefix_rfl
  | tail _ sends ih =>
    obtain ⟨call, rfl⟩ := sends
    exact ih.trans (List.prefix_append _ _)

theorem Upload.Reaches.counts {u u' : Upload} (reaches : u.Reaches u') {rid : Int}
    (counts : u.caster.Counts rid) : ∃ next, u'.caster.Counts next := by
  induction reaches with
  | refl => exact ⟨rid, counts⟩
  | tail _ sends ih =>
    obtain ⟨call, rfl⟩ := sends
    obtain ⟨next, counts⟩ := ih
    exact call.run_counts counts

theorem proceed_reaches {u : Upload} {status : Int × Upload} {next : Upload → Int × Upload}
    (first : u.Reaches status.2) (others : ∀ u' : Upload, u'.Reaches (next u').2) :
    u.Reaches (proceed status next).2 := by
  rw [proceed]
  split
  · exact first
  · exact first.trans (others status.2)

theorem sendEach_reaches {α : Type} (call : α → Option SendCall) (items : List α) (u : Upload) :
    u.Reaches (sendEach call items u).2 := by
  induction items generalizing u with
  | nil => exact .refl
  | cons item rest ih =>
    rw [sendEach]
    split
    · exact ih u
    · exact proceed_reaches (u.send_reaches _) ih

theorem pushTags_reaches (type : DbRecordType) (pent : DbRecordNode) (rid : Int) (u : Upload) :
    u.Reaches (pushTags type pent rid u).2 := by
  apply proceed_reaches _ (sendEach_reaches _ _)
  split
  · exact sendEach_reaches _ _ u
  · exact .refl

theorem pushDesc_reaches (desc : CString) (rid : Int) (status : Int × Upload) :
    status.2.Reaches (pushDesc desc rid status).2 := by
  rw [pushDesc]
  split
  · exact status.2.send_reaches _
  · exact .refl

variable (ioc : Ioc)

theorem pushRecord_reaches (type : DbRecordType) (pent : DbRecordNode) (u : Upload) :
    u.Reaches (pushRecord ioc type pent u).2 := by
  simp only [pushRecord]
  split
  · exact .refl
  split
  · exact .refl
  have first := u.send_reaches
    (.sendRecord (ioc.pdbbase.deref pent.precord).rdes (ioc.pdbbase.deref pent.precord).name)
  split
  · exact first
  · exact (first.trans (pushTags_reaches type pent _ _)).trans (pushDesc_reaches _ _ _)

theorem pushRecords_reaches (type : DbRecordType) (nodes : List DbRecordNode) (u : Upload) :
    u.Reaches (pushRecords ioc type nodes u).2 := by
  induction nodes generalizing u with
  | nil => exact .refl
  | cons pent rest ih => exact proceed_reaches (pushRecord_reaches ioc type pent u) ih

theorem pushRecordTypes_reaches (types : List DbRecordType) (u : Upload) :
    u.Reaches (pushRecordTypes ioc types u).2 := by
  induction types generalizing u with
  | nil => exact .refl
  | cons type rest ih =>
    exact proceed_reaches (pushRecords_reaches ioc type type.recList u) ih

theorem casterPushPDB_reaches (u : Upload) : u.Reaches (casterPushPDB ioc u).2 :=
  proceed_reaches (proceed_reaches (u.send_reaches _) (sendEach_reaches _ _))
    (pushRecordTypes_reaches ioc _)

theorem casterInit_counts (csock : ShSocket) : Caster.Counts { csock } 1 :=
  Or.inl ⟨rfl, by decide⟩

theorem casterPushPDB_counts {u : Upload} {rid : Int} (counts : u.caster.Counts rid) :
    ∃ next, (casterPushPDB ioc u).2.caster.Counts next :=
  (casterPushPDB_reaches ioc u).counts counts

end Reaches

structure Planned where
  call : SendCall
  /-- an alias or an info tag of a record with a description -/
  described : Bool := false
  deriving DecidableEq

/-- A call fails when it returns a negative value. -/
def Planned.perform (p : Planned) (u : Upload) : Bool × Upload :=
  (0 ≤ (u.send p.call).1, (u.send p.call).2)

section Plan

variable (ioc : Ioc)

def envPlan : List SendCall :=
  .sendInfo 0 epicsVersionName ioc.epicsVersion :: ioc.envs.filterMap (envCall ioc)

/-- The node is a record and its name matches no pattern. -/
def shown (pent : DbRecordNode) : Bool :=
  !pent.isAlias && !ioc.excludePatterns.any (ioc.globMatch (ioc.pdbbase.deref pent.precord).name)

def shownRecords : List DbRecordType → List (DbRecordType × DbRecordNode)
  | [] => []
  | type :: rest => (type.recList.filter (shown ioc)).map (type, ·) ++ shownRecords rest

def recordCall (pent : DbRecordNode) : SendCall :=
  .sendRecord (ioc.pdbbase.deref pent.precord).rdes (ioc.pdbbase.deref pent.precord).name

def tagPlan (type : DbRecordType) (pent : DbRecordNode) (rid : Int) : List SendCall :=
  (if pent.hasAlias then type.recList.filterMap (aliasCall rid pent) else []) ++
    pent.infos.filterMap (infoCall rid)

/-- The description of a record, if it is sent. -/
def descOf (pent : DbRecordNode) : Option CString :=
  given (some (ioc.pdbbase.deref pent.precord).desc)

def descPlan (pent : DbRecordNode) (rid : Int) : List SendCall :=
  ((descOf ioc pent).map (.sendInfo rid recordDesc)).toList

def recordPlan (type : DbRecordType) (pent : DbRecordNode) (rid : Int) : List Planned :=
  ⟨recordCall ioc pent, false⟩ ::
    ((tagPlan type pent rid).map (⟨·, (descOf ioc pent).isSome⟩) ++
      (descPlan ioc pent rid).map (⟨·, false⟩))

/-- The records get their ids in order. -/
def recordsPlan : Int → List (DbRecordType × DbRecordNode) → List Planned
  | _, [] => []
  | rid, (type, pent) :: rest => recordPlan ioc type pent rid ++ recordsPlan (rid + 1) rest

/-- The whole upload, with the first id. -/
def uploadPlan (rid : Int) : List Planned :=
  (envPlan ioc).map (⟨·, false⟩) ++ recordsPlan ioc rid (shownRecords ioc ioc.pdbbase.recordTypes)

end Plan

/-- The status and the caster are those at the end of the plan. -/
def Carries (e : End Planned Upload) (status : Int × Upload) : Prop :=
  match e with
  | .complete u => status = (0, u)
  | .failed _ u => status = (-1, u)

/-- The upload ends like the plan, but where a tag of a record with a description fails it
goes on. -/
def Follows (e : End Planned Upload) (status : Int × Upload) : Prop :=
  match e with
  | .complete u => status = (0, u)
  | .failed p u =>
    if p.described then ∃ entry, u.log ++ [entry] <+: status.2.log else status = (-1, u)

section Follows

theorem Carries.follows {plan : List Planned} {u : Upload} {status : Int × Upload}
    (carries : Carries (attempt Planned.perform plan u) status)
    (plain : ∀ p ∈ plan, p.described = false) :
    Follows (attempt Planned.perform plan u) status := by
  cases made : attempt Planned.perform plan u with
  | complete u' =>
    rw [made] at carries
    exact carries
  | failed p u' =>
    rw [made] at carries
    rw [Follows, plain p (mem_of_failed _ made)]
    exact carries

theorem carries_proceed {first second : List Planned} {u : Upload} {status : Int × Upload}
    {next : Upload → Int × Upload} (carries : Carries (attempt Planned.perform first u) status)
    (others : ∀ u', Carries (attempt Planned.perform second u') (next u')) :
    Carries (attempt Planned.perform (first ++ second) u) (proceed status next) := by
  rw [attempt_append]
  cases made : attempt Planned.perform first u with
  | complete u' =>
    rw [made] at carries
    obtain rfl : status = (0, u') := carries
    exact others u'
  | failed p u' =>
    rw [made] at carries
    obtain rfl : status = (-1, u') := carries
    exact rfl

/-- A call that is no record call is carried out like the plan. -/
theorem send_carries {c : SendCall} (tag : c.IsTag) (described : Bool) (u : Upload) :
    Carries (attempt Planned.perform [⟨c, described⟩] u) (u.send c) := by
  have returns : (u.send c).1 = 0 ∨ (u.send c).1 = -1 := (SendCall.tag_run tag u.caster).1
  rw [attempt_cons, Planned.perform]
  cases returns with
  | inl zero =>
    simp only [zero, Int.le_refl, decide_true, if_true]
    exact Prod.ext zero rfl
  | inr minus =>
    simp only [minus, show ¬ (0 : Int) ≤ -1 by decide, decide_false, Bool.false_eq_true, if_false]
    exact Prod.ext minus rfl

theorem sendEach_carries {α : Type} {call : α → Option SendCall}
    (tags : ∀ item c, call item = some c → c.IsTag) (described : Bool) (items : List α)
    (u : Upload) :
    Carries (attempt Planned.perform ((items.filterMap call).map (⟨·, described⟩)) u)
      (sendEach call items u) := by
  induction items generalizing u with
  | nil => exact rfl
  | cons item rest ih =>
    cases asked : call item with
    | none =>
      simp only [List.filterMap_cons_none asked, sendEach, asked]
      exact ih u
    | some c =>
      simp only [List.filterMap_cons_some asked, List.map_cons, sendEach, asked]
      exact carries_proceed (send_carries (tags item c asked) described u) ih

theorem follows_proceed {first second : List Planned} {u : Upload} {status : Int × Upload}
    {next : Upload → Int × Upload} (follows : Follows (attempt Planned.perform first u) status)
    (others : ∀ u', attempt Planned.perform first u = .complete u' →
      Follows (attempt Planned.perform second u') (next u'))
    (reaches : ∀ u' : Upload, u'.Reaches (next u').2) :
    Follows (attempt Planned.perform (first ++ second) u) (proceed status next) := by
  rw [attempt_append]
  cases made : attempt Planned.perform first u with
  | complete u' =>
    rw [made] at follows
    obtain rfl : status = (0, u') := follows
    exact others u' made
  | failed p u' =>
    rw [made, Follows] at follows
    show Follows (.failed p u') _
    rw [Follows]
    by_cases described : p.described = true
    · rw [if_pos described] at follows ⊢
      obtain ⟨entry, more⟩ := follows
      refine ⟨entry, more.trans ?_⟩
      rw [proceed]
      split
      · exact List.prefix_rfl
      · exact (reaches status.2).extends
    · rw [if_neg described] at follows ⊢
      rw [follows]
      rfl

theorem aliasCall_tag {rid : Int} {pent subent : DbRecordNode} {c : SendCall}
    (asked : aliasCall rid pent subent = some c) : c.IsTag := by
  rw [aliasCall] at asked
  split at asked
  · rw [← Option.some.inj asked]
    trivial
  · cases asked

theorem infoCall_tag {rid : Int} {info : CString × Option CString} {c : SendCall}
    (asked : infoCall rid info = some c) : c.IsTag := by
  obtain ⟨val, -, rfl⟩ := Option.map_eq_some_iff.mp asked
  trivial

theorem envCall_tag {ioc : Ioc} {name : CString} {c : SendCall}
    (asked : envCall ioc name = some c) : c.IsTag := by
  obtain ⟨val, -, rfl⟩ := Option.map_eq_some_iff.mp asked
  trivial

theorem pushTags_carries (described : Bool) (type : DbRecordType) (pent : DbRecordNode)
    (rid : Int) (u : Upload) :
    Carries (attempt Planned.perform ((tagPlan type pent rid).map (⟨·, described⟩)) u)
      (pushTags type pent rid u) := by
  rw [tagPlan, List.map_append]
  apply carries_proceed
  · split
    · exact sendEach_carries (fun _ _ => aliasCall_tag) described type.recList u
    · exact rfl
  · exact sendEach_carries (fun _ _ => infoCall_tag) described pent.infos

theorem pushDesc_follows (ioc : Ioc) (pent : DbRecordNode) (rid : Int) {tags : List SendCall}
    {u : Upload} {status : Int × Upload}
    (carries : Carries
      (attempt Planned.perform (tags.map (⟨·, (descOf ioc pent).isSome⟩)) u) status) :
    Follows
      (attempt Planned.perform (tags.map (⟨·, (descOf ioc pent).isSome⟩) ++
        (descPlan ioc pent rid).map (⟨·, false⟩)) u)
      (pushDesc (ioc.pdbbase.deref pent.precord).desc rid status) := by
  cases desc : descOf ioc pent with
  | none =>
    rw [desc] at carries
    rw [descPlan, desc, Option.map_none, Option.toList_none, List.map_nil, List.append_nil,
      pushDesc, show given _ = none from desc]
    apply carries.follows
    simp
  | some val =>
    rw [desc] at carries
    rw [descPlan, desc, Option.map_some, Option.toList_some, List.map_singleton, attempt_append,
      pushDesc, show given _ = some val from desc]
    cases made : attempt Planned.perform _ u with
    | complete u' =>
      rw [made] at carries
      obtain rfl : status = (0, u') := carries
      exact (send_carries (show SendCall.IsTag (.sendInfo rid recordDesc val) from trivial) false
        u').follows (by simp)
    | failed p u' =>
      rw [made] at carries
      obtain rfl : status = (-1, u') := carries
      obtain ⟨c, -, rfl⟩ := List.mem_map.mp (mem_of_failed _ made)
      exact ⟨_, List.prefix_rfl⟩

theorem pushRecord_hidden {ioc : Ioc} {pent : DbRecordNode} (hidden : shown ioc pent = false)
    (type : DbRecordType) (u : Upload) : pushRecord ioc type pent u = (0, u) := by
  rw [shown, Bool.and_eq_false_iff] at hidden
  cases hidden with
  | inl other => simp_all [pushRecord]
  | inr matched =>
    rw [Bool.not_eq_false'] at matched
    simp [pushRecord, matched]

theorem pushRecord_shown {ioc : Ioc} {pent : DbRecordNode} (visible : shown ioc pent = true)
    (type : DbRecordType) (u : Upload) : pushRecord ioc type pent u =
      if (u.send (recordCall ioc pent)).1 ≤ 0 then u.send (recordCall ioc pent)
      else
        pushDesc (ioc.pdbbase.deref pent.precord).desc (u.send (recordCall ioc pent)).1
          (pushTags type pent (u.send (recordCall ioc pent)).1 (u.send (recordCall ioc pent)).2) := by
  rw [shown, Bool.and_eq_true, Bool.not_eq_true', Bool.not_eq_true'] at visible
  simp only [pushRecord, visible.1, visible.2, Bool.false_eq_true, if_false]
  rfl

theorem attempt_recordPlan {ioc : Ioc} (type : DbRecordType) (pent : DbRecordNode) {u : Upload}
    {rid : Int} (counts : u.caster.Counts rid) :
    (u.send (recordCall ioc pent)).2.caster.Counts (rid + 1) ∧
      ((u.send (recordCall ioc pent)).1 = -1 ∧
          attempt Planned.perform (recordPlan ioc type pent rid) u =
            .failed ⟨recordCall ioc pent, false⟩ (u.send (recordCall ioc pent)).2 ∨
        0 < rid ∧ (u.send (recordCall ioc pent)).1 = rid ∧
          attempt Planned.perform (recordPlan ioc type pent rid) u =
            attempt Planned.perform
              ((tagPlan type pent rid).map (⟨·, (descOf ioc pent).isSome⟩) ++
                (descPlan ioc pent rid).map (⟨·, false⟩)) (u.send (recordCall ioc pent)).2) := by
  obtain ⟨returns, next⟩ := SendCall.record_run counts (ioc.pdbbase.deref pent.precord).rdes
    (ioc.pdbbase.deref pent.precord).name
  refine ⟨next, ?_⟩
  rw [recordPlan, attempt_cons, Planned.perform]
  cases returns with
  | inl minus =>
    have failed : (u.send (recordCall ioc pent)).1 = -1 := minus
    exact Or.inl ⟨failed, by simp [failed]⟩
  | inr given =>
    have sent : (u.send (recordCall ioc pent)).1 = rid := given.2
    have success : 0 ≤ rid := Int.le_of_lt given.1
    exact Or.inr ⟨given.1, sent, by simp [sent, success]⟩

theorem pushRecord_follows {ioc : Ioc} (type : DbRecordType) {pent : DbRecordNode}
    (visible : shown ioc pent = true) {u : Upload} {rid : Int} (counts : u.caster.Counts rid) :
    Follows (attempt Planned.perform (recordPlan ioc type pent rid) u)
      (pushRecord ioc type pent u) := by
  rw [pushRecord_shown visible]
  cases (attempt_recordPlan type pent counts).2 with
  | inl failed =>
    rw [failed.2, if_pos (by rw [failed.1]; decide)]
    exact Prod.ext failed.1 rfl
  | inr sent =>
    obtain ⟨positive, rid_eq, made⟩ := sent
    rw [made, rid_eq, if_neg (Int.not_le.mpr positive)]
    exact pushDesc_follows ioc pent rid (pushTags_carries _ type pent rid _)

/-- The calls that send no record keep the number of the next one. -/
theorem attempt_tags {plan : List Planned} (tags : ∀ p ∈ plan, p.call.IsTag) (u : Upload) :
    (attempt Planned.perform plan u).state.caster.nextRecID = u.caster.nextRecID := by
  induction plan generalizing u with
  | nil => rfl
  | cons p rest ih =>
    rw [List.forall_mem_cons] at tags
    have kept : (u.send p.call).2.caster.nextRecID = u.caster.nextRecID :=
      (SendCall.tag_run tags.1 u.caster).2
    rw [attempt_cons, Planned.perform]
    split
    · exact (ih tags.2 _).trans kept
    · exact kept

theorem tagPlan_tags {type : DbRecordType} {pent : DbRecordNode} {rid : Int} {c : SendCall}
    (member : c ∈ tagPlan type pent rid) : c.IsTag := by
  cases List.mem_append.mp member with
  | inl alias' =>
    split at alias'
    · obtain ⟨subent, -, asked⟩ := List.mem_filterMap.mp alias'
      exact aliasCall_tag asked
    · cases alias'
  | inr info =>
    obtain ⟨item, -, asked⟩ := List.mem_filterMap.mp info
    exact infoCall_tag asked

theorem descPlan_tags {ioc : Ioc} {pent : DbRecordNode} {rid : Int} {c : SendCall}
    (member : c ∈ descPlan ioc pent rid) : c.IsTag := by
  obtain ⟨val, -, rfl⟩ := Option.map_eq_some_iff.mp (Option.mem_toList.mp member)
  trivial

theorem recordPlan_counts {ioc : Ioc} (type : DbRecordType) (pent : DbRecordNode) {u : Upload}
    {rid : Int} (counts : u.caster.Counts rid) :
    (attempt Planned.perform (recordPlan ioc type pent rid) u).state.caster.Counts (rid + 1) := by
  obtain ⟨next, failed | sent⟩ := @attempt_recordPlan ioc type pent u rid counts
  · rw [failed.2]
    exact next
  · rw [sent.2.2, Caster.Counts, attempt_tags]
    · exact next
    · rw [List.forall_mem_append, List.forall_mem_map, List.forall_mem_map]
      exact ⟨fun c => tagPlan_tags, fun c => descPlan_tags⟩

/-- The id of the second record, counted over the rest. -/
theorem rid_length_cons {α : Type} (rid : Int) (record : α) (rest : List α) :
    rid + 1 + (rest.length : Int) = rid + ((record :: rest).length : Int) := by
  rw [List.length_cons]
  omega

theorem recordsPlan_append (ioc : Ioc) (rid : Int)
    (first second : List (DbRecordType × DbRecordNode)) :
    recordsPlan ioc rid (first ++ second) =
      recordsPlan ioc rid first ++ recordsPlan ioc (rid + first.length) second := by
  induction first generalizing rid with
  | nil => simp [recordsPlan]
  | cons record rest ih =>
    rw [List.cons_append, recordsPlan, recordsPlan, ih, rid_length_cons rid record rest,
      List.append_assoc]

theorem recordsPlan_counts {ioc : Ioc} (records : List (DbRecordType × DbRecordNode)) {u u' : Upload}
    {rid : Int} (counts : u.caster.Counts rid)
    (made : attempt Planned.perform (recordsPlan ioc rid records) u = .complete u') :
    u'.caster.Counts (rid + records.length) := by
  induction records generalizing u rid with
  | nil =>
    cases made
    simpa using counts
  | cons record rest ih =>
    have first := @recordPlan_counts ioc record.1 record.2 u rid counts
    rw [recordsPlan, attempt_append] at made
    cases here : attempt Planned.perform (recordPlan ioc record.1 record.2 rid) u with
    | complete middle =>
      rw [here] at made first
      rw [← rid_length_cons]
      exact ih first made
    | failed p middle =>
      rw [here] at made
      cases made

theorem pushRecords_follows (ioc : Ioc) (type : DbRecordType) (nodes : List DbRecordNode)
    {u : Upload} {rid : Int} (counts : u.caster.Counts rid) :
    Follows
      (attempt Planned.perform
        (recordsPlan ioc rid ((nodes.filter (shown ioc)).map (type, ·))) u)
      (pushRecords ioc type nodes u) := by
  induction nodes generalizing u rid with
  | nil => exact rfl
  | cons pent rest ih =>
    cases visible : shown ioc pent with
    | false =>
      rw [List.filter_cons_of_neg (by rw [visible]; decide), pushRecords,
        pushRecord_hidden visible]
      exact ih counts
    | true =>
      rw [List.filter_cons_of_pos visible, List.map_cons, recordsPlan]
      apply follows_proceed (pushRecord_follows type visible counts)
      · intro u' made
        have next := @recordPlan_counts ioc type pent u rid counts
        rw [made] at next
        exact ih next
      · exact pushRecords_reaches ioc type rest

theorem pushRecordTypes_follows (ioc : Ioc) (types : List DbRecordType) {u : Upload} {rid : Int}
    (counts : u.caster.Counts rid) :
    Follows (attempt Planned.perform (recordsPlan ioc rid (shownRecords ioc types)) u)
      (pushRecordTypes ioc types u) := by
  induction types generalizing u rid with
  | nil => exact rfl
  | cons type rest ih =>
    rw [shownRecords, recordsPlan_append]
    apply follows_proceed (pushRecords_follows ioc type type.recList counts)
    · intro u' made
      exact ih (recordsPlan_counts _ counts made)
    · exact pushRecordTypes_reaches ioc rest

theorem pushEnv_carries (ioc : Ioc) (u : Upload) :
    Carries (attempt Planned.perform ((envPlan ioc).map (⟨·, false⟩)) u) (pushEnv ioc u) :=
  carries_proceed (send_carries (show SendCall.IsTag (.sendInfo 0 _ _) from trivial) false u)
    (sendEach_carries (fun _ _ => envCall_tag) false ioc.envs)

theorem envPlan_tags {ioc : Ioc} {c : SendCall} (member : c ∈ envPlan ioc) : c.IsTag := by
  cases List.mem_cons.mp member with
  | inl version =>
    rw [version]
    trivial
  | inr variable' =>
    obtain ⟨name, -, asked⟩ := List.mem_filterMap.mp variable'
    exact envCall_tag asked

theorem envPlan_counts (ioc : Ioc) {u : Upload} {rid : Int} (counts : u.caster.Counts rid) :
    (attempt Planned.perform ((envPlan ioc).map (⟨·, false⟩)) u).state.caster.Counts rid := by
  rw [Caster.Counts, attempt_tags (List.forall_mem_map.mpr fun c => envPlan_tags)]
  exact counts

theorem casterPushPDB_follows (ioc : Ioc) {u : Upload} {rid : Int}
    (counts : u.caster.Counts rid) :
    Follows (attempt Planned.perform (uploadPlan ioc rid) u) (casterPushPDB ioc u) := by
  apply follows_proceed ((pushEnv_carries ioc u).follows (by simp))
  · intro u' made
    have kept := envPlan_counts ioc counts
    rw [made] at kept
    exact pushRecordTypes_follows ioc ioc.pdbbase.recordTypes kept
  · exact pushRecordTypes_reaches ioc ioc.pdbbase.recordTypes

end Follows

section Log

theorem log_of_complete {plan : List Planned} {u u' : Upload}
    (made : attempt Planned.perform plan u = .complete u') :
    ∃ entries, u'.log = u.log ++ entries ∧ entries.map Prod.fst = plan.map Planned.call ∧
      ∀ entry ∈ entries, 0 ≤ entry.2 := by
  induction plan generalizing u with
  | nil =>
    cases made
    exact ⟨[], by simp⟩
  | cons p rest ih =>
    rw [attempt_cons, Planned.perform] at made
    split at made
    · rename_i success
      obtain ⟨entries, log, calls, sent⟩ := ih made
      refine ⟨(p.call, (u.send p.call).1) :: entries, ?_, ?_, ?_⟩
      · rw [log]
        exact List.append_assoc _ _ _
      · rw [List.map_cons, List.map_cons, calls]
      · exact List.forall_mem_cons.mpr ⟨of_decide_eq_true success, sent⟩
    · cases made

theorem log_of_failed {plan : List Planned} {u u' : Upload} {p : Planned}
    (made : attempt Planned.perform plan u = .failed p u') :
    ∃ entries ret, u'.log = u.log ++ entries ++ [(p.call, ret)] ∧ ret < 0 ∧
      ∀ entry ∈ entries, 0 ≤ entry.2 := by
  induction plan generalizing u with
  | nil => cases made
  | cons first rest ih =>
    rw [attempt_cons, Planned.perform] at made
    split at made
    · rename_i success
      obtain ⟨entries, ret, log, negative, sent⟩ := ih made
      refine ⟨(first.call, (u.send first.call).1) :: entries, ret, ?_, negative, ?_⟩
      · rw [log]
        simp [Upload.send]
      · exact List.forall_mem_cons.mpr ⟨of_decide_eq_true success, sent⟩
    · rename_i failure
      obtain ⟨rfl, rfl⟩ := End.failed.inj made
      refine ⟨[], (u.send first.call).1, ?_, ?_, by simp⟩
      · rw [List.append_nil]
        rfl
      · exact Int.not_le.mp fun success => failure (decide_eq_true success)

end Log

end Recsync.Client
