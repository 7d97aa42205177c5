import Recsync.Client.UploadPlan

set_option autoImplicit false

/- When an upload stops at the first send that fails. -/
namespace Recsync.Client

open Attempts Bytes

/-- No call is made after a failed one, the upload returns an error, and Upload Done is not sent. -/
structure StopsAtFailure (ioc : Ioc) (caster : Caster) : Prop where
  last : ∀ before entry after,
    (casterPushPDB ioc ⟨caster, []⟩).2.log = before ++ entry :: after → entry.2 < 0 → after = []
  reported : ∀ entry ∈ (casterPushPDB ioc ⟨caster, []⟩).2.log, entry.2 < 0 →
    (casterPushPDB ioc ⟨caster, []⟩).1 ≠ 0
  noDone : ∀ entry ∈ (casterPushPDB ioc ⟨caster, []⟩).2.log, entry.2 < 0 →
    (doCasterTCPUpload ioc ⟨caster, []⟩).doneSent = false

theorem doneSent_eq_false {ioc : Ioc} {u : Upload} (failed : (casterPushPDB ioc u).1 ≠ 0) :
    (doCasterTCPUpload ioc u).doneSent = false := by
  rw [doCasterTCPUpload]
  dsimp only
  rw [if_pos failed]

/-- Where only the last entry of a log can be negative, nothing follows a negative one. -/
theorem nothing_after {entries before after : List (SendCall × Int)} {final entry : SendCall × Int}
    (sent : ∀ e ∈ entries, 0 ≤ e.2) (split : entries ++ [final] = before ++ entry :: after)
    (negative : entry.2 < 0) : after = [] := by
  cases List.eq_nil_or_concat after with
  | inl none => exact none
  | inr some =>
    obtain ⟨others, end', rfl⟩ := some
    have front : entries ++ [final] = (before ++ entry :: others) ++ [end'] := by simp [split]
    have inside : entry ∈ entries := by
      rw [(List.append_inj' front rfl).1]
      simp
    exact absurd (sent entry inside) (Int.not_le.mpr negative)

section Stops

variable {ioc : Ioc} {self : Caster} {rid : Int}

theorem stops_of_complete {u' : Upload}
    (made : attempt Planned.perform (uploadPlan ioc rid) ⟨self, []⟩ = .complete u')
    (status : casterPushPDB ioc ⟨self, []⟩ = (0, u')) : StopsAtFailure ioc self := by
  obtain ⟨entries, log, -, sent⟩ := log_of_complete made
  have calm : ∀ entry ∈ (casterPushPDB ioc ⟨self, []⟩).2.log, ¬ entry.2 < 0 := by
    rw [status, log]
    intro entry member
    exact Int.not_lt.mpr (sent entry member)
  constructor
  · intro before entry after split negative
    exact absurd negative (calm entry (by simp [split]))
  · intro entry member negative
    exact absurd negative (calm entry member)
  · intro entry member negative
    exact absurd negative (calm entry member)

theorem stops_of_failed {p : Planned} {u' : Upload}
    (made : attempt Planned.perform (uploadPlan ioc rid) ⟨self, []⟩ = .failed p u')
    (status : casterPushPDB ioc ⟨self, []⟩ = (-1, u')) : StopsAtFailure ioc self := by
  obtain ⟨entries, ret, log, -, sent⟩ := log_of_failed made
  have error : (casterPushPDB ioc ⟨self, []⟩).1 ≠ 0 := by
    rw [status]
    exact show (-1 : Int) ≠ 0 by decide
  constructor
  · intro before entry after split negative
    rw [status, log, List.nil_append] at split
    exact nothing_after sent split negative
  · intro entry member negative
    exact error
  · intro entry member negative
    exact doneSent_eq_false error

theorem not_stops {p : Planned} {u' : Upload} {entry : SendCall × Int}
    (made : attempt Planned.perform (uploadPlan ioc rid) ⟨self, []⟩ = .failed p u')
    (more : u'.log ++ [entry] <+: (casterPushPDB ioc ⟨self, []⟩).2.log) :
    ¬ StopsAtFailure ioc self := by
  intro stops
  obtain ⟨entries, ret, log, negative, -⟩ := log_of_failed made
  obtain ⟨others, split⟩ := more
  have after := stops.last entries (p.call, ret) (entry :: others) (by
    rw [← split, log]
    simp) negative
  cases after

end Stops

/-- The upload stops at the first send that fails exactly when this is no alias and no info tag of a
record that has a description. -/
theorem casterPushPDB_stops_iff (ioc : Ioc) {self : Caster} {rid : Int}
    (counts : self.Counts rid) :
    StopsAtFailure ioc self ↔
      ∀ p, (attempt Planned.perform (uploadPlan ioc rid) ⟨self, []⟩).failure = some p →
        p.described = false := by
  have follows := @casterPushPDB_follows ioc ⟨self, []⟩ rid counts
  cases made : attempt Planned.perform (uploadPlan ioc rid) ⟨self, []⟩ with
  | complete u' =>
    rw [made] at follows
    constructor
    · intro stops p failed
      cases failed
    · intro condition
      exact stops_of_complete made follows
  | failed p u' =>
    rw [made, Follows] at follows
    by_cases described : p.described = true
    · rw [if_pos described] at follows
      obtain ⟨entry, more⟩ := follows
      constructor
      · intro stops
        exact absurd stops (not_stops made more)
      · intro condition
        rw [condition p rfl] at described
        cases described
    · rw [if_neg described] at follows
      constructor
      · intro stops q failed
        rw [← Option.some.inj failed]
        exact Bool.eq_false_iff.mpr described
      · intro condition
        exact stops_of_failed made follows

/-- A record with an info tag and no aliases. -/
def motor : DbRecordNode where
  recordname := ⟨encode "TEST:motor", by decide +kernel⟩
  precord := 0
  infos := [(⟨encode "archive", by decide +kernel⟩, some ⟨encode "fast", by decide +kernel⟩)]

def taggedIoc : Ioc where
  epicsVersion := ⟨encode "7.0.9", by decide +kernel⟩
  globMatch := fun _ _ => false
  pdbbase := {
    recordTypes := [⟨[motor], by decide⟩]
    deref := fun _ => {
      name := ⟨encode "TEST:motor", by decide +kernel⟩
      rdes := ⟨encode "motor", by decide +kernel⟩
      desc := ⟨encode "Motor", by decide +kernel⟩ } }

/-- The connection breaks in the name of the record. -/
def brokenAtRecord : Caster where
  csock := { outcomes := List.replicate 7 .all ++ [.failed (-1) (by decide) 3] }

theorem casterPushPDB_stops_iff_record : StopsAtFailure taggedIoc brokenAtRecord := by
  apply (casterPushPDB_stops_iff taggedIoc (Or.inl ⟨rfl, by decide⟩ : brokenAtRecord.Counts 1)).mpr
  have failure : (attempt Planned.perform (uploadPlan taggedIoc 1) ⟨brokenAtRecord, []⟩).failure =
      some ⟨recordCall taggedIoc motor, false⟩ := by
    decide +kernel
  intro p failed
  rw [failure] at failed
  cases failed
  rfl

/-- The header of the info tag is not sent, and the sends after it are. -/
def brokenAtTag : Caster where
  csock := { outcomes := List.replicate 8 .all ++ [.failed (-1) (by decide) 0] }

/-- The upload is reported as complete without the tag, and Upload Done is sent. -/
theorem failed_tag_masked :
    (casterPushPDB taggedIoc ⟨brokenAtTag, []⟩).2.log.map Prod.snd = [0, 1, -1, 0] ∧
      (casterPushPDB taggedIoc ⟨brokenAtTag, []⟩).1 = 0 ∧
      (doCasterTCPUpload taggedIoc ⟨brokenAtTag, []⟩).doneSent = true ∧
      ¬ StopsAtFailure taggedIoc brokenAtTag := by
  have log : (casterPushPDB taggedIoc ⟨brokenAtTag, []⟩).2.log.map Prod.snd = [0, 1, -1, 0] := by
    decide +kernel
  have status : (casterPushPDB taggedIoc ⟨brokenAtTag, []⟩).1 = 0 := by decide +kernel
  have done : (doCasterTCPUpload taggedIoc ⟨brokenAtTag, []⟩).doneSent = true := by decide +kernel
  refine ⟨log, status, done, fun stops => ?_⟩
  have inside : (-1 : Int) ∈ (casterPushPDB taggedIoc ⟨brokenAtTag, []⟩).2.log.map Prod.snd := by
    rw [log]
    decide
  obtain ⟨entry, member, negative⟩ := List.mem_map.mp inside
  exact stops.reported entry member (by rw [negative]; decide) status

end Recsync.Client
