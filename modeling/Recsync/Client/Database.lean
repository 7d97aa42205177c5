import Mathlib.Algebra.Group.Int.Defs
import Recsync.Client.Caster

set_option autoImplicit false

/- The upload of the record database: `dbcb.c`. -/
namespace Recsync.Client

open Bytes

deriving instance DecidableEq for CString

/-- `val && val[0] != '\0'` -/
def given (val : Option CString) : Option CString :=
  val.filter fun s => !s.bytes.isEmpty

/-- What `dbcb.c` reads of a `dbCommon`, with the name of its `rdes`. -/
structure DbCommon where
  name : CString
  rdes : CString
  desc : CString

/-- A `dbRecordNode`. A record and its aliases have the same `precord`. -/
structure DbRecordNode where
  recordname : CString
  precord : Nat
  isAlias : Bool := false
  /-- `DBRN_FLAGS_HASALIAS` -/
  hasAlias : Bool := false
  infos : List (CString × Option CString) := []

/-- A record type lists its records and their aliases. A record with an alias is flagged. -/
structure DbRecordType where
  recList : List DbRecordNode
  flagged : ∀ r ∈ recList, ∀ a ∈ recList, r.isAlias = false → a.isAlias = true →
    a.precord = r.precord → r.hasAlias = true

structure DbBase where
  recordTypes : List DbRecordType
  deref : Nat → DbCommon

/-- What an upload reads and does not change. -/
structure Ioc where
  getenv : CString → Option CString := fun _ => none
  /-- none when the call fails -/
  gethostname : Option CString := none
  epicsVersion : CString
  envs : List CString := []
  excludePatterns : List CString := []
  /-- `epicsStrGlobMatch` -/
  globMatch : CString → CString → Bool
  pdbbase : DbBase

/-- A call of one of the functions that send an entry. -/
inductive SendCall where
  | sendRecord (rtype rname : CString)
  | sendAlias (rid : Int) (rname : CString)
  | sendInfo (rid : Int) (name val : CString)
  deriving DecidableEq

def SendCall.run (self : Caster) : SendCall → Int × Caster
  | sendRecord rtype rname => casterSendRecord self rtype rname
  | sendAlias rid rname => casterSendAlias self rid.toNat rname
  | sendInfo rid name val => casterSendInfo self rid name val

/-- The caster with the calls made so far and what they returned. -/
structure Upload where
  caster : Caster
  log : List (SendCall × Int) := []

def Upload.send (u : Upload) (call : SendCall) : Int × Upload :=
  let (ret, caster) := call.run u.caster
  (ret, { caster, log := u.log ++ [(call, ret)] })

/-- What comes after a status is left out unless the status is zero. -/
def proceed (status : Int × Upload) (next : Upload → Int × Upload) : Int × Upload :=
  if status.1 ≠ 0 then status else next status.2

/-- `for (item = first; !ret && item; item = next)` around a send for some of the items. -/
def sendEach {α : Type} (call : α → Option SendCall) : List α → Upload → Int × Upload
  | [], u => (0, u)
  | item :: rest, u =>
    match call item with
    | none => sendEach call rest u
    | some c => proceed (u.send c) (sendEach call rest)

def hostname : CString := ⟨encode "HOSTNAME", by decide +kernel⟩

def epicsVersionName : CString := ⟨encode "EPICS_VERSION", by decide +kernel⟩

def recordDesc : CString := ⟨encode "recordDesc", by decide +kernel⟩

/-- The environment after `HOSTNAME` is set where it was not. -/
def Ioc.environment (ioc : Ioc) : CString → Option CString :=
  match ioc.getenv hostname, ioc.gethostname with
  | none, some buf => fun name => if name = hostname then some buf else ioc.getenv name
  | _, _ => ioc.getenv

def envCall (ioc : Ioc) (name : CString) : Option SendCall :=
  (given (ioc.environment name)).map (.sendInfo 0 name)

def pushEnv (ioc : Ioc) (u : Upload) : Int × Upload :=
  proceed (u.send (.sendInfo 0 epicsVersionName ioc.epicsVersion))
    (sendEach (envCall ioc) ioc.envs)

def aliasCall (rid : Int) (pent subent : DbRecordNode) : Option SendCall :=
  if subent.isAlias ∧ subent.precord = pent.precord then some (.sendAlias rid subent.recordname)
  else none

def infoCall (rid : Int) (info : CString × Option CString) : Option SendCall :=
  (given info.2).map (.sendInfo rid info.1)

/-- The two loops of `pushRecord`, over the aliases of the record and over its info tags. -/
def pushTags (type : DbRecordType) (pent : DbRecordNode) (rid : Int) (u : Upload) : Int × Upload :=
  proceed (if pent.hasAlias then sendEach (aliasCall rid pent) type.recList u else (0, u))
    (sendEach (infoCall rid) pent.infos)

/-- The end of `pushRecord`. A description is sent whatever the status is, and gives the new one. -/
def pushDesc (desc : CString) (rid : Int) (status : Int × Upload) : Int × Upload :=
  match given (some desc) with
  | some val => status.2.send (.sendInfo rid recordDesc val)
  | none => status

def pushRecord (ioc : Ioc) (type : DbRecordType) (pent : DbRecordNode) (u : Upload) :
    Int × Upload :=
  let prec := ioc.pdbbase.deref pent.precord
  if pent.isAlias then (0, u)
  else if ioc.excludePatterns.any (ioc.globMatch prec.name) then (0, u)
  else
    let (rid, u) := u.send (.sendRecord prec.rdes prec.name)
    if rid ≤ 0 then (rid, u)
    else pushDesc prec.desc rid (pushTags type pent rid u)

def pushRecords (ioc : Ioc) (type : DbRecordType) : List DbRecordNode → Upload → Int × Upload
  | [], u => (0, u)
  | pent :: rest, u => proceed (pushRecord ioc type pent u) (pushRecords ioc type rest)

def pushRecordTypes (ioc : Ioc) : List DbRecordType → Upload → Int × Upload
  | [], u => (0, u)
  | type :: rest, u => proceed (pushRecords ioc type type.recList u) (pushRecordTypes ioc rest)

def casterPushPDB (ioc : Ioc) (u : Upload) : Int × Upload :=
  proceed (pushEnv ioc u) (pushRecordTypes ioc ioc.pdbbase.recordTypes)

/-- How the upload in `doCasterTCPPhase` ends. -/
structure UploadEnd where
  ret : Int
  upload : Upload
  /-- the header of Upload Done is sent -/
  doneSent : Bool

/-- `doCasterTCPPhase` from the call of `getrecords` up to Upload Done. -/
def doCasterTCPUpload (ioc : Ioc) (u : Upload) : UploadEnd :=
  let (ret, u) := casterPushPDB ioc u
  if ret ≠ 0 then ⟨-1, u, false⟩
  else
    let (sent, csock) := sendParts [packedHead 0x0005 4, ofUInt 4 0] u.caster.csock
    ⟨sent, { u with caster := { u.caster with csock } }, true⟩

section Returns

theorem sendParts_returns (parts : List (List UInt8)) (s : ShSocket) :
    (sendParts parts s).1 = 0 ∨ (sendParts parts s).1 = -1 := by
  induction parts generalizing s with
  | nil => exact Or.inl rfl
  | cons part rest ih =>
    rw [sendParts]
    by_cases whole : (shSendAll s part).1 = 1
    · simp only [whole, ne_eq, not_true_eq_false, if_false]
      exact ih _
    · right
      simp [whole]

def SendCall.IsTag : SendCall → Prop
  | sendRecord _ _ => False
  | _ => True

theorem SendCall.tag_run {call : SendCall} (tag : call.IsTag) (self : Caster) :
    ((call.run self).1 = 0 ∨ (call.run self).1 = -1) ∧
      (call.run self).2.nextRecID = self.nextRecID := by
  cases call with
  | sendRecord => exact tag.elim
  | sendAlias rid rname =>
    simp only [run, casterSendAlias, casterSendRA]
    exact ⟨sendParts_returns _ _, trivial⟩
  | sendInfo rid name val =>
    by_cases negative : rid < 0
    · simp [run, casterSendInfo, negative]
    · simp only [run, casterSendInfo, negative, if_false]
      exact ⟨sendParts_returns _ _, trivial⟩

/-- The next record gets the id, or no id is left. -/
def Caster.Counts (self : Caster) (rid : Int) : Prop :=
  self.nextRecID = rid ∧ 0 < rid ∧ rid < 2 ^ 63 ∨ self.nextRecID < 0

theorem SendCall.record_run {self : Caster} {rid : Int} (counts : self.Counts rid)
    (rtype rname : CString) :
    (((sendRecord rtype rname).run self).1 = -1 ∨
        0 < rid ∧ ((sendRecord rtype rname).run self).1 = rid) ∧
      ((sendRecord rtype rname).run self).2.Counts (rid + 1) := by
  by_cases spent : self.nextRecID < 0
  · simp [run, casterSendRecord, Caster.Counts, spent]
  · obtain ⟨here, positive, small⟩ := counts.resolve_right spent
    simp only [run, casterSendRecord, spent, if_false]
    generalize sends : casterSendRA _ 0 _ _ _ = result
    obtain ⟨ret, after⟩ := result
    have counted : after.nextRecID = (self.nextRecID + 1).bmod (2 ^ 64) :=
      (congrArg (fun result => result.2.nextRecID) sends).symm
    have next : after.Counts (rid + 1) := by
      by_cases last : rid + 1 < 2 ^ 63
      · refine Or.inl ⟨?_, by omega, last⟩
        rw [counted, here]
        apply Int.bmod_eq_of_le <;> omega
      · refine Or.inr ?_
        rw [counted, here, show rid + 1 = 2 ^ 63 by omega]
        decide
    by_cases sent : ret = 0
    · simp only [sent, ne_eq, not_true_eq_false, if_false]
      exact ⟨Or.inr ⟨positive, here⟩, next⟩
    · simp only [ne_eq, sent, not_false_eq_true, if_true]
      exact ⟨Or.inl trivial, next⟩

/-- The record ids are counted on whatever is sent. -/
theorem SendCall.run_counts {self : Caster} {rid : Int} (counts : self.Counts rid)
    (call : SendCall) : ∃ next, (call.run self).2.Counts next := by
  cases call with
  | sendRecord rtype rname => exact ⟨rid + 1, (record_run counts rtype rname).2⟩
  | sendAlias of rname =>
    have same := (@tag_run (sendAlias of rname) trivial self).2
    exact ⟨rid, by rw [Caster.Counts, same]; exact counts⟩
  | sendInfo of name val =>
    have same := (@tag_run (sendInfo of name val) trivial self).2
    exact ⟨rid, by rw [Caster.Counts, same]; exact counts⟩

end Returns

end Recsync.Client
