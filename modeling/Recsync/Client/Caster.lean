import Recsync.Lib.Bytes

set_option autoImplicit false

/- The upload calls of `caster.c`. -/
namespace Recsync.Client

open Bytes

/-- A `const char*`: the bytes before the terminating NUL. -/
structure CString where
  bytes : List UInt8
  noNul : 0 ∉ bytes

def strlen (s : CString) : Nat := s.bytes.length

/-- How a call of `shSendAll` ends: everything is accepted, or it fails after some bytes. -/
inductive SendOutcome where
  | all
  | failed (ret : Int) (unlike : ret ≠ 1) (accepted : Nat)

/-- The connected socket with what it accepted so far. The next calls of `shSendAll` end as
listed; when the list is used up every call succeeds. -/
structure ShSocket where
  sent : List UInt8 := []
  outcomes : List SendOutcome := []

/-- `shSendAll`, up to the loop around `send`. -/
def shSendAll (s : ShSocket) (buf : List UInt8) : Int × ShSocket :=
  match s.outcomes with
  | [] => (1, { s with sent := s.sent ++ buf })
  | .all :: rest => (1, { sent := s.sent ++ buf, outcomes := rest })
  | .failed ret _ accepted :: rest =>
    (ret, { sent := s.sent ++ buf.take accepted, outcomes := rest })

structure Caster where
  /-- an `ssize_t` of 64 bits -/
  nextRecID : Int := 1
  csock : ShSocket := {}

def recastMagic : Nat := 0x5243

/-- The bytes that `casterSendPHead` sends. -/
def packedHead (id blen : Nat) : List UInt8 :=
  ofUInt 2 recastMagic ++ (ofUInt 2 id ++ ofUInt 4 blen)

/-- The sends of one message, in order, up to the first one that fails. -/
def sendParts : List (List UInt8) → ShSocket → Int × ShSocket
  | [], s => (0, s)
  | part :: rest, s =>
    match shSendAll s part with
    | (ret, s') => if ret ≠ 1 then (-1, s') else sendParts rest s'

/-- `casterSendRA`. The lengths are cut off to the fields of `casterClientAddRec`, `blen` is an
`epicsUInt32`. -/
def casterSendRA (self : Caster) (type rid : Nat) (rtype : Option CString) (rname : CString) :
    Int × Caster :=
  let lt := (rtype.map strlen).getD 0
  let ln := strlen rname
  let buf := ofUInt 4 rid ++ (ofUInt 1 type ++ (ofUInt 1 lt ++ ofUInt 2 ln))
  let blen := (8 + lt + ln) % 2 ^ 32
  let (ret, csock) := sendParts
    ([packedHead 0x0003 blen, buf] ++ (rtype.map CString.bytes).toList ++ [rname.bytes]) self.csock
  (ret, { self with csock })

def casterSendRecord (self : Caster) (rtype rname : CString) : Int × Caster :=
  if self.nextRecID < 0 then (-1, self)
  else
    let rid := self.nextRecID
    let (ret, self) := casterSendRA { self with nextRecID := (self.nextRecID + 1).bmod (2 ^ 64) }
      0 rid.toNat (some rtype) rname
    if ret ≠ 0 then (-1, self) else (rid, self)

def casterSendAlias (self : Caster) (rid : Nat) (rname : CString) : Int × Caster :=
  casterSendRA self 1 rid none rname

def casterSendInfo (self : Caster) (rid : Int) (name val : CString) : Int × Caster :=
  let ln := strlen name
  let lv := strlen val
  if rid < 0 then (-1, self)
  else
    let buf := ofUInt 4 rid.toNat ++ (ofUInt 1 ln ++ (ofUInt 1 0 ++ ofUInt 2 lv))
    let blen := (8 + ln + lv) % 2 ^ 32
    let (ret, csock) := sendParts [packedHead 0x0006 blen, buf, name.bytes, val.bytes] self.csock
    (ret, { self with csock })

theorem sendParts_all (parts : List (List UInt8)) {s : ShSocket} (calm : s.outcomes = []) :
    sendParts parts s = (0, { s with sent := s.sent ++ parts.flatten }) := by
  induction parts generalizing s with
  | nil => simp [sendParts]
  | cons part rest ih =>
    have first : shSendAll s part = (1, { s with sent := s.sent ++ part }) := by
      simp [shSendAll, calm]
    have others := @ih { s with sent := s.sent ++ part } calm
    rw [sendParts, first]
    simp only [ne_eq, not_true_eq_false, if_false]
    rw [others]
    simp

end Recsync.Client
