import Recsync.Client.Database

set_option autoImplicit false

/- The record ids that a client sends over all of its connections. -/
namespace Recsync.Client

open Bytes

/-- What a client does: it goes on with a new connection, or makes a call on the one it has. -/
inductive ClientEvent where
  | connected (csock : ShSocket)
  | made (call : SendCall)

def SendCall.isRecord : SendCall → Bool
  | .sendRecord _ _ => true
  | _ => false

def ClientEvent.isRecord : ClientEvent → Bool
  | .connected _ => false
  | .made call => call.isRecord

/-- The bytes of the message that a call builds, as a socket that accepts everything gets them. -/
def frameOf (self : Caster) (call : SendCall) : List UInt8 :=
  (call.run { self with csock := {} }).2.csock.sent

/-- The RECID of an Add Record or an Add Info message. -/
def recid (frame : List UInt8) : Nat := uintAt 8 4 frame

/-- A call on a connection, with the message that it built and what it returned. -/
structure Built where
  conn : Nat
  /-- the next id before the call -/
  nextRecID : Int
  call : SendCall
  frame : List UInt8
  ret : Int

/-- The client with the calls it has made. -/
structure ClientRun where
  caster : Caster := {}
  conn : Nat := 0
  built : List Built := []

def ClientRun.step (r : ClientRun) : ClientEvent → ClientRun
  | .connected csock => { r with caster := { r.caster with csock }, conn := r.conn + 1 }
  | .made call =>
    let (ret, caster) := call.run r.caster
    { r with
      caster
      built := r.built ++ [⟨r.conn, r.caster.nextRecID, call, frameOf r.caster call, ret⟩] }

def clientRun (events : List ClientEvent) : ClientRun := events.foldl ClientRun.step {}

def Built.isRecord (b : Built) : Bool := b.call.isRecord && !b.frame.isEmpty

def SendCall.IsTagOf (rid : Int) : SendCall → Prop
  | .sendRecord _ _ => False
  | .sendAlias of _ => of = rid
  | .sendInfo of _ _ => of = rid

/-- The ids of the records are positive and no two on a connection are the same, and the aliases and
info tags of a record carry its id. -/
structure ValidIds (built : List Built) : Prop where
  positive : ∀ b ∈ built, b.isRecord = true → 0 < recid b.frame
  distinct : built.Pairwise fun a b => a.isRecord = true → b.isRecord = true → a.conn = b.conn →
    recid a.frame ≠ recid b.frame
  tags : ∀ a ∈ built, a.isRecord = true → 0 ≤ a.ret → ∀ b ∈ built, b.call.IsTagOf a.ret →
    recid b.frame = recid a.frame

section Frames

/-- A message that starts with an id after its header. -/
structure CarriesId (frame : List UInt8) (rid : Nat) : Prop where
  given : frame ≠ []
  recid : recid frame = rid % 2 ^ 32

theorem carries_parts (id blen rid : Nat) (fixed : List UInt8) (more : List (List UInt8)) :
    CarriesId (sendParts (packedHead id blen :: (ofUInt 4 rid ++ fixed) :: more) {}).2.sent rid := by
  rw [sendParts_all _ rfl]
  dsimp only
  rw [List.nil_append, List.flatten_cons, List.flatten_cons, packedHead, List.append_assoc,
    List.append_assoc, List.append_assoc]
  constructor
  · intro none
    have size := congrArg List.length none
    simp at size
  · rw [recid, uintAt_skip 4 _ (by simp), length_ofUInt, uintAt_skip 4 _ (by simp), length_ofUInt,
      uintAt_skip 4 _ (by simp), length_ofUInt, uintAt_here]
    rfl

variable {self : Caster}

theorem casterSendRA_carries (calm : self.csock = {}) (type rid : Nat) (rtype : Option CString)
    (rname : CString) : CarriesId (casterSendRA self type rid rtype rname).2.csock.sent rid := by
  rw [casterSendRA, calm]
  dsimp only
  rw [List.append_assoc, List.cons_append, List.singleton_append]
  exact carries_parts _ _ _ _ _

theorem frameOf_record (running : 0 ≤ self.nextRecID) (rtype rname : CString) :
    CarriesId (frameOf self (.sendRecord rtype rname)) self.nextRecID.toNat := by
  rw [frameOf, SendCall.run, casterSendRecord, if_neg (Int.not_lt.mpr running)]
  dsimp only
  rw [apply_ite Prod.snd]
  dsimp only
  rw [ite_self]
  exact casterSendRA_carries rfl _ _ _ _

theorem frameOf_spent (spent : self.nextRecID < 0) (rtype rname : CString) :
    frameOf self (.sendRecord rtype rname) = [] := by
  rw [frameOf, SendCall.run, casterSendRecord, if_pos spent]

theorem frameOf_tag {rid : Int} (positive : 0 ≤ rid) {call : SendCall} (tag : call.IsTagOf rid) :
    CarriesId (frameOf self call) rid.toNat := by
  cases call with
  | sendRecord rtype rname => exact tag.elim
  | sendAlias of rname =>
    obtain rfl : of = rid := tag
    exact casterSendRA_carries rfl _ _ _ _
  | sendInfo of name val =>
    obtain rfl : of = rid := tag
    rw [frameOf, SendCall.run, casterSendInfo]
    dsimp only
    rw [if_neg (Int.not_lt.mpr positive)]
    exact carries_parts _ _ _ _ _

end Frames

/-- What an entry says of its call. -/
structure Faithful (b : Built) : Prop where
  record : b.isRecord = true → 0 ≤ b.nextRecID ∧ CarriesId b.frame b.nextRecID.toNat ∧
    (b.ret = -1 ∨ b.ret = b.nextRecID)
  tag : ∀ rid, 0 ≤ rid → b.call.IsTagOf rid → CarriesId b.frame rid.toNat

section Calls

variable {self : Caster}

theorem casterSendRecord_returns (self : Caster) (rtype rname : CString) :
    (casterSendRecord self rtype rname).1 = -1 ∨
      (casterSendRecord self rtype rname).1 = self.nextRecID := by
  rw [casterSendRecord]
  split
  · exact Or.inl rfl
  · dsimp only
    split
    · exact Or.inl rfl
    · exact Or.inr rfl

theorem casterSendRecord_next (running : 0 ≤ self.nextRecID) (rtype rname : CString) :
    (casterSendRecord self rtype rname).2.nextRecID = (self.nextRecID + 1).bmod (2 ^ 64) := by
  rw [casterSendRecord, if_neg (Int.not_lt.mpr running)]
  dsimp only
  split <;> rfl

theorem built_faithful (self : Caster) (conn : Nat) (call : SendCall) :
    Faithful ⟨conn, self.nextRecID, call, frameOf self call, (call.run self).1⟩ where
  record entry := by
    cases call with
    | sendRecord rtype rname =>
      have running : 0 ≤ self.nextRecID := by
        apply Int.not_lt.mp
        intro spent
        rw [Built.isRecord] at entry
        dsimp only at entry
        rw [frameOf_spent spent] at entry
        cases entry
      exact ⟨running, frameOf_record running rtype rname,
        casterSendRecord_returns self rtype rname⟩
    | sendAlias of rname => cases entry
    | sendInfo of name val => cases entry
  tag rid positive tag := frameOf_tag positive tag

end Calls

def recordIds (built : List Built) : List Int := (built.filter Built.isRecord).map Built.nextRecID

/-- After a number of calls for a record the ids are counted from one, until none is left. -/
structure Numbered (r : ClientRun) (calls : Nat) : Prop where
  ids : recordIds r.built = (List.range (min calls (2 ^ 63 - 1))).map fun (i : Nat) => (i : Int) + 1
  next : r.caster.nextRecID = calls + 1 ∧ calls + 1 < 2 ^ 63 ∨
    r.caster.nextRecID < 0 ∧ 2 ^ 63 - 1 ≤ calls
  faithful : ∀ b ∈ r.built, Faithful b

section Numbered

variable {r : ClientRun} {calls : Nat}

theorem Numbered.initial : Numbered {} 0 where
  ids := rfl
  next := Or.inl ⟨rfl, by decide⟩
  faithful := nofun

theorem faithful_made (faithful : ∀ b ∈ r.built, Faithful b) (call : SendCall) :
    ∀ b ∈ (r.step (.made call)).built, Faithful b := by
  intro b member
  cases List.mem_append.mp member with
  | inl before => exact faithful b before
  | inr last =>
    rw [List.mem_singleton.mp last]
    exact built_faithful r.caster r.conn call

theorem recordIds_made (call : SendCall) : recordIds (r.step (.made call)).built =
    recordIds r.built ++
      if call.isRecord && !(frameOf r.caster call).isEmpty then [r.caster.nextRecID] else [] := by
  rw [recordIds, recordIds, ClientRun.step]
  dsimp only
  rw [List.filter_append, List.map_append, List.filter_cons, List.filter_nil, Built.isRecord]
  dsimp only
  split <;> rfl

theorem Numbered.tag (numbered : Numbered r calls) {call : SendCall} (tag : call.IsTag) :
    Numbered (r.step (.made call)) calls where
  ids := by
    have other : call.isRecord = false := by
      cases call with
      | sendRecord => exact tag.elim
      | sendAlias => rfl
      | sendInfo => rfl
    rw [recordIds_made, other, Bool.false_and, if_neg (by decide), List.append_nil, numbered.ids]
  next := by
    have same : (r.step (.made call)).caster.nextRecID = r.caster.nextRecID :=
      (SendCall.tag_run tag r.caster).2
    rw [same]
    exact numbered.next
  faithful := faithful_made numbered.faithful call

theorem Numbered.record (numbered : Numbered r calls) (rtype rname : CString) :
    Numbered (r.step (.made (.sendRecord rtype rname))) (calls + 1) := by
  have ids := recordIds_made (r := r) (.sendRecord rtype rname)
  rw [show SendCall.isRecord (.sendRecord rtype rname) = true from rfl, Bool.true_and] at ids
  cases numbered.next with
  | inl running =>
    obtain ⟨next, small⟩ := running
    have nonneg : 0 ≤ r.caster.nextRecID := by omega
    have given := List.isEmpty_eq_false_iff.mpr (frameOf_record nonneg rtype rname).given
    have counted : (r.step (.made (.sendRecord rtype rname))).caster.nextRecID =
        ((calls : Int) + 1 + 1).bmod (2 ^ 64) := by
      rw [← next]
      exact casterSendRecord_next nonneg rtype rname
    refine ⟨?_, ?_, faithful_made numbered.faithful _⟩
    · rw [ids, given, Bool.not_false, if_pos rfl, numbered.ids, next,
        Nat.min_eq_left (by omega : calls ≤ 2 ^ 63 - 1),
        Nat.min_eq_left (by omega : calls + 1 ≤ 2 ^ 63 - 1), List.range_succ, List.map_append]
      rfl
    · rw [counted]
      by_cases last : calls + 1 + 1 < 2 ^ 63
      · left
        exact ⟨Int.bmod_eq_of_le (by omega) (by omega), last⟩
      · right
        refine ⟨?_, by omega⟩
        rw [show (calls : Int) + 1 + 1 = 2 ^ 63 by omega]
        decide
  | inr spent =>
    obtain ⟨negative, many⟩ := spent
    have none := frameOf_spent negative rtype rname
    have same : (r.step (.made (.sendRecord rtype rname))).caster = r.caster := by
      rw [ClientRun.step, SendCall.run, casterSendRecord, if_pos negative]
    refine ⟨?_, ?_, faithful_made numbered.faithful _⟩
    · rw [ids, none, List.isEmpty_nil, Bool.not_true, if_neg (by decide), List.append_nil,
        numbered.ids, Nat.min_eq_right many, Nat.min_eq_right (by omega : 2 ^ 63 - 1 ≤ calls + 1)]
    · rw [same]
      exact Or.inr ⟨negative, by omega⟩

theorem Numbered.step (numbered : Numbered r calls) (event : ClientEvent) :
    Numbered (r.step event) (calls + if event.isRecord then 1 else 0) := by
  cases event with
  | connected csock => exact ⟨numbered.ids, numbered.next, numbered.faithful⟩
  | made call =>
    cases call with
    | sendRecord rtype rname => exact numbered.record rtype rname
    | sendAlias of rname => exact numbered.tag trivial
    | sendInfo of name val => exact numbered.tag trivial

theorem Numbered.run (numbered : Numbered r calls) (events : List ClientEvent) :
    Numbered (events.foldl ClientRun.step r) (calls + events.countP ClientEvent.isRecord) := by
  induction events generalizing r calls with
  | nil => exact numbered
  | cons event rest ih =>
    rw [List.foldl_cons, List.countP_cons, Nat.add_comm (rest.countP _), ← Nat.add_assoc]
    exact ih (numbered.step event)

end Numbered

/-- The number of calls of `casterSendRecord` in a run. -/
def recordCalls (events : List ClientEvent) : Nat := events.countP ClientEvent.isRecord

theorem clientRun_numbered (events : List ClientEvent) :
    Numbered (clientRun events) (recordCalls events) := by
  have numbered := Numbered.initial.run events
  rwa [Nat.zero_add] at numbered

section Valid

variable {r : ClientRun} {calls : Nat}

/-- The record with the first id that has no bits left. -/
theorem Numbered.not_valid (numbered : Numbered r calls) (many : 2 ^ 32 ≤ calls) :
    ¬ ValidIds r.built := by
  intro valid
  have reached : (2 ^ 32 : Int) ∈ recordIds r.built := by
    rw [numbered.ids, List.mem_map]
    exact ⟨2 ^ 32 - 1, List.mem_range.mpr (by omega), by decide⟩
  obtain ⟨b, member, id⟩ := List.mem_map.mp reached
  obtain ⟨member, entry⟩ := List.mem_filter.mp member
  have carries := (numbered.faithful b member).record entry
  have positive := valid.positive b member entry
  rw [carries.2.1.recid, id] at positive
  exact absurd positive (by decide)

/-- Later records have larger ids. -/
theorem Numbered.ascending (numbered : Numbered r calls) :
    r.built.Pairwise fun a b => a.isRecord = true → b.isRecord = true →
      a.nextRecID < b.nextRecID := by
  have ascending : (recordIds r.built).Pairwise (· < ·) := by
    rw [numbered.ids, List.pairwise_map]
    exact List.pairwise_lt_range.imp fun below => by omega
  rwa [recordIds, List.pairwise_map, List.pairwise_filter] at ascending

theorem Numbered.valid (numbered : Numbered r calls) (few : calls < 2 ^ 32) :
    ValidIds r.built := by
  have bounds : ∀ b ∈ r.built, b.isRecord = true → 0 < b.nextRecID ∧ b.nextRecID ≤ calls ∧
      (recid b.frame : Int) = b.nextRecID := by
    intro b member entry
    have listed : b.nextRecID ∈ recordIds r.built :=
      List.mem_map_of_mem (List.mem_filter.mpr ⟨member, entry⟩)
    rw [numbered.ids, List.mem_map] at listed
    obtain ⟨i, inside, id⟩ := listed
    have below := List.mem_range.mp inside
    have carries := ((numbered.faithful b member).record entry).2.1.recid
    refine ⟨by omega, by omega, ?_⟩
    rw [carries]
    omega
  constructor
  · intro b member entry
    have := bounds b member entry
    omega
  · apply numbered.ascending.imp_of_mem
    intro a b first second later record record' _ same
    have := bounds a first record
    have := bounds b second record'
    have := later record record'
    omega
  · intro a member entry returned b other tag
    obtain ⟨nonneg, carries, ret⟩ := (numbered.faithful a member).record entry
    have same : a.ret = a.nextRecID := ret.resolve_left (by omega)
    have tagged := (numbered.faithful b other).tag a.ret returned tag
    rw [tagged.recid, carries.recid, same]

end Valid

/-- The ids on the wire are valid exactly when a run makes fewer than 2^32 calls for a record. -/
theorem clientRun_validIds_iff (events : List ClientEvent) :
    ValidIds (clientRun events).built ↔ recordCalls events < 2 ^ 32 := by
  have numbered := clientRun_numbered events
  constructor
  · intro valid
    apply Nat.not_le.mp
    intro many
    exact numbered.not_valid many valid
  · exact numbered.valid

/-- One record, sent 2^32 times over one connection: the last message has the RECID 0. -/
theorem not_validIds :
    ¬ ValidIds (clientRun (List.replicate (2 ^ 32) (.made (.sendRecord
      ⟨encode "longin", by decide +kernel⟩ ⟨encode "SEC:1", by decide +kernel⟩)))).built := by
  apply (clientRun_numbered _).not_valid
  rw [recordCalls, List.countP_replicate]
  exact Nat.le_refl _

end Recsync.Client
