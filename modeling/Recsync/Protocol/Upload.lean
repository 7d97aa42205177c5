import Mathlib.Algebra.Group.Int.Defs
import Recsync.Client.Caster
import Recsync.Recast.Receiver

set_option autoImplicit false

/- The upload of the C client as the Python server reads it. -/
namespace Recsync.Upload

open Bytes Client Protocol Recast

def served (number : Nat) (calls : List SessionCall) (r : CastReceiver) : CastReceiver :=
  { r with effects := r.effects ++ calls.map (Effect.session number) }

@[simp] theorem served_nil (number : Nat) (r : CastReceiver) : served number [] r = r := by
  simp [served]

theorem served_append (number : Nat) (first second : List SessionCall) (r : CastReceiver) :
    served number (first ++ second) r = served number second (served number first r) := by
  simp [served]

/-- A frame that the receiver reads as one header and one body. -/
structure Frame (chance : Chance) (number : Nat) where
  header : List UInt8
  body : List UInt8
  fn : RxFn
  calls : List SessionCall
  headerLength : header.length = Header.payloadSize
  positive : 0 < body.length
  starts : ∀ r, (receiver chance).handle (getInitialState, r) header =
    (⟨fn, body.length, positive⟩, r)
  finishes : ∀ r : CastReceiver, r.sess = some number →
    (receiver chance).handle (⟨fn, body.length, positive⟩, r) body =
      (getInitialState, served number calls r)

section Frames

variable {chance : Chance} {number : Nat}

def Frame.bytes (f : Frame chance number) : List UInt8 := f.header ++ f.body

def wireOf (frames : List (Frame chance number)) : List UInt8 := (frames.map Frame.bytes).flatten

def callsOf (frames : List (Frame chance number)) : List SessionCall :=
  (frames.map Frame.calls).flatten

/-- The receiver has read some frames as a whole, and is at the header or at the body of the
next one. -/
inductive InFrames (frames : List (Frame chance number)) (r : CastReceiver) :
    Expecting × CastReceiver → List UInt8 → Prop where
  | atHeader (done todo : List (Frame chance number)) : frames = done ++ todo →
      InFrames frames r (getInitialState, served number (callsOf done) r) (wireOf todo)
  | atBody (done : List (Frame chance number)) (f : Frame chance number)
      (todo : List (Frame chance number)) : frames = done ++ f :: todo →
      InFrames frames r (⟨f.fn, f.body.length, f.positive⟩, served number (callsOf done) r)
        (f.body ++ wireOf todo)

/-- A delivery ends with the header or with the body of the frame. -/
theorem InFrames.preserved {frames : List (Frame chance number)} {r : CastReceiver}
    (opened : r.sess = some number) (s : Expecting × CastReceiver) (taken left : List UInt8)
    (good : InFrames frames r s (taken ++ left)) (exactly : taken.length = (receiver chance).wants s) :
    InFrames frames r ((receiver chance).handle s taken) left := by
  generalize unread : taken ++ left = all at good
  cases good with
  | atHeader done todo split =>
    change taken.length = Header.payloadSize at exactly
    cases todo with
    | nil =>
      rw [show wireOf ([] : List (Frame chance number)) = [] from rfl] at unread
      rw [(List.append_eq_nil_iff.mp unread).1] at exactly
      cases exactly
    | cons f todo =>
      have bytes : taken ++ left = f.header ++ (f.body ++ wireOf todo) := by
        rw [unread]
        simp [wireOf, Frame.bytes]
      obtain ⟨rfl, rfl⟩ := List.append_inj bytes (by rw [exactly, f.headerLength])
      rw [f.starts]
      exact .atBody done f todo split
  | atBody done f todo split =>
    obtain ⟨rfl, rfl⟩ := List.append_inj unread exactly
    rw [f.finishes (served number (callsOf done) r) opened, ← served_append]
    have all : frames = (done ++ [f]) ++ todo := by simp [split]
    have read := InFrames.atHeader (r := r) (done ++ [f]) todo all
    simpa [callsOf] using read

theorem InFrames.alive {frames : List (Frame chance number)} {r : CastReceiver}
    (calm : (receiver chance).closed (getInitialState, r) = false) (s : Expecting × CastReceiver)
    (unread : List UInt8) (good : InFrames frames r s unread) :
    (receiver chance).closed s = false := by
  cases good with
  | atHeader => exact calm
  | atBody => exact calm

/-- When nothing of the stream is left, too few bytes are pending for another delivery only if
all frames have been read. -/
theorem InFrames.complete {frames : List (Frame chance number)} {r : CastReceiver}
    {s : Expecting × CastReceiver} {pending : List UInt8} (good : InFrames frames r s pending)
    (drained : pending.length < (receiver chance).wants s) :
    s = (getInitialState, served number (callsOf frames) r) ∧ pending = [] := by
  cases good with
  | atHeader done todo split =>
    cases todo with
    | nil =>
      rw [List.append_nil] at split
      subst split
      exact ⟨rfl, rfl⟩
    | cons f todo =>
      change (wireOf (f :: todo)).length < Header.payloadSize at drained
      have := f.headerLength
      simp only [wireOf, Frame.bytes, List.map_cons, List.flatten_cons, List.length_append] at drained
      omega
  | atBody done f todo split =>
    change (f.body ++ wireOf todo).length < f.body.length at drained
    rw [List.length_append] at drained
    omega

end Frames

/-- UTF-8 text that can be passed as a `const char*`. -/
structure Text where
  text : String
  noNul : 0 ∉ encode text

def Text.cstr (t : Text) : CString := ⟨encode t.text, t.noNul⟩

def Text.length (t : Text) : Nat := (encode t.text).length

inductive Call where
  | sendRecord (rtype rname : Text)
  | sendAlias (rid : Nat) (rname : Text)
  | sendInfo (rid : Nat) (key value : Text)

namespace Call

def send (self : Caster) : Call → Int × Caster
  | sendRecord rtype rname => casterSendRecord self rtype.cstr rname.cstr
  | sendAlias rid rname => casterSendAlias self rid rname.cstr
  | sendInfo rid key value => casterSendInfo self rid key.cstr value.cstr

/-- The domain of the calls: record ids from 1 (0 for the infos of the IOC) below 2^32, names,
types and keys that are not empty, and bodies below 2^31 bytes. -/
def Valid (nextRecID : Int) : Call → Prop
  | sendRecord rtype rname => (1 ≤ nextRecID ∧ nextRecID < 2 ^ 32) ∧
      rtype.length ≠ 0 ∧ rname.length ≠ 0 ∧ 8 + rtype.length + rname.length < 2 ^ 31
  | sendAlias rid rname => (1 ≤ rid ∧ rid < 2 ^ 32) ∧ rname.length ≠ 0 ∧ 8 + rname.length < 2 ^ 31
  | sendInfo rid key value => rid < 2 ^ 32 ∧ key.length ≠ 0 ∧ 8 + key.length + value.length < 2 ^ 31

instance (nextRecID : Int) : (c : Call) → Decidable (c.Valid nextRecID)
  | sendRecord rtype rname => inferInstanceAs (Decidable ((1 ≤ nextRecID ∧ nextRecID < 2 ^ 32) ∧
      rtype.length ≠ 0 ∧ rname.length ≠ 0 ∧ 8 + rtype.length + rname.length < 2 ^ 31))
  | sendAlias rid rname => inferInstanceAs (Decidable ((1 ≤ rid ∧ rid < 2 ^ 32) ∧
      rname.length ≠ 0 ∧ 8 + rname.length < 2 ^ 31))
  | sendInfo rid key value => inferInstanceAs (Decidable (rid < 2 ^ 32 ∧ key.length ≠ 0 ∧
      8 + key.length + value.length < 2 ^ 31))

/-- No field is longer than its length field can say. -/
def Fits : Call → Bool
  | sendRecord rtype rname => rtype.length ≤ 255 ∧ rname.length ≤ 65535
  | sendAlias _ rname => rname.length ≤ 65535
  | sendInfo _ key value => key.length ≤ 255 ∧ value.length ≤ 65535

def session (nextRecID : Int) : Call → SessionCall
  | sendRecord rtype rname => .addRecord nextRecID.toNat rtype.text rname.text
  | sendAlias rid rname => .addAlias rid rname.text
  | sendInfo rid key value =>
    if rid = 0 then .iocInfo key.text value.text else .recInfo rid key.text value.text

/-- The calls that a server should make: none for a message with a field that is too long. -/
def served (nextRecID : Int) (c : Call) : List SessionCall :=
  if c.Fits then [c.session nextRecID] else []

/-- The `nextRecID` after the call. -/
def next (nextRecID : Int) : Call → Int
  | sendRecord _ _ => nextRecID + 1
  | _ => nextRecID

def header : Call → List UInt8
  | sendRecord rtype rname => packedHead 0x0003 (8 + rtype.length + rname.length)
  | sendAlias _ rname => packedHead 0x0003 (8 + rname.length)
  | sendInfo _ key value => packedHead 0x0006 (8 + key.length + value.length)

def body (nextRecID : Int) : Call → List UInt8
  | sendRecord rtype rname =>
    packedFields nextRecID.toNat 0 rtype.length rname.length (encode rtype.text ++ encode rname.text)
  | sendAlias rid rname => packedFields rid 1 0 rname.length (encode rname.text)
  | sendInfo rid key value =>
    packedFields rid key.length 0 value.length (encode key.text ++ encode value.text)

/-- A call of which all sends succeed appends its frame to the stream. -/
theorem send_succeeds {self : Caster} (calm : self.csock.outcomes = []) (c : Call)
    (valid : c.Valid self.nextRecID) :
    (c.send self).2 = {
      nextRecID := c.next self.nextRecID
      csock := { self.csock with
        sent := self.csock.sent ++ (c.header ++ c.body self.nextRecID) } } := by
  -- the wrapped numbers are put away first, with the powers of two as they are written
  cases c with
  | sendRecord rtype rname =>
    obtain ⟨⟨low, high⟩, -, -, short⟩ := valid
    have counted : (self.nextRecID + 1).bmod (2 ^ 64) = self.nextRecID + 1 := by
      apply Int.bmod_eq_of_le <;> omega
    have whole : (8 + rtype.length + rname.length) % 2 ^ 32 = 8 + rtype.length + rname.length := by
      omega
    simp only [Text.length] at whole
    simp only [send, casterSendRecord, casterSendRA, strlen, Text.cstr, counted, whole,
      Option.map_some, Option.getD_some, -Nat.reducePow, -Int.reducePow]
    simp [show ¬ self.nextRecID < 0 by omega, sendParts_all _ calm, next, header, body, packedFields,
      Text.length]
  | sendAlias rid rname =>
    have whole : (8 + 0 + rname.length) % 2 ^ 32 = 8 + rname.length := by
      have := valid.2.2
      omega
    simp only [Text.length] at whole
    simp only [send, casterSendAlias, casterSendRA, strlen, Text.cstr, whole, Option.map_none,
      Option.getD_none, -Nat.reducePow]
    simp [sendParts_all _ calm, next, header, body, packedFields, Text.length]
  | sendInfo rid key value =>
    have whole : (8 + key.length + value.length) % 2 ^ 32 = 8 + key.length + value.length := by
      have := valid.2.2
      omega
    simp only [Text.length] at whole
    simp only [send, casterSendInfo, strlen, Text.cstr, whole, -Nat.reducePow]
    simp [show ¬ (rid : Int) < 0 by omega, sendParts_all _ calm, next, header, body, packedFields,
      Text.length]

/-- The server reads the header of a call and asks for its body. -/
theorem header_read (chance : Chance) {head body : List UInt8} {id length : Nat} {fn : RxFn}
    (packed : head = packedHead id length) (known : rxfn id = (fn, ((8 : Nat) : Int)))
    (small : id < 2 ^ 16) (same : body.length = length) (enough : 8 ≤ length)
    (short : length < 2 ^ 31) (positive : 0 < body.length) (r : CastReceiver) :
    (receiver chance).handle (getInitialState, r) head = (⟨fn, body.length, positive⟩, r) := by
  subst same
  have below : body.length < 2 ^ 32 := by omega
  have decoded : Header.decode (packedHead id body.length) = .ok ⟨id, body.length⟩ :=
    Header.decode_packed small below
  rw [packed]
  exact receiver_header chance decoded known enough positive

theorem header_length (c : Call) : c.header.length = Header.payloadSize := by
  cases c <;> simp [header, packedHead, Header.payloadSize]

section Served

variable (chance : Chance) {number : Nat} {r : CastReceiver} (opened : r.sess = some number)
include opened

theorem record_served (nextRecID : Int) {rtype rname : Text}
    (valid : (sendRecord rtype rname).Valid nextRecID) {length : Nat} (positive : 0 < length) :
    (receiver chance).handle (⟨.recvAddRec, length, positive⟩, r)
        ((sendRecord rtype rname).body nextRecID) =
      (getInitialState, Upload.served number ((sendRecord rtype rname).served nextRecID) r) := by
  obtain ⟨⟨low, high⟩, typed, named, -⟩ := valid
  have id : nextRecID.toNat % 2 ^ 32 = nextRecID.toNat := by omega
  have decoded := AddRecord.decode_packed nextRecID.toNat 0 rtype.length rname.length
    (encode rtype.text ++ encode rname.text)
  rw [id] at decoded
  by_cases fits : rtype.length ≤ 255 ∧ rname.length ≤ 65535
  · rw [Nat.mod_eq_of_lt (show rtype.length < 2 ^ 8 by omega),
      Nat.mod_eq_of_lt (show rname.length < 2 ^ 16 by omega)] at decoded
    have read := decoded.trans (AddRecord.ofFields_record nextRecID.toNat typed named)
    rw [body, receiver_addRec chance positive opened read]
    simp [served, Fits, fits, session, Upload.served, AddRecord.isAlias]
  · -- a cut-off length is smaller than the text
    obtain ⟨message, refused⟩ := AddRecord.ofFields_wrong nextRecID.toNat
      (show recordKind (0 % 2 ^ 8) = .ok .RECORD from rfl)
      (show (encode rtype.text ++ encode rname.text).length ≠
        rtype.length % 2 ^ 8 + rname.length % 2 ^ 16 by
          rw [List.length_append]
          simp only [Text.length] at fits ⊢
          omega)
    rw [body, receiver_addRec_ignored chance positive (decoded.trans refused)]
    simp [served, Fits, fits]

theorem alias_served (nextRecID : Int) {rid : Nat} {rname : Text}
    (valid : (sendAlias rid rname).Valid nextRecID) {length : Nat} (positive : 0 < length) :
    (receiver chance).handle (⟨.recvAddRec, length, positive⟩, r)
        ((sendAlias rid rname).body nextRecID) =
      (getInitialState, Upload.served number ((sendAlias rid rname).served nextRecID) r) := by
  obtain ⟨⟨-, high⟩, named, -⟩ := valid
  have decoded := AddRecord.decode_packed rid 1 0 rname.length (encode rname.text)
  rw [Nat.mod_eq_of_lt high] at decoded
  by_cases fits : rname.length ≤ 65535
  · rw [Nat.mod_eq_of_lt (show rname.length < 2 ^ 16 by omega)] at decoded
    have read := decoded.trans (AddRecord.ofFields_alias rid named)
    rw [body, receiver_addRec chance positive opened read]
    simp [served, Fits, fits, session, Upload.served, AddRecord.isAlias]
  · obtain ⟨message, refused⟩ := AddRecord.ofFields_wrong rid
      (show recordKind (1 % 2 ^ 8) = .ok .ALIAS from rfl)
      (show (encode rname.text).length ≠ 0 % 2 ^ 8 + rname.length % 2 ^ 16 by
          simp only [Text.length] at fits ⊢
          omega)
    rw [body, receiver_addRec_ignored chance positive (decoded.trans refused)]
    simp [served, Fits, fits]

theorem info_served (nextRecID : Int) {rid : Nat} {key value : Text}
    (valid : (sendInfo rid key value).Valid nextRecID) {length : Nat} (positive : 0 < length) :
    (receiver chance).handle (⟨.recvInfo, length, positive⟩, r)
        ((sendInfo rid key value).body nextRecID) =
      (getInitialState, Upload.served number ((sendInfo rid key value).served nextRecID) r) := by
  obtain ⟨high, named, -⟩ := valid
  have decoded := AddInfo.decode_packed rid key.length 0 value.length
    (encode key.text ++ encode value.text)
  rw [Nat.mod_eq_of_lt high] at decoded
  by_cases fits : key.length ≤ 255 ∧ value.length ≤ 65535
  · rw [Nat.mod_eq_of_lt (show key.length < 2 ^ 8 by omega),
      Nat.mod_eq_of_lt (show value.length < 2 ^ 16 by omega)] at decoded
    have read := decoded.trans (AddInfo.ofFields_info rid named)
    rw [body, receiver_info chance positive opened read]
    simp [served, Fits, fits, session, Upload.served]
  · obtain ⟨message, refused⟩ := AddInfo.ofFields_wrong rid
      (show (encode key.text ++ encode value.text).length ≠
        key.length % 2 ^ 8 + value.length % 2 ^ 16 by
          rw [List.length_append]
          simp only [Text.length] at fits ⊢
          omega)
    rw [body, receiver_info_ignored chance positive (decoded.trans refused)]
    simp [served, Fits, fits]

end Served

def rx : Call → RxFn
  | sendInfo _ _ _ => .recvInfo
  | _ => .recvAddRec

theorem body_length (nextRecID : Int) (c : Call) : 8 ≤ (c.body nextRecID).length := by
  cases c <;> simp [body, length_packedFields]

theorem header_starts (chance : Chance) (nextRecID : Int) (c : Call) (valid : c.Valid nextRecID)
    (positive : 0 < (c.body nextRecID).length) (r : CastReceiver) :
    (receiver chance).handle (getInitialState, r) c.header =
      (⟨c.rx, (c.body nextRecID).length, positive⟩, r) := by
  cases c with
  | sendRecord rtype rname =>
    have length : ((sendRecord rtype rname).body nextRecID).length =
        8 + rtype.length + rname.length := by
      simp only [body, length_packedFields, List.length_append, Text.length]
      omega
    have packed : (sendRecord rtype rname).header =
      packedHead 0x0003 (8 + rtype.length + rname.length) := rfl
    have known : rxfn 0x0003 = ((sendRecord rtype rname).rx, ((8 : Nat) : Int)) := rfl
    exact header_read chance packed known (by decide) length (by omega) valid.2.2.2 positive r
  | sendAlias rid rname =>
    have length : ((sendAlias rid rname).body nextRecID).length = 8 + rname.length := by
      simp only [body, length_packedFields, Text.length]
    have packed : (sendAlias rid rname).header = packedHead 0x0003 (8 + rname.length) := rfl
    have known : rxfn 0x0003 = ((sendAlias rid rname).rx, ((8 : Nat) : Int)) := rfl
    exact header_read chance packed known (by decide) length (by omega) valid.2.2 positive r
  | sendInfo rid key value =>
    have length : ((sendInfo rid key value).body nextRecID).length =
        8 + key.length + value.length := by
      simp only [body, length_packedFields, List.length_append, Text.length]
      omega
    have packed : (sendInfo rid key value).header =
      packedHead 0x0006 (8 + key.length + value.length) := rfl
    have known : rxfn 0x0006 = ((sendInfo rid key value).rx, ((8 : Nat) : Int)) := rfl
    exact header_read chance packed known (by decide) length (by omega) valid.2.2 positive r

/-- What the client sends for one call is a frame to the server. -/
def framed (chance : Chance) (number : Nat) (nextRecID : Int) (c : Call)
    (valid : c.Valid nextRecID) : Frame chance number where
  header := c.header
  body := c.body nextRecID
  fn := c.rx
  calls := c.served nextRecID
  headerLength := c.header_length
  positive := Nat.lt_of_lt_of_le (by decide) (c.body_length nextRecID)
  starts := header_starts chance nextRecID c valid _
  finishes := by
    intro r opened
    cases c with
    | sendRecord rtype rname => exact record_served chance opened nextRecID valid _
    | sendAlias rid rname => exact alias_served chance opened nextRecID valid _
    | sendInfo rid key value => exact info_served chance opened nextRecID valid _

end Call

def ValidFrom : Int → List Call → Prop
  | _, [] => True
  | nextRecID, c :: rest => c.Valid nextRecID ∧ ValidFrom (c.next nextRecID) rest

/-- The session calls that a server should make for the sequence. -/
def servedFrom : Int → List Call → List SessionCall
  | _, [] => []
  | nextRecID, c :: rest => c.served nextRecID ++ servedFrom (c.next nextRecID) rest

def framesFrom (chance : Chance) (number : Nat) :
    (nextRecID : Int) → (calls : List Call) → ValidFrom nextRecID calls → List (Frame chance number)
  | _, [], _ => []
  | nextRecID, c :: rest, valid =>
    c.framed chance number nextRecID valid.1 ::
      framesFrom chance number (c.next nextRecID) rest valid.2

/-- The bytes that the client sends for a sequence of calls. -/
def wire (nextRecID : Int) (calls : List Call) : List UInt8 :=
  (calls.foldl (fun self c => (Call.send self c).2) ({ nextRecID } : Caster)).csock.sent

theorem sends_append (chance : Chance) (number : Nat) (calls : List Call) (self : Caster)
    (calm : self.csock.outcomes = []) (valid : ValidFrom self.nextRecID calls) :
    (calls.foldl (fun self c => (Call.send self c).2) self).csock.sent =
      self.csock.sent ++ wireOf (framesFrom chance number self.nextRecID calls valid) := by
  induction calls generalizing self with
  | nil => simp [framesFrom, wireOf]
  | cons c calls ih =>
    have sent := c.send_succeeds calm valid.1
    have others := ih (c.send self).2 (by rw [sent]; exact calm) (by rw [sent]; exact valid.2)
    rw [List.foldl_cons, others]
    simp [sent]
    simp [framesFrom, wireOf, Frame.bytes, Call.framed]

theorem callsOf_framesFrom (chance : Chance) (number : Nat) (nextRecID : Int) (calls : List Call)
    (valid : ValidFrom nextRecID calls) :
    callsOf (framesFrom chance number nextRecID calls valid) = servedFrom nextRecID calls := by
  induction calls generalizing nextRecID with
  | nil => rfl
  | cons c calls ih =>
    have rest := ih (c.next nextRecID) valid.2
    simp only [callsOf, framesFrom, servedFrom, List.map_cons, List.flatten_cons] at rest ⊢
    rw [rest]
    rfl

/-- After the greeting, whatever part of the client's stream has arrived and however it was cut,
the receiver stands at the header or the body of a frame; and when all of it has arrived, its
session has got exactly the calls that it should. -/
theorem upload_agrees {chance : Chance} (impl : Stateful.Protocol (receiver chance))
    {p : impl.State} {number : Nat} {r : CastReceiver} (greeted : impl.state p = (getInitialState, r))
    (opened : r.sess = some number) (connected : r.disconnecting = false ∧ r.failed = none)
    (fresh : impl.pending p = []) {nextRecID : Int} {calls : List Call}
    (valid : ValidFrom nextRecID calls) {chunks : List (List UInt8)} {rest : List UInt8}
    (cut : chunks.flatten ++ rest = wire nextRecID calls) :
    InFrames (framesFrom chance number nextRecID calls valid) r
        (impl.state (chunks.foldl impl.dataReceived p))
        (impl.pending (chunks.foldl impl.dataReceived p) ++ rest) ∧
      (rest = [] → impl.state (chunks.foldl impl.dataReceived p) =
          (getInitialState, served number (servedFrom nextRecID calls) r) ∧
        impl.pending (chunks.foldl impl.dataReceived p) = []) := by
  have alive : (receiver chance).closed (getInitialState, r) = false := by
    simp [receiver, connected.1, connected.2]
  have stream := sends_append chance number calls { nextRecID } rfl valid
  have start : InFrames (framesFrom chance number nextRecID calls valid) r (impl.state p)
      (impl.pending p ++ chunks.flatten ++ rest) := by
    rw [greeted, fresh, List.nil_append, cut, wire, stream, List.nil_append]
    simpa [callsOf] using InFrames.atHeader (r := r) [] (framesFrom chance number nextRecID calls valid) rfl
  have short : (impl.pending p).length < (receiver chance).wants (impl.state p) := by
    rw [greeted, fresh]
    exact getInitialState.positive
  obtain ⟨reading, short⟩ := impl.feed_invariant (InFrames.preserved opened)
    (InFrames.alive alive) rest chunks p start short

  refine ⟨reading, fun all => ?_⟩
  rw [all, List.append_nil] at reading
  rw [← callsOf_framesFrom chance number nextRecID calls valid]
  exact reading.complete short

/-- A record with an alias and an info of the IOC without a value. -/
def sampleCalls : List Call :=
  [.sendRecord ⟨"ai", by decide⟩ ⟨"pv", by decide⟩, .sendAlias 1 ⟨"µ", by decide⟩,
    .sendInfo 0 ⟨"LOCATION", by decide⟩ ⟨"", by decide⟩]

def greeted : CastReceiver :=
  { sess := some 0, sessions := 1, clientKey := some 42, effects := [.addClient] }

/-- The greeting and then the calls arrive byte by byte. -/
theorem upload_agrees_bytewise :
    let impl := Stateful.reference (receiver {})
    let greeting : List UInt8 := [0x52, 0x43, 0, 1, 0, 0, 0, 8, 0, 0, 0, 0, 0, 0, 0, 42]
    let p := impl.dataReceived ((getInitialState, {}), []) greeting
    (impl.state (((wire 1 sampleCalls).map fun byte => [byte]).foldl impl.dataReceived p)).2.effects =
      [.addClient, .session 0 (.addRecord 1 "ai" "pv"), .session 0 (.addAlias 1 "µ"),
        .session 0 (.iocInfo "LOCATION" "")] := by
  intro impl greeting p
  have start : p = ((getInitialState, greeted), []) := rfl
  have valid : ValidFrom 1 sampleCalls := by
    refine ⟨?_, ?_, ?_, trivial⟩ <;> decide
  have cut : ((wire 1 sampleCalls).map fun byte => [byte]).flatten ++ [] = wire 1 sampleCalls := by
    rw [List.append_nil, ← List.flatMap_def, List.flatMap_singleton']
  have state : impl.state p = (getInitialState, greeted) := by
    rw [start]
    rfl
  have nothing : impl.pending p = [] := by
    rw [start]
    rfl
  have all := (upload_agrees impl state rfl ⟨rfl, rfl⟩ nothing valid cut).2 rfl
  rw [all.1]
  decide

end Recsync.Upload
