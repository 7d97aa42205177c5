import Recsync.Lib.Program
import Recsync.Protocol.Messages

set_option autoImplicit false

/- Encoding of the TCP messages, and how it relates to their decoding. -/
namespace Recsync.Protocol

open Bytes

/-- What an `encode` raises. -/
inductive EncodeError where
  | structError
  | protocolError (message : String)
  deriving DecidableEq, Repr

abbrev Encoded := Except EncodeError (List UInt8)

/-- `struct.pack`, of fields given by width and value; a pad byte is a zero. -/
def pack : List (Nat × Nat) → Encoded
  | [] => .ok []
  | (width, value) :: rest =>
    if value < 256 ^ width then do return ofUInt width value ++ (← pack rest)
    else .error .structError

def Header.encode (h : Header) : Encoded := pack [(2, protoId), (2, h.msgId), (4, h.bodyLength)]

/-- `ClientGreeting.encode`, layout `!BBxxI`. -/
def ClientGreeting.encode (m : ClientGreeting) : Encoded :=
  pack [(1, m.version), (1, m.clientType), (2, 0), (4, m.serverKey)]

/-- `Pong.encode`, layout `!I`. -/
def Pong.encode (m : Pong) : Encoded := pack [(4, m.nonce)]

def RecordKind.value : RecordKind → Nat
  | .RECORD => 0
  | .ALIAS => 1

/-- A check that the encoder shares with the decoder. -/
def checked (check : Decoded Unit) : Except EncodeError Unit :=
  match check with
  | .ok () => .ok ()
  | .error (.protocolError message) => .error (.protocolError message)
  | .error .unicodeDecodeError => .error .structError

/-- `AddRecord.encode`, layout `!IBBH`. -/
def AddRecord.encode (m : AddRecord) : Encoded := do
  let recordType := Bytes.encode m.recordType
  let recordName := Bytes.encode m.recordName
  checked (validateRecordLengths m.kind recordType.length recordName.length)
  let fields ← pack [(4, m.recordId), (1, m.kind.value), (1, recordType.length),
    (2, recordName.length)]
  return fields ++ recordType ++ recordName

/-- `DelRecord.encode`, layout `!I`. -/
def DelRecord.encode (m : DelRecord) : Encoded := pack [(4, m.recordId)]

def UploadDone.encode : Encoded := pack [(4, 0)]

/-- `AddInfo.encode`, layout `!IBxH`. -/
def AddInfo.encode (m : AddInfo) : Encoded := do
  let key := Bytes.encode m.key
  let value := Bytes.encode m.value
  if key.length = 0 then throw (.protocolError "add info key must not be empty")
  let fields ← pack [(4, m.recordId), (1, key.length), (1, 0), (2, value.length)]
  return fields ++ key ++ value

structure ServerGreeting where
  version : Nat := 0
  deriving DecidableEq, Repr

def ServerGreeting.msgId : Nat := 0x8001
def ServerGreeting.payloadSize : Nat := 1

/-- `ServerGreeting.encode`, layout `!B`. -/
def ServerGreeting.encode (m : ServerGreeting) : Encoded := pack [(1, m.version)]

def ServerGreeting.decode (body : List UInt8) : Decoded ServerGreeting := do
  requireLength body ServerGreeting.payloadSize "ServerGreeting" true
  return ⟨uintAt 0 1 body⟩

structure Ping where
  nonce : Nat
  deriving DecidableEq, Repr

def Ping.msgId : Nat := 0x8002
def Ping.payloadSize : Nat := 4

/-- `Ping.encode`, layout `!I`. -/
def Ping.encode (m : Ping) : Encoded := pack [(4, m.nonce)]

def Ping.decode (body : List UInt8) : Decoded Ping := do
  requireLength body Ping.payloadSize "Ping" true
  return ⟨uintAt 0 4 body⟩

/-- The classes below `TCPMessage`. -/
inductive MessageClass where
  | clientGreeting
  | pong
  | addRecord
  | delRecord
  | uploadDone
  | addInfo
  | serverGreeting
  | ping
  deriving DecidableEq, Repr

inductive Message where
  | clientGreeting (m : ClientGreeting)
  | pong (m : Pong)
  | addRecord (m : AddRecord)
  | delRecord (m : DelRecord)
  | uploadDone
  | addInfo (m : AddInfo)
  | serverGreeting (m : ServerGreeting)
  | ping (m : Ping)
  deriving DecidableEq, Repr

namespace Message

def cls : Message → MessageClass
  | .clientGreeting _ => .clientGreeting
  | .pong _ => .pong
  | .addRecord _ => .addRecord
  | .delRecord _ => .delRecord
  | .uploadDone => .uploadDone
  | .addInfo _ => .addInfo
  | .serverGreeting _ => .serverGreeting
  | .ping _ => .ping

def encode : Message → Encoded
  | .clientGreeting m => m.encode
  | .pong m => m.encode
  | .addRecord m => m.encode
  | .delRecord m => m.encode
  | .uploadDone => UploadDone.encode
  | .addInfo m => m.encode
  | .serverGreeting m => m.encode
  | .ping m => m.encode

end Message

namespace MessageClass

def msgId : MessageClass → Nat
  | .clientGreeting => ClientGreeting.msgId
  | .pong => Pong.msgId
  | .addRecord => AddRecord.msgId
  | .delRecord => DelRecord.msgId
  | .uploadDone => UploadDone.msgId
  | .addInfo => AddInfo.msgId
  | .serverGreeting => ServerGreeting.msgId
  | .ping => Ping.msgId

def decode (body : List UInt8) : MessageClass → Decoded Message
  | .clientGreeting => Message.clientGreeting <$> ClientGreeting.decode body
  | .pong => Message.pong <$> Pong.decode body
  | .addRecord => Message.addRecord <$> AddRecord.decode body
  | .delRecord => Message.delRecord <$> DelRecord.decode body
  | .uploadDone => (fun _ => Message.uploadDone) <$> UploadDone.decode body
  | .addInfo => Message.addInfo <$> AddInfo.decode body
  | .serverGreeting => Message.serverGreeting <$> ServerGreeting.decode body
  | .ping => Message.ping <$> Ping.decode body

/-- The positions whose bytes a decoder does not look at. -/
def reserved : MessageClass → List Nat
  | .clientGreeting => [2, 3]
  | .addInfo => [5]
  | .uploadDone => [0, 1, 2, 3]
  | _ => []

end MessageClass

/-- `TCPMessage.frame`. -/
def Message.frame (m : Message) : Encoded := do
  let body ← m.encode
  let header ← Header.encode ⟨m.cls.msgId, body.length⟩
  return header ++ body

def packed (fields : List (Nat × Nat)) : List UInt8 := fields.flatMap fun f => ofUInt f.1 f.2

theorem pack_eq_ok_iff (fields : List (Nat × Nat)) (bytes : List UInt8) :
    pack fields = .ok bytes ↔ (∀ f ∈ fields, f.2 < 256 ^ f.1) ∧ bytes = packed fields := by
  induction fields generalizing bytes with
  | nil => simp [pack, packed, eq_comm]
  | cons f rest ih =>
    obtain ⟨width, value⟩ := f
    rw [pack, List.forall_mem_cons]
    split
    · rename_i fits
      simp only [Py.bind_eq_ok_iff, pure, Except.pure, Except.ok.injEq, ih]
      constructor
      · rintro ⟨more, ⟨others, rfl⟩, rfl⟩
        exact ⟨⟨fits, others⟩, rfl⟩
      · rintro ⟨⟨-, others⟩, rfl⟩
        exact ⟨packed rest, ⟨others, rfl⟩, rfl⟩
    · rename_i large
      simp [large]

theorem requireLength_eq_ok_iff (data : List UInt8) (n : Nat) (name : String) (u : Unit) :
    requireLength data n name true = .ok u ↔ data.length = n := by
  simp [requireLength]

theorem decodeText_eq_ok_iff (data : List UInt8) (text : String) :
    decodeText data = .ok text ↔ data = encode text := by
  rw [← decode_eq_some_iff, decodeText]
  cases decode data <;> simp

theorem checked_eq_ok_iff (check : Decoded Unit) (u : Unit) :
    checked check = .ok u ↔ check = .ok () := by
  match check with
  | .ok () => simp [checked]
  | .error (.protocolError message) => simp [checked]
  | .error .unicodeDecodeError => simp [checked]

section Fields

variable {b : List UInt8}

theorem packed_cons (width value : Nat) (rest : List (Nat × Nat)) :
    packed ((width, value) :: rest) = ofUInt width value ++ packed rest := List.flatMap_cons

/-- The field at the front of the bytes. -/
theorem uintAt_packed {width value : Nat} (fits : value < 256 ^ width)
    (rest : List (Nat × Nat)) : uintAt 0 width (packed ((width, value) :: rest)) = value := by
  rw [packed_cons, uintAt_here, Nat.mod_eq_of_lt fits]

theorem uintAt_packed_skip {offset front : Nat} (passed : front ≤ offset) (width value : Nat)
    (rest : List (Nat × Nat)) :
    uintAt offset width (packed ((front, value) :: rest)) =
      uintAt (offset - front) width (packed rest) := by
  rw [packed_cons, uintAt_skip _ _ (by simpa using passed), length_ofUInt]

theorem packed_uintAt {width : Nat} (exactly : b.length = width) :
    packed [(width, uintAt 0 width b)] = b := by
  have whole := @drop_eq_ofUInt 0 width b (by omega)
  rw [List.drop_zero, Nat.zero_add, List.drop_eq_nil_of_le (Nat.le_of_eq exactly)] at whole
  exact whole.symm

/-- Two strings of bytes that differ in the middle only. -/
theorem getElem?_middle {front middle other rest : List UInt8}
    (same : middle.length = other.length) {i : Nat}
    (outside : i < front.length ∨ front.length + middle.length ≤ i) :
    (front ++ (middle ++ rest))[i]? = (front ++ (other ++ rest))[i]? := by
  rcases outside with before | after
  · rw [List.getElem?_append_left before, List.getElem?_append_left before]
  · rw [List.getElem?_append_right (by omega), List.getElem?_append_right (by omega),
      List.getElem?_append_right (by omega), List.getElem?_append_right (by omega), same]

end Fields

section Exactly

variable {body : List UInt8}

theorem fixed_eq_ok_iff {α : Type} (size : Nat) (name : String) (value m : α) :
    (do requireLength body size name true; return value : Decoded α) = .ok m ↔
      body.length = size ∧ value = m := by
  simp only [Py.bind_eq_ok_iff, requireLength_eq_ok_iff, pure, Except.pure, Except.ok.injEq,
    exists_const]

theorem AddRecord.ofFields_eq_ok_iff (recordId k typeLength nameLength : Nat) (m : AddRecord) :
    AddRecord.ofFields recordId k typeLength nameLength body = .ok m ↔
      m.recordId = recordId ∧ k = m.kind.value ∧
        validateRecordLengths m.kind typeLength nameLength = .ok () ∧
        body.length = typeLength + nameLength ∧ body.take typeLength = Bytes.encode m.recordType ∧
        body.drop typeLength = Bytes.encode m.recordName := by
  have kinds (kind : RecordKind) : recordKind k = .ok kind ↔ k = kind.value := by
    unfold recordKind
    split
    · cases kind <;> simp_all [RecordKind.value]
    · split
      · cases kind <;> simp_all [RecordKind.value]
      · cases kind <;> simp_all [RecordKind.value]
  simp only [AddRecord.ofFields, Py.bind_eq_ok_iff, kinds, requireLength_eq_ok_iff,
    decodeText_eq_ok_iff, pure, Except.pure, Except.ok.injEq, exists_const]
  constructor
  · rintro ⟨kind, known, u, valid, exactly, recordType, typed, recordName, named, rfl⟩
    exact ⟨rfl, known, valid, exactly, typed, named⟩
  · rintro ⟨rfl, known, valid, exactly, typed, named⟩
    exact ⟨m.kind, known, (), valid, exactly, m.recordType, typed, m.recordName, named, rfl⟩

theorem AddInfo.ofFields_eq_ok_iff (recordId keyLength valueLength : Nat) (m : AddInfo) :
    AddInfo.ofFields recordId keyLength valueLength body = .ok m ↔
      m.recordId = recordId ∧ keyLength ≠ 0 ∧ body.length = keyLength + valueLength ∧
        body.take keyLength = Bytes.encode m.key ∧ body.drop keyLength = Bytes.encode m.value := by
  by_cases empty : keyLength = 0
  · constructor
    · intro done
      rw [AddInfo.ofFields, if_pos empty] at done
      cases done
    · rintro ⟨-, named, -⟩
      exact absurd empty named
  · simp only [AddInfo.ofFields, if_neg empty, Py.bind_eq_ok_iff, requireLength_eq_ok_iff,
      decodeText_eq_ok_iff, pure, Except.pure, Except.ok.injEq, exists_const]
    constructor
    · rintro ⟨exactly, key, keyed, value, valued, rfl⟩
      exact ⟨rfl, empty, exactly, keyed, valued⟩
    · rintro ⟨rfl, -, exactly, keyed, valued⟩
      exact ⟨exactly, m.key, keyed, m.value, valued, rfl⟩

end Exactly

section RoundTrip

variable {body : List UInt8}

/-- The four messages that are one integer. -/
theorem one_field {width : Nat} {α : Type} {value : α → Nat} (make : Nat → α)
    (make_value : ∀ m, make (value m) = m) (name : String) {m : α}
    (encoded : pack [(width, value m)] = .ok body) :
    (do requireLength body width name true; return make (uintAt 0 width body) : Decoded α) =
      .ok m := by
  obtain ⟨fits, rfl⟩ := (pack_eq_ok_iff _ _).mp encoded
  apply (fixed_eq_ok_iff width name _ m).mpr
  refine ⟨by simp [packed], ?_⟩
  rw [uintAt_packed (fits _ List.mem_cons_self), make_value]

theorem ClientGreeting.decode_encode {m : ClientGreeting} (encoded : m.encode = .ok body) :
    ClientGreeting.decode body = .ok m := by
  obtain ⟨fits, rfl⟩ := (pack_eq_ok_iff _ _).mp encoded
  simp only [List.forall_mem_cons] at fits
  apply (fixed_eq_ok_iff _ _ _ m).mpr
  refine ⟨by simp [packed, ClientGreeting.payloadSize], ?_⟩
  rw [uintAt_packed fits.1, uintAt_packed_skip (by decide), uintAt_packed fits.2.1,
    uintAt_packed_skip (by decide), uintAt_packed_skip (by decide), uintAt_packed_skip (by decide),
    uintAt_packed fits.2.2.2.1]

theorem AddRecord.encode_eq_ok_iff (m : AddRecord) :
    m.encode = .ok body ↔
      validateRecordLengths m.kind (Bytes.encode m.recordType).length
          (Bytes.encode m.recordName).length = .ok () ∧
        m.recordId < 2 ^ 32 ∧ (Bytes.encode m.recordType).length < 2 ^ 8 ∧
        (Bytes.encode m.recordName).length < 2 ^ 16 ∧
        body = packedFields m.recordId m.kind.value (Bytes.encode m.recordType).length
          (Bytes.encode m.recordName).length
          (Bytes.encode m.recordType ++ Bytes.encode m.recordName) := by
  have kind : m.kind.value < 256 ^ 1 := by cases m.kind <;> decide
  have same (front : List UInt8) : front = packed [(4, m.recordId), (1, m.kind.value),
      (1, (Bytes.encode m.recordType).length), (2, (Bytes.encode m.recordName).length)] →
      front ++ Bytes.encode m.recordType ++ Bytes.encode m.recordName =
        packedFields m.recordId m.kind.value (Bytes.encode m.recordType).length
          (Bytes.encode m.recordName).length
          (Bytes.encode m.recordType ++ Bytes.encode m.recordName) := by
    rintro rfl
    simp [packed, packedFields]
  simp only [AddRecord.encode, Py.bind_eq_ok_iff, checked_eq_ok_iff, pack_eq_ok_iff, pure,
    Except.pure, Except.ok.injEq, List.forall_mem_cons, exists_const]
  constructor
  · rintro ⟨valid, fields, ⟨⟨id, -, type, name, -⟩, front⟩, rfl⟩
    exact ⟨valid, id, type, name, same fields front⟩
  · rintro ⟨valid, id, type, name, rfl⟩
    exact ⟨valid, _, ⟨⟨id, kind, type, name, by simp⟩, rfl⟩, same _ rfl⟩

theorem AddInfo.encode_eq_ok_iff (m : AddInfo) :
    m.encode = .ok body ↔
      (Bytes.encode m.key).length ≠ 0 ∧ m.recordId < 2 ^ 32 ∧ (Bytes.encode m.key).length < 2 ^ 8 ∧
        (Bytes.encode m.value).length < 2 ^ 16 ∧
        body = packedFields m.recordId (Bytes.encode m.key).length 0 (Bytes.encode m.value).length
          (Bytes.encode m.key ++ Bytes.encode m.value) := by
  have same (front : List UInt8) : front = packed [(4, m.recordId), (1, (Bytes.encode m.key).length),
      (1, 0), (2, (Bytes.encode m.value).length)] →
      front ++ Bytes.encode m.key ++ Bytes.encode m.value =
        packedFields m.recordId (Bytes.encode m.key).length 0 (Bytes.encode m.value).length
          (Bytes.encode m.key ++ Bytes.encode m.value) := by
    rintro rfl
    simp [packed, packedFields]
  by_cases empty : (Bytes.encode m.key).length = 0
  · constructor
    · intro encoded
      rw [AddInfo.encode, if_pos empty] at encoded
      cases encoded
    · rintro ⟨named, -⟩
      exact absurd empty named
  · simp only [AddInfo.encode, if_neg empty, Py.bind_eq_ok_iff, pack_eq_ok_iff, pure,
      Except.pure, Except.ok.injEq, List.forall_mem_cons]
    constructor
    · rintro ⟨fields, ⟨⟨id, key, -, value, -⟩, front⟩, rfl⟩
      exact ⟨empty, id, key, value, same fields front⟩
    · rintro ⟨-, id, key, value, rfl⟩
      exact ⟨_, ⟨⟨id, key, by decide, value, by simp⟩, rfl⟩, same _ rfl⟩

theorem AddRecord.decode_encode {m : AddRecord} (encoded : m.encode = .ok body) :
    AddRecord.decode body = .ok m := by
  obtain ⟨valid, id, type, name, rfl⟩ := (AddRecord.encode_eq_ok_iff m).mp encoded
  have kind : m.kind.value < 2 ^ 8 := by cases m.kind <;> decide
  rw [AddRecord.decode_packed, Nat.mod_eq_of_lt id, Nat.mod_eq_of_lt kind, Nat.mod_eq_of_lt type,
    Nat.mod_eq_of_lt name, AddRecord.ofFields_eq_ok_iff]
  exact ⟨rfl, rfl, valid, by simp, by simp, by simp⟩

theorem AddInfo.decode_encode {m : AddInfo} (encoded : m.encode = .ok body) :
    AddInfo.decode body = .ok m := by
  obtain ⟨named, id, key, value, rfl⟩ := (AddInfo.encode_eq_ok_iff m).mp encoded
  rw [AddInfo.decode_packed, Nat.mod_eq_of_lt id, Nat.mod_eq_of_lt key, Nat.mod_eq_of_lt value,
    AddInfo.ofFields_eq_ok_iff]
  exact ⟨rfl, named, by simp, by simp, by simp⟩

theorem Message.decode_encode {m : Message} (encoded : m.encode = .ok body) :
    m.cls.decode body = .ok m := by
  cases m with
  | clientGreeting m => exact Py.map_eq_ok_iff.mpr ⟨m, ClientGreeting.decode_encode encoded, rfl⟩
  | pong m => exact Py.map_eq_ok_iff.mpr ⟨m, one_field Pong.mk (fun _ => rfl) _ encoded, rfl⟩
  | addRecord m => exact Py.map_eq_ok_iff.mpr ⟨m, AddRecord.decode_encode encoded, rfl⟩
  | delRecord m => exact Py.map_eq_ok_iff.mpr ⟨m, one_field DelRecord.mk (fun _ => rfl) _ encoded, rfl⟩
  | uploadDone =>
    obtain ⟨-, rfl⟩ := (pack_eq_ok_iff _ _).mp encoded
    exact Py.map_eq_ok_iff.mpr ⟨(), (requireLength_eq_ok_iff _ _ _ _).mpr rfl, rfl⟩
  | addInfo m => exact Py.map_eq_ok_iff.mpr ⟨m, AddInfo.decode_encode encoded, rfl⟩
  | serverGreeting m =>
    exact Py.map_eq_ok_iff.mpr ⟨m, one_field ServerGreeting.mk (fun _ => rfl) _ encoded, rfl⟩
  | ping m => exact Py.map_eq_ok_iff.mpr ⟨m, one_field Ping.mk (fun _ => rfl) _ encoded, rfl⟩

/-- A message with two texts is what its fields and the rest of it say. -/
theorem packedFields_uintAt (enough : 8 ≤ body.length) :
    packedFields (uintAt 0 4 body) (uintAt 4 1 body) (uintAt 5 1 body) (uintAt 6 2 body)
      (body.drop 8) = body := by
  have first := @drop_eq_ofUInt 0 4 body (by omega)
  have second := @drop_eq_ofUInt 4 1 body (by omega)
  have third := @drop_eq_ofUInt 5 1 body (by omega)
  have fourth := @drop_eq_ofUInt 6 2 body (by omega)
  rw [packedFields, ← fourth, ← third, ← second, ← first, List.drop_zero]

theorem requireLength_atLeast_iff (data : List UInt8) (n : Nat) (name : String) (u : Unit) :
    requireLength data n name false = .ok u ↔ n ≤ data.length := by
  simp [requireLength]

theorem AddRecord.decode_eq_ok_iff (m : AddRecord) :
    AddRecord.decode body = .ok m ↔ 8 ≤ body.length ∧
      AddRecord.ofFields (uintAt 0 4 body) (uintAt 4 1 body) (uintAt 5 1 body) (uintAt 6 2 body)
        (body.drop 8) = .ok m := by
  simp only [AddRecord.decode, Py.bind_eq_ok_iff, requireLength_atLeast_iff, exists_const,
    AddRecord.payloadSize]

theorem AddInfo.decode_eq_ok_iff (m : AddInfo) :
    AddInfo.decode body = .ok m ↔ 8 ≤ body.length ∧
      AddInfo.ofFields (uintAt 0 4 body) (uintAt 4 1 body) (uintAt 6 2 body) (body.drop 8) =
        .ok m := by
  simp only [AddInfo.decode, Py.bind_eq_ok_iff, requireLength_atLeast_iff, exists_const,
    AddInfo.payloadSize]

theorem text_lengths {text first second : List UInt8} {a b : Nat} (exactly : text.length = a + b)
    (front : text.take a = first) (back : text.drop a = second) :
    first.length = a ∧ second.length = b ∧ first ++ second = text := by
  subst front back
  refine ⟨?_, ?_, List.take_append_drop a text⟩
  · rw [List.length_take]
    omega
  · rw [List.length_drop]
    omega

theorem AddRecord.encode_decode {m : AddRecord} (decoded : AddRecord.decode body = .ok m) :
    m.encode = .ok body := by
  obtain ⟨enough, fields⟩ := (AddRecord.decode_eq_ok_iff m).mp decoded
  obtain ⟨id, kind, valid, exactly, typed, named⟩ :=
    (AddRecord.ofFields_eq_ok_iff _ _ _ _ m).mp fields
  obtain ⟨typeLength, nameLength, text⟩ := text_lengths exactly typed named
  rw [AddRecord.encode_eq_ok_iff, typeLength, nameLength, id, ← kind, text,
    packedFields_uintAt enough]
  exact ⟨valid, uintAt_lt 0 4 body, uintAt_lt 5 1 body, uintAt_lt 6 2 body, rfl⟩

theorem AddInfo.encode_decode {m : AddInfo} (decoded : AddInfo.decode body = .ok m) :
    m.encode = .ok (packedFields (uintAt 0 4 body) (uintAt 4 1 body) 0 (uintAt 6 2 body)
      (body.drop 8)) := by
  obtain ⟨enough, fields⟩ := (AddInfo.decode_eq_ok_iff m).mp decoded
  obtain ⟨id, named, exactly, keyed, valued⟩ := (AddInfo.ofFields_eq_ok_iff _ _ _ m).mp fields
  obtain ⟨keyLength, valueLength, text⟩ := text_lengths exactly keyed valued
  rw [AddInfo.encode_eq_ok_iff, keyLength, valueLength, id, text]
  exact ⟨named, uintAt_lt 0 4 body, uintAt_lt 4 1 body, uintAt_lt 6 2 body, rfl⟩

theorem one_field_encode {width : Nat} (exactly : body.length = width) :
    pack [(width, uintAt 0 width body)] = .ok body := by
  rw [pack_eq_ok_iff, packed_uintAt exactly]
  simp [uintAt_lt]

/-- The two pad bytes come back as zeros. -/
theorem ClientGreeting.encode_decode {m : ClientGreeting}
    (decoded : ClientGreeting.decode body = .ok m) :
    ∃ again, m.encode = .ok again ∧ again.length = body.length ∧
      ∀ i, i < 2 ∨ 4 ≤ i → again[i]? = body[i]? := by
  obtain ⟨exactly, rfl⟩ := (fixed_eq_ok_iff _ _ _ _).mp decoded
  have exactly : body.length = 8 := exactly
  refine ⟨_, (pack_eq_ok_iff _ _).mpr ⟨?_, rfl⟩, by simp [packed, exactly], ?_⟩
  · simp only [List.forall_mem_cons]
    exact ⟨uintAt_lt 0 1 body, uintAt_lt 1 1 body, by decide, uintAt_lt 4 4 body, by simp⟩
  · intro i outside
    have first := @drop_eq_ofUInt 0 1 body (by omega)
    have second := @drop_eq_ofUInt 1 1 body (by omega)
    have third := @drop_eq_ofUInt 2 2 body (by omega)
    have fourth := @drop_eq_ofUInt 4 4 body (by omega)
    rw [List.drop_zero, second, third, fourth, List.drop_eq_nil_of_le (by omega),
      ← List.append_assoc] at first
    have same := @getElem?_middle (ofUInt 1 (uintAt 0 1 body) ++ ofUInt 1 (uintAt 1 1 body))
      (ofUInt 2 0) (ofUInt 2 (uintAt 2 2 body)) (ofUInt 4 (uintAt 4 4 body) ++ [])
      (by simp) i (by simpa using outside)
    refine Eq.trans ?_ (congrArg (fun bytes => bytes[i]?) first.symm)
    rw [← same]
    simp [packed]

/-- A zero in the place of the pad byte. -/
theorem packedFields_pad (enough : 8 ≤ body.length) {i : Nat} (outside : i < 5 ∨ 6 ≤ i) :
    (packedFields (uintAt 0 4 body) (uintAt 4 1 body) 0 (uintAt 6 2 body) (body.drop 8))[i]? =
      body[i]? := by
  refine Eq.trans ?_ (congrArg (fun bytes => bytes[i]?) (packedFields_uintAt enough))
  have same := @getElem?_middle (ofUInt 4 (uintAt 0 4 body) ++ ofUInt 1 (uintAt 4 1 body))
    (ofUInt 1 0) (ofUInt 1 (uintAt 5 1 body)) (ofUInt 2 (uintAt 6 2 body) ++ body.drop 8)
    (by simp) i (by simpa using outside)
  simpa [packedFields] using same

/-- What comes back is the body, up to the reserved bytes. -/
theorem MessageClass.encode_decode {cls : MessageClass} {m : Message}
    (decoded : cls.decode body = .ok m) :
    ∃ again, m.encode = .ok again ∧ m.cls = cls ∧ again.length = body.length ∧
      ∀ i, i ∉ cls.reserved → again[i]? = body[i]? := by
  cases cls with
  | clientGreeting =>
    obtain ⟨g, read, rfl⟩ := Py.map_eq_ok_iff.mp decoded
    obtain ⟨again, encoded, same, kept⟩ := ClientGreeting.encode_decode read
    refine ⟨again, encoded, rfl, same, fun i free => kept i ?_⟩
    simp only [MessageClass.reserved, List.mem_cons, List.not_mem_nil, or_false, not_or] at free
    omega
  | pong =>
    obtain ⟨g, read, rfl⟩ := Py.map_eq_ok_iff.mp decoded
    obtain ⟨exactly, rfl⟩ := (fixed_eq_ok_iff _ _ _ _).mp read
    exact ⟨body, one_field_encode exactly, rfl, rfl, fun _ _ => rfl⟩
  | addRecord =>
    obtain ⟨g, read, rfl⟩ := Py.map_eq_ok_iff.mp decoded
    exact ⟨body, AddRecord.encode_decode read, rfl, rfl, fun _ _ => rfl⟩
  | delRecord =>
    obtain ⟨g, read, rfl⟩ := Py.map_eq_ok_iff.mp decoded
    obtain ⟨exactly, rfl⟩ := (fixed_eq_ok_iff _ _ _ _).mp read
    exact ⟨body, one_field_encode exactly, rfl, rfl, fun _ _ => rfl⟩
  | uploadDone =>
    obtain ⟨u, read, rfl⟩ := Py.map_eq_ok_iff.mp decoded
    have exactly : body.length = 4 := (requireLength_eq_ok_iff _ _ _ u).mp read
    refine ⟨ofUInt 4 0, rfl, rfl, by simp [exactly], ?_⟩
    intro i free
    simp only [MessageClass.reserved, List.mem_cons, List.not_mem_nil, or_false, not_or] at free
    rw [List.getElem?_eq_none (by simp; omega), List.getElem?_eq_none (by omega)]
  | addInfo =>
    obtain ⟨g, read, rfl⟩ := Py.map_eq_ok_iff.mp decoded
    have enough := ((AddInfo.decode_eq_ok_iff g).mp read).1
    refine ⟨_, AddInfo.encode_decode read, rfl, ?_, fun i free => packedFields_pad enough ?_⟩
    · rw [length_packedFields, List.length_drop]
      omega
    · simp only [MessageClass.reserved, List.mem_cons, List.not_mem_nil, or_false] at free
      omega
  | serverGreeting =>
    obtain ⟨g, read, rfl⟩ := Py.map_eq_ok_iff.mp decoded
    obtain ⟨exactly, rfl⟩ := (fixed_eq_ok_iff _ _ _ _).mp read
    exact ⟨body, one_field_encode exactly, rfl, rfl, fun _ _ => rfl⟩
  | ping =>
    obtain ⟨g, read, rfl⟩ := Py.map_eq_ok_iff.mp decoded
    obtain ⟨exactly, rfl⟩ := (fixed_eq_ok_iff _ _ _ _).mp read
    exact ⟨body, one_field_encode exactly, rfl, rfl, fun _ _ => rfl⟩

end RoundTrip

section Frame

theorem MessageClass.msgId_lt (cls : MessageClass) : cls.msgId < 256 ^ 2 := by
  cases cls <;> decide

/-- Every body fits the length field of the header. -/
theorem Message.length_encode_lt {m : Message} {body : List UInt8} (encoded : m.encode = .ok body) :
    body.length < 256 ^ 4 := by
  have fixed {fields : List (Nat × Nat)} (done : pack fields = .ok body)
      (short : (packed fields).length < 256 ^ 4) : body.length < 256 ^ 4 := by
    rw [((pack_eq_ok_iff _ _).mp done).2]
    exact short
  cases m with
  | clientGreeting m => exact fixed encoded (by simp [packed])
  | pong m => exact fixed encoded (by simp [packed])
  | addRecord m =>
    obtain ⟨-, -, type, name, rfl⟩ := (AddRecord.encode_eq_ok_iff m).mp encoded
    rw [length_packedFields, List.length_append]
    omega
  | delRecord m => exact fixed encoded (by simp [packed])
  | uploadDone => exact fixed encoded (by simp [packed])
  | addInfo m =>
    obtain ⟨-, -, key, value, rfl⟩ := (AddInfo.encode_eq_ok_iff m).mp encoded
    rw [length_packedFields, List.length_append]
    omega
  | serverGreeting m => exact fixed encoded (by simp [packed])
  | ping m => exact fixed encoded (by simp [packed])

/-- The bytes of a header whose fields are in range. -/
theorem Header.encode_eq_ok {h : Header} (id : h.msgId < 256 ^ 2) (length : h.bodyLength < 256 ^ 4) :
    h.encode = .ok (ofUInt 2 protoId ++ (ofUInt 2 h.msgId ++ ofUInt 4 h.bodyLength)) := by
  rw [Header.encode, pack_eq_ok_iff]
  simp only [List.forall_mem_cons]
  exact ⟨⟨by decide, id, length, by simp⟩, by simp [packed]⟩

theorem Message.frame_eq_ok {m : Message} {body : List UInt8} (encoded : m.encode = .ok body) :
    ∃ frame, m.frame = .ok frame ∧ frame.drop 8 = body ∧
      Header.decode (frame.take 8) = .ok ⟨m.cls.msgId, (frame.drop 8).length⟩ := by
  have short := Message.length_encode_lt encoded
  have header := @Header.encode_eq_ok ⟨m.cls.msgId, body.length⟩ m.cls.msgId_lt short
  refine ⟨_, Py.bind_eq_ok_iff.mpr ⟨body, encoded, Py.bind_eq_ok_iff.mpr ⟨_, header, rfl⟩⟩, ?_, ?_⟩
  · rw [List.drop_left' (by simp)]
  · rw [List.take_left' (by simp), List.drop_left' (by simp)]
    exact Header.decode_packed m.cls.msgId_lt short

end Frame

def ValidText (bytes : List UInt8) : Prop := ∃ text, bytes = encode text

theorem AddRecord.accepts_iff (body : List UInt8) :
    (∃ m, AddRecord.decode body = .ok m) ↔
      8 ≤ body.length ∧ (body.drop 8).length = uintAt 5 1 body + uintAt 6 2 body ∧
        uintAt 6 2 body ≠ 0 ∧
        (uintAt 4 1 body = 0 ∧ uintAt 5 1 body ≠ 0 ∨ uintAt 4 1 body = 1 ∧ uintAt 5 1 body = 0) ∧
        ValidText ((body.drop 8).take (uintAt 5 1 body)) ∧
        ValidText ((body.drop 8).drop (uintAt 5 1 body)) := by
  have lengths (kind : RecordKind) : validateRecordLengths kind (uintAt 5 1 body) (uintAt 6 2 body) =
      .ok () ↔ uintAt 6 2 body ≠ 0 ∧ (kind = .RECORD → uintAt 5 1 body ≠ 0) ∧
        (kind = .ALIAS → uintAt 5 1 body = 0) := by
    unfold validateRecordLengths
    split
    · simp_all
    · split
      · simp_all
      · split <;> simp_all
  simp only [AddRecord.decode_eq_ok_iff, AddRecord.ofFields_eq_ok_iff, lengths]
  constructor
  · rintro ⟨m, enough, -, kind, ⟨named, record, other⟩, exactly, type, name⟩
    refine ⟨enough, exactly, named, ?_, ⟨_, type⟩, ⟨_, name⟩⟩
    cases same : m.kind with
    | RECORD => exact Or.inl ⟨by rw [kind, same]; rfl, record same⟩
    | ALIAS => exact Or.inr ⟨by rw [kind, same]; rfl, other same⟩
  · rintro ⟨enough, exactly, named, kinds, ⟨recordType, type⟩, ⟨recordName, name⟩⟩
    rcases kinds with ⟨kind, typed⟩ | ⟨kind, untyped⟩
    · exact ⟨⟨uintAt 0 4 body, .RECORD, recordType, recordName⟩, enough, rfl, kind,
        ⟨named, fun _ => typed, by simp⟩, exactly, type, name⟩
    · exact ⟨⟨uintAt 0 4 body, .ALIAS, recordType, recordName⟩, enough, rfl, kind,
        ⟨named, by simp, fun _ => untyped⟩, exactly, type, name⟩

theorem AddInfo.accepts_iff (body : List UInt8) :
    (∃ m, AddInfo.decode body = .ok m) ↔
      8 ≤ body.length ∧ (body.drop 8).length = uintAt 4 1 body + uintAt 6 2 body ∧
        uintAt 4 1 body ≠ 0 ∧ ValidText ((body.drop 8).take (uintAt 4 1 body)) ∧
        ValidText ((body.drop 8).drop (uintAt 4 1 body)) := by
  simp only [AddInfo.decode_eq_ok_iff, AddInfo.ofFields_eq_ok_iff]
  constructor
  · rintro ⟨m, enough, -, named, exactly, key, value⟩
    exact ⟨enough, exactly, named, ⟨_, key⟩, ⟨_, value⟩⟩
  · rintro ⟨enough, exactly, named, ⟨key, keyed⟩, ⟨value, valued⟩⟩
    exact ⟨⟨uintAt 0 4 body, key, value⟩, enough, rfl, named, exactly, keyed, valued⟩

/-- What is encoded decodes to itself behind a header that announces it, what is accepted is
encoded again up to its reserved bytes, and the messages with texts are accepted exactly when
both texts are there. -/
theorem codec_exact :
    (∀ (m : Message) (body : List UInt8), m.encode = .ok body →
      m.cls.decode body = .ok m ∧
        ∃ frame, m.frame = .ok frame ∧ frame.drop 8 = body ∧
          Header.decode (frame.take 8) = .ok ⟨m.cls.msgId, (frame.drop 8).length⟩) ∧
    (∀ (cls : MessageClass) (body : List UInt8) (m : Message), cls.decode body = .ok m →
      ∃ again, m.encode = .ok again ∧ m.cls = cls ∧ again.length = body.length ∧
        ∀ i, i ∉ cls.reserved → again[i]? = body[i]?) ∧
    (∀ body, (∃ m, AddRecord.decode body = .ok m) ↔
      8 ≤ body.length ∧ (body.drop 8).length = uintAt 5 1 body + uintAt 6 2 body ∧
        uintAt 6 2 body ≠ 0 ∧
        (uintAt 4 1 body = 0 ∧ uintAt 5 1 body ≠ 0 ∨ uintAt 4 1 body = 1 ∧ uintAt 5 1 body = 0) ∧
        ValidText ((body.drop 8).take (uintAt 5 1 body)) ∧
        ValidText ((body.drop 8).drop (uintAt 5 1 body))) ∧
    (∀ body, (∃ m, AddInfo.decode body = .ok m) ↔
      8 ≤ body.length ∧ (body.drop 8).length = uintAt 4 1 body + uintAt 6 2 body ∧
        uintAt 4 1 body ≠ 0 ∧ ValidText ((body.drop 8).take (uintAt 4 1 body)) ∧
        ValidText ((body.drop 8).drop (uintAt 4 1 body))) := by
  refine ⟨?_, ?_, AddRecord.accepts_iff, AddInfo.accepts_iff⟩
  · intro m body encoded
    exact ⟨Message.decode_encode encoded, Message.frame_eq_ok encoded⟩
  · intro cls body m decoded
    exact MessageClass.encode_decode decoded

/-- An alias with a name of two bytes. -/
theorem codec_exact_alias :
    let m : Message := .addRecord ⟨258, .ALIAS, "", "é"⟩
    m.encode = .ok [0, 0, 1, 2, 1, 0, 0, 2, 0xC3, 0xA9] ∧
      m.cls.decode [0, 0, 1, 2, 1, 0, 0, 2, 0xC3, 0xA9] = .ok m := by
  intro m
  have encoded : m.encode = .ok [0, 0, 1, 2, 1, 0, 0, 2, 0xC3, 0xA9] := rfl
  exact ⟨encoded, (codec_exact.1 m _ encoded).1⟩

end Recsync.Protocol
