import Recsync.Lib.Bytes

set_option autoImplicit false

/- The TCP messages of `protocol/messages.py` that a client sends. -/
namespace Recsync.Protocol

open Bytes

def protoId : Nat := 0x5243

inductive RecordKind where
  | RECORD
  | ALIAS
  deriving DecidableEq, Repr

/-- What a `decode` raises. -/
inductive DecodeError where
  | protocolError (message : String)
  | unicodeDecodeError
  deriving DecidableEq, Repr

abbrev Decoded (α : Type) := Except DecodeError α

/-- The format `#06x`. -/
def hex06 (n : Nat) : String :=
  let digits := Nat.toDigits 16 n
  "0x" ++ String.ofList (List.replicate (4 - digits.length) '0' ++ digits)

def requireLength (data : List UInt8) (expectedLength : Nat) (messageName : String)
    (exact : Bool) : Decoded Unit :=
  if exact ∧ data.length = expectedLength then .ok ()
  else if !exact ∧ expectedLength ≤ data.length then .ok ()
  else
    let relation := if exact then "must be" else "must be at least"
    .error (.protocolError (messageName ++ " " ++ relation ++ " " ++ toString expectedLength ++
      " bytes, got " ++ toString data.length))

/-- `bytes.decode()`. -/
def decodeText (data : List UInt8) : Decoded String :=
  match decode data with
  | some text => .ok text
  | none => .error .unicodeDecodeError

structure Header where
  msgId : Nat
  bodyLength : Nat
  deriving DecidableEq, Repr

def Header.payloadSize : Nat := 8

/-- `Header.decode`, layout `!HHI`. -/
def Header.decode (wireBytes : List UInt8) : Decoded Header := do
  requireLength wireBytes Header.payloadSize "Header" true
  let proto := uintAt 0 2 wireBytes
  if proto ≠ protoId then throw (.protocolError ("bad protocol id " ++ hex06 proto))
  return ⟨uintAt 2 2 wireBytes, uintAt 4 4 wireBytes⟩

structure ClientGreeting where
  version : Nat
  clientType : Nat
  serverKey : Nat
  deriving DecidableEq, Repr

def ClientGreeting.msgId : Nat := 0x0001
def ClientGreeting.payloadSize : Nat := 8

/-- `ClientGreeting.decode`, layout `!BBxxI`. -/
def ClientGreeting.decode (body : List UInt8) : Decoded ClientGreeting := do
  requireLength body ClientGreeting.payloadSize "ClientGreeting" true
  return ⟨uintAt 0 1 body, uintAt 1 1 body, uintAt 4 4 body⟩

structure Pong where
  nonce : Nat
  deriving DecidableEq, Repr

def Pong.msgId : Nat := 0x0002
def Pong.payloadSize : Nat := 4

/-- `Pong.decode`, layout `!I`. -/
def Pong.decode (body : List UInt8) : Decoded Pong := do
  requireLength body Pong.payloadSize "Pong" true
  return ⟨uintAt 0 4 body⟩

structure AddRecord where
  recordId : Nat
  kind : RecordKind
  recordType : String
  recordName : String
  deriving DecidableEq, Repr

def AddRecord.msgId : Nat := 0x0003
def AddRecord.payloadSize : Nat := 8

def AddRecord.isAlias (m : AddRecord) : Bool := m.kind == .ALIAS

def recordKind (value : Nat) : Decoded RecordKind :=
  if value = 0 then .ok .RECORD
  else if value = 1 then .ok .ALIAS
  else .error (.protocolError ("unknown record kind " ++ toString value))

def validateRecordLengths (kind : RecordKind) (recordTypeLength recordNameLength : Nat) :
    Decoded Unit :=
  if recordNameLength = 0 then .error (.protocolError "add record name must not be empty")
  else if kind = .RECORD ∧ recordTypeLength = 0 then
    .error (.protocolError "record type must not be empty for records")
  else if kind = .ALIAS ∧ recordTypeLength ≠ 0 then
    .error (.protocolError "record type must be empty for aliases")
  else .ok ()

/-- What `AddRecord.decode` does with the unpacked fields and the bytes that follow. -/
def AddRecord.ofFields (recordId kind recordTypeLength recordNameLength : Nat)
    (text : List UInt8) : Decoded AddRecord := do
  let kind ← recordKind kind
  validateRecordLengths kind recordTypeLength recordNameLength
  requireLength text (recordTypeLength + recordNameLength) "add record text" true
  let recordType ← decodeText (text.take recordTypeLength)
  let recordName ← decodeText (text.drop recordTypeLength)
  return ⟨recordId, kind, recordType, recordName⟩

/-- `AddRecord.decode`, layout `!IBBH`. -/
def AddRecord.decode (body : List UInt8) : Decoded AddRecord := do
  requireLength body AddRecord.payloadSize "AddRecord" false
  AddRecord.ofFields (uintAt 0 4 body) (uintAt 4 1 body) (uintAt 5 1 body) (uintAt 6 2 body)
    (body.drop AddRecord.payloadSize)

structure DelRecord where
  recordId : Nat
  deriving DecidableEq, Repr

def DelRecord.msgId : Nat := 0x0004
def DelRecord.payloadSize : Nat := 4

/-- `DelRecord.decode`, layout `!I`. -/
def DelRecord.decode (body : List UInt8) : Decoded DelRecord := do
  requireLength body DelRecord.payloadSize "DelRecord" true
  return ⟨uintAt 0 4 body⟩

def UploadDone.msgId : Nat := 0x0005
def UploadDone.payloadSize : Nat := 4

/-- `UploadDone.decode`: the payload is accepted and ignored. -/
def UploadDone.decode (body : List UInt8) : Decoded Unit :=
  requireLength body UploadDone.payloadSize "UploadDone" true

structure AddInfo where
  recordId : Nat
  key : String
  value : String
  deriving DecidableEq, Repr

def AddInfo.msgId : Nat := 0x0006
def AddInfo.payloadSize : Nat := 8

/-- What `AddInfo.decode` does with the unpacked fields and the bytes that follow. -/
def AddInfo.ofFields (recordId keyLength valueLength : Nat) (text : List UInt8) :
    Decoded AddInfo := do
  if keyLength = 0 then throw (.protocolError "add info key must not be empty")
  requireLength text (keyLength + valueLength) "add info text" true
  let key ← decodeText (text.take keyLength)
  let value ← decodeText (text.drop keyLength)
  return ⟨recordId, key, value⟩

/-- `AddInfo.decode`, layout `!IBxH`. -/
def AddInfo.decode (body : List UInt8) : Decoded AddInfo := do
  requireLength body AddInfo.payloadSize "AddInfo" false
  AddInfo.ofFields (uintAt 0 4 body) (uintAt 4 1 body) (uintAt 6 2 body)
    (body.drop AddInfo.payloadSize)

theorem requireLength_exact {data : List UInt8} {n : Nat} (same : data.length = n)
    (name : String) : requireLength data n name true = .ok () := by
  simp [requireLength, same]

theorem requireLength_atLeast {data : List UInt8} {n : Nat} (enough : n ≤ data.length)
    (name : String) : requireLength data n name false = .ok () := by
  simp [requireLength, enough]

theorem requireLength_wrong {data : List UInt8} {n : Nat} (other : data.length ≠ n)
    (name : String) : ∃ message, requireLength data n name true = .error (.protocolError message) := by
  simp [requireLength, other]

@[simp] theorem decodeText_encode (s : String) : decodeText (encode s) = .ok s := by
  simp [decodeText]

theorem Header.decode_packed {msgId bodyLength : Nat} (small : msgId < 2 ^ 16)
    (short : bodyLength < 2 ^ 32) :
    Header.decode (ofUInt 2 protoId ++ (ofUInt 2 msgId ++ ofUInt 4 bodyLength)) =
      .ok ⟨msgId, bodyLength⟩ := by
  have proto : uintAt 0 2 (ofUInt 2 protoId ++ (ofUInt 2 msgId ++ ofUInt 4 bodyLength)) = protoId := by
    rw [uintAt_here]
    rfl
  have id : uintAt 2 2 (ofUInt 2 protoId ++ (ofUInt 2 msgId ++ ofUInt 4 bodyLength)) = msgId := by
    rw [uintAt_skip _ _ (by simp), length_ofUInt, uintAt_here]
    exact Nat.mod_eq_of_lt small
  have length : uintAt 4 4 (ofUInt 2 protoId ++ (ofUInt 2 msgId ++ ofUInt 4 bodyLength)) =
      bodyLength := by
    rw [uintAt_skip _ _ (by simp), uintAt_skip _ _ (by simp), ← List.append_nil (ofUInt 4 _)]
    simp only [length_ofUInt, Nat.reduceSub, uintAt_here]
    exact Nat.mod_eq_of_lt short
  have size : (ofUInt 2 protoId ++ (ofUInt 2 msgId ++ ofUInt 4 bodyLength)).length =
      Header.payloadSize := by
    simp [Header.payloadSize]
  simp only [Header.decode, requireLength_exact size, proto, id, length, ne_eq, not_true_eq_false,
    if_false]
  rfl

section Packed

variable (a b c d : Nat) (text : List UInt8)

/-- The bytes of both text messages: integers of four, one, one and two bytes, then the text. -/
def packedFields : List UInt8 :=
  ofUInt 4 a ++ (ofUInt 1 b ++ (ofUInt 1 c ++ (ofUInt 2 d ++ text)))

theorem length_packedFields : (packedFields a b c d text).length = 8 + text.length := by
  simp only [packedFields, List.length_append, length_ofUInt]
  omega

theorem uintAt_packedFields :
    uintAt 0 4 (packedFields a b c d text) = a % 2 ^ 32 ∧
      uintAt 4 1 (packedFields a b c d text) = b % 2 ^ 8 ∧
      uintAt 5 1 (packedFields a b c d text) = c % 2 ^ 8 ∧
      uintAt 6 2 (packedFields a b c d text) = d % 2 ^ 16 := by
  refine ⟨?_, ?_, ?_, ?_⟩
  · exact uintAt_here 4 a _
  · rw [packedFields, uintAt_skip _ _ (by simp)]
    exact uintAt_here 1 b _
  · rw [packedFields, uintAt_skip _ _ (by simp), uintAt_skip _ _ (by simp)]
    simp
  · rw [packedFields, uintAt_skip _ _ (by simp), uintAt_skip _ _ (by simp),
      uintAt_skip _ _ (by simp)]
    simp

theorem AddRecord.decode_packed : AddRecord.decode (packedFields a b c d text) =
    AddRecord.ofFields (a % 2 ^ 32) (b % 2 ^ 8) (c % 2 ^ 8) (d % 2 ^ 16) text := by
  have enough : AddRecord.payloadSize ≤ (packedFields a b c d text).length := by
    rw [length_packedFields]
    exact Nat.le_add_right 8 _
  obtain ⟨first, second, third, fourth⟩ := uintAt_packedFields a b c d text
  rw [AddRecord.decode, requireLength_atLeast enough, first, second, third, fourth]
  rfl

theorem AddInfo.decode_packed : AddInfo.decode (packedFields a b c d text) =
    AddInfo.ofFields (a % 2 ^ 32) (b % 2 ^ 8) (d % 2 ^ 16) text := by
  have enough : AddInfo.payloadSize ≤ (packedFields a b c d text).length := by
    rw [length_packedFields]
    exact Nat.le_add_right 8 _
  obtain ⟨first, second, -, fourth⟩ := uintAt_packedFields a b c d text
  rw [AddInfo.decode, requireLength_atLeast enough, first, second, fourth]
  rfl

end Packed

section Texts

theorem validateRecordLengths_cases (kind : RecordKind) (typeLength nameLength : Nat) :
    validateRecordLengths kind typeLength nameLength = .ok () ∨
      ∃ message, validateRecordLengths kind typeLength nameLength =
        .error (.protocolError message) := by
  unfold validateRecordLengths
  split
  · exact .inr ⟨_, rfl⟩
  · split
    · exact .inr ⟨_, rfl⟩
    · split
      · exact .inr ⟨_, rfl⟩
      · exact .inl rfl

/-- The text of a message is as long as its two length fields say, or the message is refused. -/
theorem AddRecord.ofFields_wrong (recordId : Nat) {k typeLength nameLength : Nat} {kind : RecordKind}
    (known : recordKind k = .ok kind) {text : List UInt8}
    (other : text.length ≠ typeLength + nameLength) :
    ∃ message, AddRecord.ofFields recordId k typeLength nameLength text =
      .error (.protocolError message) := by
  obtain ⟨message, wrong⟩ := requireLength_wrong other "add record text"
  rcases validateRecordLengths_cases kind typeLength nameLength with valid | ⟨refusal, invalid⟩
  · exact ⟨message, by simp only [AddRecord.ofFields, known, bind, Except.bind, valid, wrong]⟩
  · exact ⟨refusal, by simp only [AddRecord.ofFields, known, bind, Except.bind, invalid]⟩

theorem AddRecord.ofFields_record (recordId : Nat) {t n : String}
    (typed : (encode t).length ≠ 0) (named : (encode n).length ≠ 0) :
    AddRecord.ofFields recordId 0 (encode t).length (encode n).length (encode t ++ encode n) =
      .ok ⟨recordId, .RECORD, t, n⟩ := by
  have exactly := requireLength_exact (@List.length_append _ (encode t) (encode n)) "add record text"
  simp [AddRecord.ofFields, recordKind, validateRecordLengths, typed, named, exactly, bind,
    Except.bind, pure, Except.pure]

theorem AddRecord.ofFields_alias (recordId : Nat) {n : String} (named : (encode n).length ≠ 0) :
    AddRecord.ofFields recordId 1 0 (encode n).length (encode n) =
      .ok ⟨recordId, .ALIAS, "", n⟩ := by
  have exactly := requireLength_exact (@rfl _ (encode n).length) "add record text"
  have nothing : decodeText [] = .ok "" := decodeText_encode ""
  simp [AddRecord.ofFields, recordKind, validateRecordLengths, named, exactly, nothing, bind,
    Except.bind, pure, Except.pure]

theorem AddInfo.ofFields_wrong (recordId : Nat) {keyLength valueLength : Nat} {text : List UInt8}
    (other : text.length ≠ keyLength + valueLength) :
    ∃ message, AddInfo.ofFields recordId keyLength valueLength text =
      .error (.protocolError message) := by
  obtain ⟨message, wrong⟩ := requireLength_wrong other "add info text"
  by_cases empty : keyLength = 0
  · exact ⟨_, by simp only [AddInfo.ofFields, empty, if_true]; rfl⟩
  · exact ⟨message, by simp only [AddInfo.ofFields, empty, if_false, bind, Except.bind, wrong]⟩

theorem AddInfo.ofFields_info (recordId : Nat) {key value : String}
    (named : (encode key).length ≠ 0) :
    AddInfo.ofFields recordId (encode key).length (encode value).length
        (encode key ++ encode value) = .ok ⟨recordId, key, value⟩ := by
  have exactly := requireLength_exact (@List.length_append _ (encode key) (encode value)) "add info text"
  simp [AddInfo.ofFields, named, exactly, bind, Except.bind, pure, Except.pure]

end Texts

end Recsync.Protocol
