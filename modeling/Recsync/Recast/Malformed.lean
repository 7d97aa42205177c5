import Recsync.Protocol.Codec
import Recsync.Recast.Receiver

set_option autoImplicit false

/- Bodies that are not messages: which of them a decoder refuses with the exception that the
receiver expects. -/
namespace Recsync.Protocol

open Bytes

/-- A `decode` returns a message or raises a `ProtocolError`. -/
def Orderly {α : Type} (decoded : Decoded α) : Prop :=
  (∃ m, decoded = .ok m) ∨ ∃ message, decoded = .error (.protocolError message)

/-- Bytes that `bytes.decode()` accepts. -/
def Utf8 (data : List UInt8) : Prop := (decode data).isSome = true

/-- All that `AddRecord.decode` looks at before the text is in order. -/
structure AddRecord.Framed (body : List UInt8) : Prop where
  long : AddRecord.payloadSize ≤ body.length
  lengths : ∃ kind, recordKind (uintAt 4 1 body) = .ok kind ∧
    validateRecordLengths kind (uintAt 5 1 body) (uintAt 6 2 body) = .ok ()
  text : (body.drop AddRecord.payloadSize).length = uintAt 5 1 body + uintAt 6 2 body

/-- A record type or a record name that is not UTF-8, in a body with nothing else wrong. -/
def AddRecord.Undecodable (body : List UInt8) : Prop :=
  AddRecord.Framed body ∧
    ¬(Utf8 ((body.drop AddRecord.payloadSize).take (uintAt 5 1 body)) ∧
      Utf8 ((body.drop AddRecord.payloadSize).drop (uintAt 5 1 body)))

/-- All that `AddInfo.decode` looks at before the text is in order. -/
structure AddInfo.Framed (body : List UInt8) : Prop where
  long : AddInfo.payloadSize ≤ body.length
  key : uintAt 4 1 body ≠ 0
  text : (body.drop AddInfo.payloadSize).length = uintAt 4 1 body + uintAt 6 2 body

/-- A key or a value that is not UTF-8, in a body with nothing else wrong. -/
def AddInfo.Undecodable (body : List UInt8) : Prop :=
  AddInfo.Framed body ∧
    ¬(Utf8 ((body.drop AddInfo.payloadSize).take (uintAt 4 1 body)) ∧
      Utf8 ((body.drop AddInfo.payloadSize).drop (uintAt 4 1 body)))

section Raised

variable {α β : Type}

theorem orderly_iff (decoded : Decoded α) :
    Orderly decoded ↔ decoded ≠ .error .unicodeDecodeError := by
  match decoded with
  | .ok m => exact ⟨fun _ => nofun, fun _ => .inl ⟨m, rfl⟩⟩
  | .error (.protocolError message) => exact ⟨fun _ => nofun, fun _ => .inr ⟨message, rfl⟩⟩
  | .error .unicodeDecodeError =>
    constructor
    · rintro (⟨_, accepted⟩ | ⟨_, refused⟩)
      · cases accepted
      · cases refused
    · intro other
      exact absurd rfl other

theorem bind_unicode_iff (first : Decoded α) (rest : α → Decoded β) :
    first >>= rest = .error .unicodeDecodeError ↔
      first = .error .unicodeDecodeError ∨
        ∃ a, first = .ok a ∧ rest a = .error .unicodeDecodeError := by
  match first with
  | .ok a => simp [bind, Except.bind]
  | .error e => simp [bind, Except.bind]

/-- A check before the rest, which raises nothing but a `ProtocolError`. -/
theorem check_unicode_iff {check : Decoded Unit} (clean : check ≠ .error .unicodeDecodeError)
    (rest : Unit → Decoded β) :
    check >>= rest = .error .unicodeDecodeError ↔
      check = .ok () ∧ rest () = .error .unicodeDecodeError := by
  rw [bind_unicode_iff]
  constructor
  · rintro (raised | ⟨⟨⟩, passed, raised⟩)
    · exact absurd raised clean
    · exact ⟨passed, raised⟩
  · rintro ⟨passed, raised⟩
    exact .inr ⟨(), passed, raised⟩

theorem requireLength_ne_unicode {data : List UInt8} {n : Nat} {name : String} {exact : Bool} :
    requireLength data n name exact ≠ .error .unicodeDecodeError := by
  unfold requireLength
  split
  · nofun
  · split
    · nofun
    · nofun

theorem requireLength_exact_iff (data : List UInt8) (n : Nat) (name : String) :
    requireLength data n name true = .ok () ↔ data.length = n := by
  constructor
  · intro fits
    apply Classical.byContradiction
    intro other
    obtain ⟨message, wrong⟩ := requireLength_wrong other name
    rw [wrong] at fits
    cases fits
  · intro same
    exact requireLength_exact same name

theorem recordKind_ne_unicode (value : Nat) : recordKind value ≠ .error .unicodeDecodeError := by
  unfold recordKind
  split
  · nofun
  · split
    · nofun
    · nofun

theorem validateRecordLengths_ne_unicode {kind : RecordKind} {typeLength nameLength : Nat} :
    validateRecordLengths kind typeLength nameLength ≠ .error .unicodeDecodeError := by
  rcases validateRecordLengths_cases kind typeLength nameLength with valid | ⟨message, invalid⟩
  · rw [valid]
    nofun
  · rw [invalid]
    nofun

theorem decodeText_unicode_iff (data : List UInt8) :
    decodeText data = .error .unicodeDecodeError ↔ ¬Utf8 data := by
  unfold decodeText Utf8
  match decode data with
  | some text => simp
  | none => simp

theorem decodeText_ok_iff (data : List UInt8) : (∃ text, decodeText data = .ok text) ↔ Utf8 data := by
  unfold decodeText Utf8
  match decode data with
  | some text => simp
  | none => simp

/-- Two texts are decoded one after the other. -/
theorem decodeTexts_unicode_iff (first second : List UInt8) (message : String → String → α) :
    (do
      let a ← decodeText first
      let b ← decodeText second
      return message a b : Decoded α) = .error .unicodeDecodeError ↔
      ¬(Utf8 first ∧ Utf8 second) := by
  rw [bind_unicode_iff, decodeText_unicode_iff]
  simp only [bind_unicode_iff, decodeText_unicode_iff, pure, Except.pure, reduceCtorEq, and_false,
    exists_false, or_false]
  rw [exists_and_right, decodeText_ok_iff]
  by_cases fine : Utf8 first
  · simp [fine]
  · simp [fine]

end Raised

/-- The two texts are all that can be wrong in another way. -/
theorem AddRecord.decode_unicode_iff (body : List UInt8) :
    AddRecord.decode body = .error .unicodeDecodeError ↔ AddRecord.Undecodable body := by
  unfold AddRecord.decode AddRecord.ofFields
  rw [check_unicode_iff requireLength_ne_unicode, requireLength_atLeast_iff, bind_unicode_iff]
  simp only [check_unicode_iff validateRecordLengths_ne_unicode,
    check_unicode_iff requireLength_ne_unicode, requireLength_exact_iff,
    decodeTexts_unicode_iff, recordKind_ne_unicode, false_or]
  constructor
  · rintro ⟨long, kind, known, valid, exactly, wrong⟩
    exact ⟨⟨long, ⟨kind, known, valid⟩, exactly⟩, wrong⟩
  · rintro ⟨⟨long, ⟨kind, known, valid⟩, exactly⟩, wrong⟩
    exact ⟨long, kind, known, valid, exactly, wrong⟩

theorem AddInfo.decode_unicode_iff (body : List UInt8) :
    AddInfo.decode body = .error .unicodeDecodeError ↔ AddInfo.Undecodable body := by
  unfold AddInfo.decode AddInfo.ofFields
  rw [check_unicode_iff requireLength_ne_unicode, requireLength_atLeast_iff]
  by_cases empty : uintAt 4 1 body = 0
  · simp only [empty, if_true]
    constructor
    · rintro ⟨_, raised⟩
      cases raised
    · rintro ⟨framed, _⟩
      exact absurd empty framed.key
  · simp only [empty, if_false]
    rw [check_unicode_iff requireLength_ne_unicode, requireLength_exact_iff,
      decodeTexts_unicode_iff]
    constructor
    · rintro ⟨long, exactly, wrong⟩
      exact ⟨⟨long, empty, exactly⟩, wrong⟩
    · rintro ⟨⟨long, _, exactly⟩, wrong⟩
      exact ⟨long, exactly, wrong⟩

theorem Header.decode_orderly (data : List UInt8) : Orderly (Header.decode data) := by
  rw [orderly_iff]
  intro raised
  unfold Header.decode at raised
  rw [check_unicode_iff requireLength_ne_unicode] at raised
  obtain ⟨_, raised⟩ := raised
  by_cases proto : uintAt 0 2 data = protoId
  · simp only [proto, ne_eq, not_true_eq_false, if_false] at raised
    cases raised
  · simp only [proto, ne_eq, not_false_eq_true, if_true] at raised
    cases raised

section Fixed

/-- A message of fixed size is whatever its bytes say. -/
theorem fixed_orderly {α : Type} (body : List UInt8) (size : Nat) (name : String) (message : α) :
    Orderly (do requireLength body size name true; return message) := by
  rw [orderly_iff]
  intro raised
  rw [check_unicode_iff requireLength_ne_unicode] at raised
  cases raised.2

theorem ClientGreeting.decode_orderly (body : List UInt8) : Orderly (ClientGreeting.decode body) :=
  fixed_orderly ..

theorem Pong.decode_orderly (body : List UInt8) : Orderly (Pong.decode body) :=
  fixed_orderly ..

theorem DelRecord.decode_orderly (body : List UInt8) : Orderly (DelRecord.decode body) :=
  fixed_orderly ..

theorem UploadDone.decode_orderly (body : List UInt8) : Orderly (UploadDone.decode body) := by
  rw [orderly_iff]
  exact requireLength_ne_unicode

end Fixed

end Recsync.Protocol

namespace Recsync.Recast

open Protocol

/-- A state function makes one call of the session or none, and asks for the next header; nothing
else happens to the receiver. -/
def OneCallAtMost (r : CastReceiver) (number : Nat) (rx : Rx) : Prop :=
  ∃ calls : List SessionCall, calls.length ≤ 1 ∧
    rx r = .ok (some getInitialState)
      { r with effects := r.effects ++ calls.map (Effect.session number) }

/-- Every decoder answers the bytes with a message or a `ProtocolError`, and the functions for
records and infos do not mind them. -/
structure ErrorsContained (r : CastReceiver) (number : Nat) (body : List UInt8) : Prop where
  header : Orderly (Header.decode body)
  clientGreeting : Orderly (ClientGreeting.decode body)
  pong : Orderly (Pong.decode body)
  addRecord : Orderly (AddRecord.decode body)
  delRecord : Orderly (DelRecord.decode body)
  uploadDone : Orderly (UploadDone.decode body)
  addInfo : Orderly (AddInfo.decode body)
  recvAddRec : OneCallAtMost r number (CastReceiver.recvAddRec body)
  recvInfo : OneCallAtMost r number (CastReceiver.recvInfo body)
  recvDelRec : OneCallAtMost r number (CastReceiver.recvDelRec body)

section Calls

variable {r : CastReceiver} {number : Nat}

theorem oneCallAtMost_ignored : OneCallAtMost r number (return some getInitialState) :=
  ⟨[], by simp, by simp [pure, EStateM.pure]⟩

theorem oneCallAtMost_called (opened : r.sess = some number) (call : SessionCall) :
    OneCallAtMost r number (do CastReceiver.callSession call; return some getInitialState) := by
  refine ⟨[call], by simp, ?_⟩
  simp only [bind, EStateM.bind, callSession_opened opened, pure, EStateM.pure, List.map_cons,
    List.map_nil]

theorem recvAddRec_oneCallAtMost (opened : r.sess = some number) {body : List UInt8}
    (orderly : Orderly (AddRecord.decode body)) :
    OneCallAtMost r number (CastReceiver.recvAddRec body) := by
  unfold CastReceiver.recvAddRec
  rcases orderly with ⟨record, accepted⟩ | ⟨message, refused⟩
  · simp only [accepted]
    split
    · exact oneCallAtMost_called opened _
    · exact oneCallAtMost_called opened _
  · simp only [refused]
    exact oneCallAtMost_ignored

theorem recvInfo_oneCallAtMost (opened : r.sess = some number) {body : List UInt8}
    (orderly : Orderly (AddInfo.decode body)) :
    OneCallAtMost r number (CastReceiver.recvInfo body) := by
  unfold CastReceiver.recvInfo
  rcases orderly with ⟨info, accepted⟩ | ⟨message, refused⟩
  · simp only [accepted]
    split
    · exact oneCallAtMost_called opened _
    · exact oneCallAtMost_called opened _
  · simp only [refused]
    exact oneCallAtMost_ignored

theorem recvDelRec_oneCallAtMost (opened : r.sess = some number) (body : List UInt8) :
    OneCallAtMost r number (CastReceiver.recvDelRec body) := by
  unfold CastReceiver.recvDelRec
  rcases DelRecord.decode_orderly body with ⟨record, accepted⟩ | ⟨message, refused⟩
  · simp only [accepted]
    exact oneCallAtMost_called opened _
  · simp only [refused]
    exact oneCallAtMost_ignored

end Calls

/-- The bytes do no harm exactly when they do not frame a text that is not UTF-8. -/
theorem errorsContained_iff (r : CastReceiver) (number : Nat) (opened : r.sess = some number)
    (body : List UInt8) :
    ErrorsContained r number body ↔
      ¬AddRecord.Undecodable body ∧ ¬AddInfo.Undecodable body := by
  have record : Orderly (AddRecord.decode body) ↔ ¬AddRecord.Undecodable body := by
    rw [orderly_iff, ne_eq, AddRecord.decode_unicode_iff]
  have info : Orderly (AddInfo.decode body) ↔ ¬AddInfo.Undecodable body := by
    rw [orderly_iff, ne_eq, AddInfo.decode_unicode_iff]
  constructor
  · intro contained
    exact ⟨record.mp contained.addRecord, info.mp contained.addInfo⟩
  · rintro ⟨recordText, infoText⟩
    exact {
      header := Header.decode_orderly body
      clientGreeting := ClientGreeting.decode_orderly body
      pong := Pong.decode_orderly body
      addRecord := record.mpr recordText
      delRecord := DelRecord.decode_orderly body
      uploadDone := UploadDone.decode_orderly body
      addInfo := info.mpr infoText
      recvAddRec := recvAddRec_oneCallAtMost opened (record.mpr recordText)
      recvInfo := recvInfo_oneCallAtMost opened (info.mpr infoText)
      recvDelRec := recvDelRec_oneCallAtMost opened body }

def greeted : CastReceiver := { sess := some 0, sessions := 1, effects := [.addClient] }

/-- A body of one byte is short of everything. -/
theorem errorsContained_short : greeted.sess = some 0 ∧ ErrorsContained greeted 0 [1] := by
  refine ⟨rfl, (errorsContained_iff greeted 0 rfl [1]).mpr ⟨?_, ?_⟩⟩
  · intro undecodable
    exact absurd undecodable.1.long (by decide)
  · intro undecodable
    exact absurd undecodable.1.long (by decide)

/-- A record of type `ai` whose name is `é` in Latin-1. -/
def latin1Record : List UInt8 := [0, 0, 0, 1, 0, 2, 0, 1, 0x61, 0x69, 0xe9]

/-- The exception leaves the state function, and the connection is dropped. -/
theorem latin1Record_not_contained :
    AddRecord.decode latin1Record = .error .unicodeDecodeError ∧
      CastReceiver.recvAddRec latin1Record greeted = .error .unicodeDecodeError greeted ∧
      ¬ErrorsContained greeted 0 latin1Record := by
  have name : Bytes.decode [0xe9] = none := by decide
  have undecodable : AddRecord.Undecodable latin1Record := by
    have kind : Bytes.uintAt 4 1 latin1Record = 0 := by decide
    have type : Bytes.uintAt 5 1 latin1Record = 2 := by decide
    have length : Bytes.uintAt 6 2 latin1Record = 1 := by decide
    refine ⟨⟨by decide, ⟨.RECORD, by rw [kind]; rfl, by rw [type, length]; rfl⟩, by decide⟩, ?_⟩
    rintro ⟨_, named⟩
    have accepted : (Bytes.decode [0xe9]).isSome = true := named
    rw [name] at accepted
    cases accepted
  have raised := (AddRecord.decode_unicode_iff latin1Record).mpr undecodable
  refine ⟨raised, ?_, ?_⟩
  · unfold CastReceiver.recvAddRec
    rw [raised]
    rfl
  · intro contained
    exact (orderly_iff _).mp contained.addRecord raised

end Recsync.Recast
