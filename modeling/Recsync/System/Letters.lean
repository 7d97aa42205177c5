import Recsync.Protocol.Upload
import Recsync.Recast.Keepalive

set_option autoImplicit false

/- The messages of an upload, each with what the server makes of it. -/
namespace Recsync.System

open Bytes Protocol Recast CastReceiver
open Upload (Call)

/-- A message that the receiver passes on to its session as one call. -/
structure Letter where
  frame : Frame
  call : SessionCall
  update : call ≠ .done
  noPong : frame.msgId ≠ Pong.msgId
  filled : frame.body ≠ []
  reads : ∀ (chance : Chance) (r : CastReceiver) (number : Nat), r.sess = some number →
    afterFrame chance r frame =
      (getInitialState, { r with effects := r.effects ++ [.session number call] })

/-- The message with which a client of type 0 introduces itself. -/
def clientGreetingFrame (serverKey : Nat) : Frame :=
  ⟨ClientGreeting.msgId, ofUInt 4 0 ++ ofUInt 4 serverKey, by decide, by simp⟩

def uploadDoneFrame : Frame := ⟨UploadDone.msgId, ofUInt 4 0, by decide, by simp⟩

section Calls

variable (nextRecID : Int)

def callMsgId : Call → Nat
  | .sendInfo _ _ _ => AddInfo.msgId
  | _ => AddRecord.msgId

theorem callMsgId_cases (c : Call) : callMsgId c = AddRecord.msgId ∨ callMsgId c =
    AddInfo.msgId := by
  cases c with
  | sendInfo _ _ _ => exact Or.inr rfl
  | _ => exact Or.inl rfl

theorem length_callBody {c : Call} (valid : c.Valid nextRecID) :
    (c.body nextRecID).length < 2 ^ 31 := by
  cases c with
  | sendRecord rtype rname =>
    have short := valid.2.2.2
    simp only [Call.body, length_packedFields, List.length_append, Upload.Text.length] at short ⊢
    omega
  | sendAlias rid rname =>
    have short := valid.2.2
    simp only [Call.body, length_packedFields, Upload.Text.length] at short ⊢
    omega
  | sendInfo rid key value =>
    have short := valid.2.2
    simp only [Call.body, length_packedFields, List.length_append, Upload.Text.length] at short ⊢
    omega

def callFrame (c : Call) (valid : c.Valid nextRecID) : Frame where
  msgId := callMsgId c
  body := c.body nextRecID
  small := by rcases callMsgId_cases c with same | same <;> rw [same] <;> decide
  short := Nat.lt_trans (length_callBody nextRecID valid) (by decide)

theorem callFrame_bytes {c : Call} (valid : c.Valid nextRecID) :
    (callFrame nextRecID c valid).bytes = c.header ++ c.body nextRecID := by
  have header : (callFrame nextRecID c valid).header = c.header := by
    cases c with
    | sendRecord rtype rname =>
      simp [Frame.header, callFrame, callMsgId, Call.header, Call.body, Client.packedHead,
        length_packedFields, Upload.Text.length, Nat.add_assoc, AddRecord.msgId, protoId,
        Client.recastMagic]
    | sendAlias rid rname =>
      simp [Frame.header, callFrame, callMsgId, Call.header, Call.body, Client.packedHead,
        length_packedFields, Upload.Text.length, AddRecord.msgId, protoId, Client.recastMagic]
    | sendInfo rid key value =>
      simp [Frame.header, callFrame, callMsgId, Call.header, Call.body, Client.packedHead,
        length_packedFields, Upload.Text.length, Nat.add_assoc, AddInfo.msgId, protoId,
        Client.recastMagic]
  rw [Frame.bytes, header]
  rfl

theorem announced_callFrame {c : Call} (valid : c.Valid nextRecID) :
    ∃ positive, announced (callFrame nextRecID c valid) =
      some ⟨c.rx, (c.body nextRecID).length, positive⟩ := by
  have enough := c.body_length nextRecID
  have known : rxfn (callMsgId c) = (c.rx, 8) := by cases c <;> rfl
  refine ⟨by omega, ?_⟩
  have filled : ¬ (callFrame nextRecID c valid).body.length = 0 := by
    show ¬ (c.body nextRecID).length = 0
    omega
  have long : ¬ (0 ≤ (rxfn (callFrame nextRecID c valid).msgId).2 ∧
      ((callFrame nextRecID c valid).body.length : Int) <
        (rxfn (callFrame nextRecID c valid).msgId).2) := by
    show ¬ (0 ≤ (rxfn (callMsgId c)).2 ∧ ((c.body nextRecID).length : Int) < (rxfn (callMsgId c)).2)
    rw [known]
    omega
  rw [announced, dif_neg filled, if_neg long]
  simp only [callFrame, known]

/-- The server hands a call that fits on to its session. -/
theorem callFrame_reads {c : Call} (valid : c.Valid nextRecID) (fits : c.Fits = true)
    (chance : Chance) {r : CastReceiver} {number : Nat} (opened : r.sess = some number) :
    afterFrame chance r (callFrame nextRecID c valid) = (getInitialState,
      { r with effects := r.effects ++ [.session number (c.session nextRecID)] }) := by
  obtain ⟨positive, expected⟩ := announced_callFrame nextRecID valid
  have served : c.served nextRecID = [c.session nextRecID] := by rw [Call.served, if_pos fits]
  have finished := (c.framed chance number nextRecID valid).finishes r opened
  rw [show (c.framed chance number nextRecID valid).calls = [c.session nextRecID] from served]
    at finished
  rw [afterFrame, expected]
  exact finished

theorem session_update (c : Call) : c.session nextRecID ≠ .done := by
  cases c with
  | sendInfo rid key value =>
    simp only [Call.session]
    split <;> simp
  | _ => simp [Call.session]

theorem callFrame_noPong {c : Call} (valid : c.Valid nextRecID) :
    (callFrame nextRecID c valid).msgId ≠ Pong.msgId := by
  show callMsgId c ≠ Pong.msgId
  rcases callMsgId_cases c with same | same <;> rw [same] <;> decide

theorem callFrame_filled {c : Call} (valid : c.Valid nextRecID) :
    (callFrame nextRecID c valid).body ≠ [] := by
  have enough := c.body_length nextRecID
  apply List.ne_nil_of_length_pos
  show 0 < (c.body nextRecID).length
  omega

def callLetter (c : Call) (valid : c.Valid nextRecID) (fits : c.Fits = true) : Letter where
  frame := callFrame nextRecID c valid
  call := c.session nextRecID
  update := session_update nextRecID c
  noPong := callFrame_noPong nextRecID valid
  filled := callFrame_filled nextRecID valid
  reads := callFrame_reads nextRecID valid fits

end Calls

theorem validFrom_head {nextRecID : Int} {c : Call} {rest : List Call}
    (valid : Upload.ValidFrom nextRecID (c :: rest)) : c.Valid nextRecID := valid.1

theorem validFrom_tail {nextRecID : Int} {c : Call} {rest : List Call}
    (valid : Upload.ValidFrom nextRecID (c :: rest)) :
    Upload.ValidFrom (c.next nextRecID) rest := valid.2

theorem fits_head {c : Call} {rest : List Call} (fit : ∀ c' ∈ c :: rest, c'.Fits = true) :
    c.Fits = true := fit c List.mem_cons_self

theorem fits_tail {c : Call} {rest : List Call} (fit : ∀ c' ∈ c :: rest, c'.Fits = true) :
    ∀ c' ∈ rest, c'.Fits = true := fun c' member => fit c' (List.mem_cons_of_mem _ member)

def lettersFrom : (nextRecID : Int) → (calls : List Call) → Upload.ValidFrom nextRecID calls →
    (∀ c ∈ calls, c.Fits = true) → List Letter
  | _, [], _, _ => []
  | nextRecID, c :: rest, valid, fit =>
    callLetter nextRecID c (validFrom_head valid) (fits_head fit) ::
      lettersFrom (c.next nextRecID) rest (validFrom_tail valid) (fits_tail fit)

theorem lettersFrom_calls (nextRecID : Int) (calls : List Call)
    (valid : Upload.ValidFrom nextRecID calls) (fit : ∀ c ∈ calls, c.Fits = true) :
    (lettersFrom nextRecID calls valid fit).map Letter.call =
      Upload.servedFrom nextRecID calls := by
  induction calls generalizing nextRecID with
  | nil => rfl
  | cons c rest ih =>
    have served : c.served nextRecID = [c.session nextRecID] := by
      rw [Call.served, if_pos (fit c List.mem_cons_self)]
    rw [lettersFrom, List.map_cons, ih, Upload.servedFrom, served]
    rfl

/-- What the client sends for a sequence of calls is the stream of their letters. -/
theorem lettersFrom_stream (chance : Chance) (number : Nat) (nextRecID : Int) (calls : List Call)
    (valid : Upload.ValidFrom nextRecID calls) (fit : ∀ c ∈ calls, c.Fits = true) :
    Upload.wireOf (Upload.framesFrom chance number nextRecID calls valid) =
      Frame.stream ((lettersFrom nextRecID calls valid fit).map Letter.frame) := by
  induction calls generalizing nextRecID with
  | nil => rfl
  | cons c rest ih =>
    have first : (callFrame nextRecID c valid.1).bytes = c.header ++ c.body nextRecID :=
      callFrame_bytes nextRecID valid.1
    show (c.header ++ c.body nextRecID) ++
      Upload.wireOf (Upload.framesFrom chance number _ rest _) =
      (callFrame nextRecID c valid.1).bytes ++ Frame.stream ((lettersFrom _ rest _ _).map _)
    rw [ih, first]

section Ends

variable (chance : Chance) (r : CastReceiver)

theorem clientGreetingFrame_greets (serverKey : Nat) : (clientGreetingFrame serverKey).Greets := by
  have length : (clientGreetingFrame serverKey).body.length = ClientGreeting.payloadSize := by
    simp [clientGreetingFrame, ClientGreeting.payloadSize]
  have decoded := requireLength_exact length "ClientGreeting"
  refine ⟨rfl, ?_⟩
  simp only [ClientGreeting.decode, decoded]
  exact ⟨_, rfl, rfl⟩

/-- An accepted greeting opens a session. -/
theorem afterFrame_greets {f : Frame} (greets : f.Greets) :
    ∃ g, afterFrame chance r f = (getInitialState, r.greeted g) := by
  obtain ⟨e, expected, fn⟩ := announced_of_greets greets
  obtain ⟨-, g, decoded, kind⟩ := greets
  refine ⟨g, ?_⟩
  have ran : CastReceiver.run chance f.body e.fn r = .ok (some getInitialState) (r.greeted g) := by
    rw [fn]
    show recvClientGreeting f.body r = _
    simp only [recvClientGreeting, decoded, kind, ne_eq, not_true_eq_false, if_false]
    rfl
  rw [afterFrame, expected]
  exact handle_ok chance ran

theorem announced_uploadDone :
    announced uploadDoneFrame = some ⟨.recvDone, 4, by decide⟩ := rfl

theorem afterFrame_uploadDone (passes : ∀ n, chance.timePasses n = true) {number : Nat}
    (opened : r.sess = some number) :
    afterFrame chance r uploadDoneFrame = (getInitialState, finished chance r number) := by
  have decoded : UploadDone.decode uploadDoneFrame.body = .ok () := rfl
  have ran : CastReceiver.run chance uploadDoneFrame.body .recvDone r =
      .ok (some getInitialState) (finished chance r number) := by
    show recvDone chance uploadDoneFrame.body r = _
    rw [recvDone_decoded chance decoded, opened]
    dsimp only
    rw [logRate_eq, if_pos (passes _)]
  rw [afterFrame, announced_uploadDone]
  exact handle_ok chance ran

end Ends

end Recsync.System
