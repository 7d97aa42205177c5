import Recsync.Recast.Frames

set_option autoImplicit false

/- The frames that a receiver should pass over. -/
namespace Recsync.Recast

open Protocol

/-- The keys of `rxfn`. -/
def knownIds : List Nat :=
  [ClientGreeting.msgId, Pong.msgId, AddRecord.msgId, DelRecord.msgId, UploadDone.msgId,
    AddInfo.msgId]

/-- An unknown message, a known one that is too short, or an empty one. -/
def Frame.Ignorable (f : Frame) : Prop :=
  f.msgId ∉ knownIds ∨ (f.body.length : Int) < (rxfn f.msgId).2 ∨ f.body = []

/-- However the data arrives, the frame between `before` and what follows changes nothing: no
call, no state, no exception. -/
def Transparent (chance : Chance) (r : CastReceiver) (before : List Frame) (f : Frame) : Prop :=
  ∀ (impl : Stateful.Protocol (receiver chance)) (p : impl.State),
    impl.state p = (getInitialState, r) → impl.pending p = [] →
    ∀ (after : List Frame) (chunks chunks' : List (List UInt8)),
      chunks.flatten = Frame.stream (before ++ f :: after) →
      chunks'.flatten = Frame.stream (before ++ after) →
      impl.state (chunks.foldl impl.receive p) = impl.state (chunks'.foldl impl.receive p)

namespace CastReceiver

variable (chance : Chance)

theorem rxfn_unknown {msgId : Nat} (unknown : msgId ∉ knownIds) :
    rxfn msgId = (.unboundIgnoreBody, -1) := by
  simp only [knownIds, List.mem_cons, List.not_mem_nil, or_false, not_or] at unknown
  simp only [rxfn, unknown, if_false]

/-- A frame that is empty, or known and too short, is passed over. -/
theorem afterFrame_short {f : Frame} (short : (f.body.length : Int) < (rxfn f.msgId).2 ∨ f.body = [])
    (r : CastReceiver) : afterFrame chance r f = (getInitialState, r) := by
  unfold afterFrame announced
  by_cases empty : f.body.length = 0
  · rw [dif_pos empty]
  · have less : 0 ≤ (rxfn f.msgId).2 ∧ f.body.length < (rxfn f.msgId).2 := by
      rcases short with less | nothing
      · omega
      · simp [nothing] at empty
    rw [dif_neg empty, if_pos less]
    exact handle_ok chance rfl

/-- The default of the dictionary cannot be called. -/
theorem afterFrame_unknown {f : Frame} (unknown : f.msgId ∉ knownIds) (body : f.body ≠ [])
    (r : CastReceiver) : (afterFrame chance r f).2 = { r with failed := some .typeError } := by
  have nonempty : f.body.length ≠ 0 := by simpa using body
  unfold afterFrame announced
  rw [rxfn_unknown unknown, dif_neg nonempty, if_neg (by simp)]
  exact congrArg Prod.snd (handle_error chance rfl)

theorem header_positive : 0 < getInitialState.length := by decide

theorem transparent_iff_final (r : CastReceiver) (before : List Frame) (f : Frame) :
    Transparent chance r before f ↔ ∀ after,
      Stateful.final (receiver chance) (getInitialState, r) (Frame.stream (before ++ f :: after)) =
        Stateful.final (receiver chance) (getInitialState, r) (Frame.stream (before ++ after)) := by
  constructor
  · intro transparent after
    let impl := Stateful.reference (receiver chance)
    have same := transparent impl ((getInitialState, r), []) rfl rfl after
      [Frame.stream (before ++ f :: after)] [Frame.stream (before ++ after)] (by simp) (by simp)
    have whole (bytes : List UInt8) :=
      impl.receive_final [bytes] ((getInitialState, r), []) (Or.inr header_positive)
    rw [whole, whole] at same
    simpa [impl, Stateful.reference] using same
  · intro same impl p start nothing after chunks chunks' whole whole'
    have stuck : Stateful.Stuck (receiver chance) (impl.state p, impl.pending p) := by
      rw [start, nothing]
      exact Or.inr header_positive
    rw [impl.receive_final chunks p stuck, impl.receive_final chunks' p stuck, start, nothing, whole,
      whole', List.nil_append, List.nil_append]
    exact same after

end CastReceiver

open CastReceiver

/-- Passing over a frame works exactly when it is empty or its id is known, or when the connection
is over before it comes. -/
theorem transparent_iff (chance : Chance) (r : CastReceiver) (before : List Frame) (f : Frame)
    (ignorable : f.Ignorable) :
    Transparent chance r before f ↔ f.body = [] ∨ f.msgId ∈ knownIds ∨
      (Stateful.final (receiver chance) (getInitialState, r) (Frame.stream before)).2.alive =
        false := by
  rw [transparent_iff_final]
  obtain ⟨-, back⟩ := final_stream chance before [] r
  have split (frames : List Frame) := (final_stream chance before (Frame.stream frames) r).1
  simp only [Frame.stream_append, split]
  generalize reached : Stateful.final (receiver chance) (getInitialState, r) (Frame.stream before) = s
    at back ⊢
  by_cases opened : s.2.alive = true
  · obtain ⟨e, r'⟩ := s
    obtain rfl : e = getInitialState := back opened
    have passed (after : List Frame) : Stateful.final (receiver chance) (getInitialState, r')
        (Frame.stream (f :: after)) = Stateful.final (receiver chance) (afterFrame chance r' f)
          (Frame.stream after) := final_frame chance opened f (Frame.stream after)
    simp only [passed, opened, Bool.true_eq_false, or_false]
    constructor
    · intro same
      apply Classical.byContradiction
      intro neither
      obtain ⟨nonempty, unknown⟩ := not_or.mp neither
      have now := same []
      rw [show Frame.stream [] = [] from rfl, Stateful.final_nil, Stateful.final_nil] at now
      have failed := afterFrame_unknown chance unknown nonempty r'
      rw [now] at failed
      have fine : r'.failed = none := by
        simp only [alive, Bool.and_eq_true, Option.isNone_iff_eq_none] at opened
        exact opened.2
      have raised : r'.failed = some .typeError := congrArg CastReceiver.failed failed
      rw [raised] at fine
      cases fine
    · intro known after
      have short : (f.body.length : Int) < (rxfn f.msgId).2 ∨ f.body = [] := by
        rcases ignorable with unknown | short
        · exact Or.inr (known.resolve_right unknown)
        · exact short
      rw [afterFrame_short chance short]
  · have closed : (receiver chance).closed s = true := by
      rw [closed_eq]
      simpa using opened
    simp only [Stateful.final_closed closed, implies_true, true_iff]
    exact Or.inr (Or.inr (by simpa using opened))

/-- A known message that is too short, on a new connection. -/
theorem transparent_short : Transparent {} {} [] ⟨Pong.msgId, [1], by decide, by decide⟩ :=
  (transparent_iff {} {} [] ⟨Pong.msgId, [1], by decide, by decide⟩
    (Or.inr (Or.inl (by decide)))).mpr (Or.inr (Or.inl (by decide)))

/-- An unknown message with a body of one byte on a new connection. -/
theorem unknown_not_transparent :
    ¬ ∀ (chance : Chance) (before : List Frame) (f : Frame), f.Ignorable →
      Transparent chance {} before f := by
  intro all
  have transparent := all {} [] ⟨0x1234, [0], by decide, by decide⟩ (Or.inl (by decide))
  rw [transparent_iff_final] at transparent
  have now := transparent []
  have opened : ({} : CastReceiver).alive = true := rfl
  have passed := final_frame {} opened ⟨0x1234, [0], by decide, by decide⟩ []
  have failed := @afterFrame_unknown {} ⟨0x1234, [0], by decide, by decide⟩ (by decide) (by simp) {}
  rw [Stateful.final_nil] at passed
  have same : afterFrame {} {} ⟨0x1234, [0], by decide, by decide⟩ = (getInitialState, {}) :=
    passed.symm.trans (now.trans (Stateful.final_nil _))
  rw [same] at failed
  cases failed

end Recsync.Recast
