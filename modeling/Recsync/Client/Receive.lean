import Recsync.Client.Caster
import Recsync.Lib.Arrivals
import Recsync.Recast.Frames

set_option autoImplicit false

/- How the client reads the messages of the server: `sockhelpers.c` and `caster.c`. -/
namespace Recsync.Client

open Arrivals Bytes
open Recast (Frame)

def shRecvExact (s : Incoming UInt8) (len : Nat) : Outcome UInt8 (List UInt8) :=
  readLoop (fun sofar => len - sofar) len [] s.stream s.arrivals

/-- `sizeof(buf)` in `shRecvIgnore`. -/
def ignoreBuffer : Nat := 40

/-- `shRecvIgnore`. Every `recv` asks for a whole buffer. -/
def shRecvIgnore (s : Incoming UInt8) (len : Nat) : Outcome UInt8 (List UInt8) :=
  readLoop (fun _ => ignoreBuffer) len [] s.stream s.arrivals

/-- `casterRecvPMsg` with a buffer of `len` bytes: the id and what is in the buffer. A `ssize_t`
has 64 bits, so that no body length is negative. -/
def casterRecvPMsg (s : Incoming UInt8) (len : Nat) : Outcome UInt8 (Nat × List UInt8) :=
  (shRecvExact s 8).bind fun hbuf s =>
    if uintAt 0 2 hbuf ≠ recastMagic then .failed
    else
      let id := uintAt 2 2 hbuf
      let blen := uintAt 4 4 hbuf
      (shRecvExact s (if len < blen then len else blen)).bind fun buf s =>
        if buf.isEmpty then .failed
        else if len < blen then
          (shRecvIgnore s (blen - len)).bind fun ignored s =>
            if ignored.isEmpty then .failed else .returned (id, buf) s
        else .returned (id, buf) s

/-- Each call returns the next frame, as far as the buffer holds it, and leaves the stream at the
frame after it. -/
def ReadsInStep (len : Nat) : List Frame → Incoming UInt8 → Prop
  | [], _ => True
  | f :: rest, s => ∃ s', casterRecvPMsg s len = .returned (f.msgId, f.body.take len) s' ∧
      s'.stream = Frame.stream rest ∧ ReadsInStep len rest s'

section Read

variable {s : Incoming UInt8} {len : Nat}

theorem shRecvExact_ok (delivers : Delivers s.stream s.arrivals) (there : len ≤ s.stream.length) :
    ∃ later, shRecvExact s len = .returned (s.stream.take len) ⟨s.stream.drop len, later⟩ ∧
      Delivers (s.stream.drop len) later := by
  have ran := @readLoop_exact UInt8 (fun sofar => len - sofar) len [] s.stream s.arrivals delivers
    (Nat.zero_le _) (by simpa using there) (fun sofar open_ => by omega)
    (Or.inl fun sofar _ => Nat.le_refl _)
  simpa [shRecvExact] using ran

/-- At the end of the stream there is nothing to read too much of. -/
theorem shRecvIgnore_last (delivers : Delivers s.stream s.arrivals)
    (last : s.stream.length = len) :
    ∃ later, shRecvIgnore s len = .returned s.stream ⟨[], later⟩ ∧
      Delivers ([] : List UInt8) later := by
  have ran := @readLoop_exact UInt8 (fun _ => ignoreBuffer) len [] s.stream s.arrivals delivers
    (Nat.zero_le _) (by simp [last]) (fun _ _ => by decide) (Or.inr (by simp [last]))
  have all : s.stream.take len = s.stream := List.take_of_length_le (by omega)
  have none : s.stream.drop len = [] := List.drop_eq_nil_of_le (by omega)
  simpa [shRecvIgnore, all, none] using ran

theorem header_uints (f : Frame) : uintAt 0 2 f.header = recastMagic ∧
    uintAt 2 2 f.header = f.msgId ∧ uintAt 4 4 f.header = f.body.length := by
  have small := f.small
  have short := f.short
  refine ⟨?_, ?_, ?_⟩
  · rw [Frame.header, uintAt_here]
    rfl
  · rw [Frame.header, uintAt_skip 2 _ (by simp), length_ofUInt, uintAt_here]
    omega
  · rw [Frame.header, uintAt_skip 4 _ (by simp), length_ofUInt, uintAt_skip 4 _ (by simp),
      length_ofUInt]
    have whole := uintAt_here 4 f.body.length []
    rw [List.append_nil] at whole
    rw [show 4 - 2 - 2 = 0 from rfl, whole]
    omega

end Read

section Frame

variable {f : Frame} {len : Nat} {rest : List UInt8}

theorem bytes_cut (f : Frame) (rest : List UInt8) :
    (f.bytes ++ rest).take 8 = f.header ∧ (f.bytes ++ rest).drop 8 = f.body ++ rest := by
  have eight : f.header.length = 8 := f.length_header
  rw [Frame.bytes, List.append_assoc]
  exact ⟨List.take_left' eight, List.drop_left' eight⟩

/-- The rest of the call, once the header is there. -/
theorem casterRecvPMsg_header {s s' : Incoming UInt8}
    (header : shRecvExact s 8 = .returned f.header s') :
    casterRecvPMsg s len =
      (shRecvExact s' (if len < f.body.length then len else f.body.length)).bind fun buf s =>
        if buf.isEmpty then .failed
        else if len < f.body.length then
          (shRecvIgnore s (f.body.length - len)).bind fun ignored s =>
            if ignored.isEmpty then .failed else .returned (f.msgId, buf) s
        else .returned (f.msgId, buf) s := by
  obtain ⟨magic, id, blen⟩ := header_uints f
  rw [casterRecvPMsg, header, Outcome.returned_bind, magic, id, blen]
  rfl

/-- A frame that the buffer holds, or that is the last one, is read to its end and no further. -/
theorem casterRecvPMsg_frame {arrivals : List Arrival} (body : f.body ≠ []) (positive : 0 < len)
    (delivers : Delivers (f.bytes ++ rest) arrivals) (fits : f.body.length ≤ len ∨ rest = []) :
    ∃ later, casterRecvPMsg ⟨f.bytes ++ rest, arrivals⟩ len =
        .returned (f.msgId, f.body.take len) ⟨rest, later⟩ ∧ Delivers rest later := by
  have eight : f.header.length = 8 := f.length_header
  have some : 0 < f.body.length := List.length_pos_iff.mpr body
  obtain ⟨head, tail⟩ := bytes_cut f rest
  obtain ⟨later, header, delivers⟩ := @shRecvExact_ok ⟨f.bytes ++ rest, arrivals⟩ 8 delivers
    (by simp only [Frame.bytes, List.length_append]; omega)
  simp only [head, tail] at header delivers
  rw [casterRecvPMsg_header header]
  by_cases long : len < f.body.length
  · have last : rest = [] := fits.resolve_left (by omega)
    subst last
    rw [List.append_nil] at delivers ⊢
    obtain ⟨later, filled, delivers⟩ := @shRecvExact_ok ⟨f.body, later⟩ len delivers
      (Nat.le_of_lt long)
    have kept : (f.body.take len).isEmpty = false := by
      rw [List.isEmpty_eq_false_iff, Ne, List.take_eq_nil_iff]
      exact not_or.mpr ⟨by omega, body⟩
    have ignored : (f.body.drop len).isEmpty = false := by
      rw [List.isEmpty_eq_false_iff, Ne, List.drop_eq_nil_iff]
      omega
    obtain ⟨later, skipped, delivers⟩ := @shRecvIgnore_last ⟨f.body.drop len, later⟩
      (f.body.length - len) delivers List.length_drop
    simp only [long, if_true, filled, Outcome.returned_bind, kept, skipped, ignored,
      Bool.false_eq_true, if_false]
    exact ⟨later, rfl, delivers⟩
  · obtain ⟨later, filled, delivers⟩ := @shRecvExact_ok ⟨f.body ++ rest, later⟩ f.body.length
      delivers (by simp)
    have kept : f.body.isEmpty = false := List.isEmpty_eq_false_iff.mpr body
    simp only [List.take_left, List.drop_left] at filled delivers
    simp only [long, if_false, filled, Outcome.returned_bind, kept, Bool.false_eq_true]
    rw [List.take_of_length_le (Nat.le_of_not_lt long)]
    exact ⟨later, rfl, delivers⟩

/-- Byte by byte a message is read exactly. -/
theorem shRecvExact_singles (front stream : List UInt8) (later : List Arrival) :
    shRecvExact ⟨front ++ stream, List.replicate front.length (.ready 0) ++ later⟩ front.length =
      .returned front ⟨stream, later⟩ := by
  rw [shRecvExact, readLoop_singles front (by simp) (fun sofar open_ => by omega),
    List.nil_append, readLoop_done (Nat.le_refl _)]

theorem replicate_bytes (f : Frame) (later : List Arrival) :
    List.replicate f.bytes.length (.ready 0) ++ later =
      List.replicate f.header.length (.ready 0) ++
        (List.replicate f.body.length (.ready 0) ++ later) := by
  rw [Frame.bytes, List.length_append, ← List.append_assoc, List.replicate_append_replicate]

theorem casterRecvPMsg_singles (body : f.body ≠ []) (fits : f.body.length ≤ len)
    (later : List Arrival) :
    casterRecvPMsg ⟨f.bytes ++ rest, List.replicate f.bytes.length (.ready 0) ++ later⟩ len =
      .returned (f.msgId, f.body.take len) ⟨rest, later⟩ := by
  have header := shRecvExact_singles f.header (f.body ++ rest)
    (List.replicate f.body.length (.ready 0) ++ later)
  rw [← List.append_assoc, ← replicate_bytes] at header
  have kept : f.body.isEmpty = false := List.isEmpty_eq_false_iff.mpr body
  rw [casterRecvPMsg_header (f.length_header ▸ header), if_neg (Nat.not_lt.mpr fits),
    shRecvExact_singles, Outcome.returned_bind, kept, List.take_of_length_le fits]
  simp only [Bool.false_eq_true, if_false, Nat.not_lt.mpr fits]

/-- When the last byte of a long frame comes with the first one of the next, both are read. -/
theorem casterRecvPMsg_overrun (positive : 0 < len) (long : len < f.body.length) (next : UInt8)
    (later : List Arrival) :
    casterRecvPMsg ⟨f.bytes ++ next :: rest,
        List.replicate (f.bytes.length - 1) (.ready 0) ++ .ready 1 :: later⟩ len =
      .returned (f.msgId, f.body.take len) ⟨rest, later⟩ := by
  obtain ⟨front, last, dropped⟩ : ∃ front last, f.body.drop len = front ++ [last] := by
    have some : f.body.drop len ≠ [] := by
      rw [Ne, List.drop_eq_nil_iff]
      omega
    exact ⟨_, _, (List.dropLast_concat_getLast some).symm⟩
  have size : f.body.length - len = front.length + 1 := by
    rw [← List.length_drop, dropped, List.length_append, List.length_singleton]
  have kept : (f.body.take len).length = len := List.length_take_of_le (Nat.le_of_lt long)
  have bytes : f.bytes ++ next :: rest =
      f.header ++ (f.body.take len ++ (front ++ last :: next :: rest)) := by
    have body : f.body = f.body.take len ++ (front ++ [last]) := by
      rw [← dropped, List.take_append_drop]
    calc f.bytes ++ next :: rest
        = f.header ++ (f.body ++ next :: rest) := List.append_assoc _ _ _
      _ = f.header ++ ((f.body.take len ++ (front ++ [last])) ++ next :: rest) := by rw [← body]
      _ = _ := by simp only [List.append_assoc, List.singleton_append]
  have arrivals : List.replicate (f.bytes.length - 1) (Arrival.ready 0) ++ .ready 1 :: later =
      List.replicate f.header.length (.ready 0) ++ (List.replicate len (.ready 0) ++
        (List.replicate front.length (.ready 0) ++ .ready 1 :: later)) := by
    rw [← List.append_assoc, ← List.append_assoc, List.replicate_append_replicate,
      List.replicate_append_replicate, Frame.bytes, List.length_append]
    congr 2
    omega
  have ignored : shRecvIgnore ⟨front ++ last :: next :: rest,
      List.replicate front.length (.ready 0) ++ .ready 1 :: later⟩ (f.body.length - len) =
        .returned (front ++ [last, next]) ⟨rest, later⟩ := by
    rw [size, shRecvIgnore, readLoop_singles front (by simp) (fun _ _ => by decide),
      List.nil_append, readLoop_ready (Nat.lt_succ_self _)
        (show min (1 + 1) ignoreBuffer = 2 from rfl) (by decide) (by simp)]
    exact readLoop_done (by simp) later
  have filled := shRecvExact_singles (f.body.take len) (front ++ last :: next :: rest)
    (List.replicate front.length (.ready 0) ++ .ready 1 :: later)
  rw [kept] at filled
  have some : (f.body.take len).isEmpty = false := by
    rw [List.isEmpty_eq_false_iff, ← List.length_pos_iff, kept]
    exact positive
  rw [bytes, arrivals, casterRecvPMsg_header (f.length_header ▸ shRecvExact_singles f.header _ _)]
  simp only [long, if_true, filled, Outcome.returned_bind, some, ignored, Bool.false_eq_true, if_false]
  simp

end Frame

theorem stream_cons (f : Frame) (rest : List Frame) :
    Frame.stream (f :: rest) = f.bytes ++ Frame.stream rest := List.flatMap_cons

/-- Where only the last frame can be longer than the buffer, every delivery is read in step. -/
theorem readsInStep_of_fits {len : Nat} (positive : 0 < len) {frames : List Frame}
    (bodies : ∀ f ∈ frames, f.body ≠ []) (fits : ∀ f ∈ frames.dropLast, f.body.length ≤ len)
    {arrivals : List Arrival} (delivers : Delivers (Frame.stream frames) arrivals) :
    ReadsInStep len frames ⟨Frame.stream frames, arrivals⟩ := by
  induction frames generalizing arrivals with
  | nil => trivial
  | cons f rest ih =>
    rw [stream_cons] at delivers ⊢
    have short : f.body.length ≤ len ∨ Frame.stream rest = [] := by
      cases rest with
      | nil => exact Or.inr rfl
      | cons next others => exact Or.inl (fits f (by simp))
    obtain ⟨later, read, delivers⟩ := casterRecvPMsg_frame (bodies f (by simp)) positive delivers
      short
    refine ⟨_, read, rfl, ih (fun g member => bodies g (by simp [member])) ?_ delivers⟩
    intro g member
    apply fits
    cases rest with
    | nil => cases member
    | cons next others => exact List.mem_cons_of_mem f member

/-- A frame that is too long for the buffer and not the last one can be delivered so that the
frames after it are no longer found. -/
theorem exists_overrun {len : Nat} (positive : 0 < len) {frames : List Frame}
    (bodies : ∀ f ∈ frames, f.body ≠ []) {f : Frame} (inner : f ∈ frames.dropLast)
    (long : len < f.body.length) :
    ∃ arrivals, Delivers (Frame.stream frames) arrivals ∧
      ¬ ReadsInStep len frames ⟨Frame.stream frames, arrivals⟩ := by
  induction frames with
  | nil => cases inner
  | cons g rest ih =>
    cases rest with
    | nil => cases inner
    | cons after others =>
      rw [stream_cons]
      have size : 0 < g.bytes.length := by
        rw [Frame.bytes, List.length_append, g.length_header]
        simp only [Protocol.Header.payloadSize]
        omega
      by_cases here : len < g.body.length
      · obtain ⟨next, more, start⟩ : ∃ next more, Frame.stream (after :: others) = next :: more :=
          ⟨_, _, rfl⟩
        refine ⟨List.replicate (g.bytes.length - 1) (.ready 0) ++ .ready 1 ::
          List.replicate (next :: more).length (.ready 0), ?_, ?_⟩
        · apply delivers_of_ready
          · intro arrival member
            simp only [List.mem_append, List.mem_cons, List.mem_replicate] at member
            rcases member with ⟨-, rfl⟩ | rfl | ⟨-, rfl⟩ <;> rfl
          · rw [start]
            simp only [List.length_append, List.length_cons, List.length_replicate]
            omega
        · rintro ⟨s', read, left, -⟩
          rw [start, casterRecvPMsg_overrun positive here] at read
          obtain rfl := (Outcome.returned.inj read).2
          have lengths := congrArg List.length (left.trans start)
          simp at lengths
      · have fits : g.body.length ≤ len := Nat.le_of_not_lt here
        have later : f ∈ (after :: others).dropLast := by
          rcases List.mem_cons.mp inner with rfl | member
          · exact absurd long here
          · exact member
        obtain ⟨arrivals, delivers, wrong⟩ := ih (fun h member => bodies h (by simp [member])) later
        refine ⟨List.replicate g.bytes.length (.ready 0) ++ arrivals, ?_, ?_⟩
        · apply Delivers.append _ delivers
          apply delivers_of_ready
          · intro arrival member
            rw [(List.mem_replicate.mp member).2]
            rfl
          · exact Nat.le_of_eq List.length_replicate.symm
        · rintro ⟨s', read, left, ok⟩
          rw [casterRecvPMsg_singles (bodies g (by simp)) fits] at read
          obtain rfl := (Outcome.returned.inj read).2
          exact wrong ok

/-- Every delivery of the frames is read in step exactly when no frame before the last one is
longer than the buffer. -/
theorem casterRecvPMsg_inStep_iff {frames : List Frame} (bodies : ∀ f ∈ frames, f.body ≠ [])
    {len : Nat} (positive : 0 < len) :
    (∀ arrivals, Delivers (Frame.stream frames) arrivals →
        ReadsInStep len frames ⟨Frame.stream frames, arrivals⟩) ↔
      ∀ f ∈ frames.dropLast, f.body.length ≤ len := by
  constructor
  · intro always f inner
    apply Nat.le_of_not_lt
    intro long
    obtain ⟨arrivals, delivers, wrong⟩ := exists_overrun positive bodies inner long
    exact wrong (always arrivals delivers)
  · intro fits arrivals delivers
    exact readsInStep_of_fits positive bodies fits delivers

/-- A greeting and a ping, as the server sends them. -/
def serverFrames : List Frame :=
  [⟨0x8001, [0], by decide, by decide⟩, ⟨0x8002, [1, 2, 3, 4], by decide, by decide⟩]

/-- The buffer of `doCasterTCPPhase` holds both. -/
theorem casterRecvPMsg_inStep_iff_server :
    ReadsInStep 8 serverFrames
      ⟨Frame.stream serverFrames, .wouldBlock :: List.replicate 21 (.ready 100)⟩ := by
  apply (@casterRecvPMsg_inStep_iff serverFrames (by decide) 8 (by decide)).mpr (by decide)
  exact ⟨by decide, by decide⟩

/-- A message with an id that is not known and nine bytes, and a ping right after it. -/
def longFrames : List Frame :=
  [⟨0x8003, [0, 0, 0, 0, 0, 0, 0, 0, 0], by decide, by decide⟩,
    ⟨0x8002, [1, 2, 3, 4], by decide, by decide⟩]

/-- With all of it in the socket the call for the first message takes the ping as well. -/
theorem ping_lost :
    (∀ f ∈ longFrames, f.body ≠ []) ∧
      Delivers (Frame.stream longFrames) (List.replicate 29 (.ready 100)) ∧
      ¬ ReadsInStep 8 longFrames ⟨Frame.stream longFrames, List.replicate 29 (.ready 100)⟩ := by
  refine ⟨by decide, ⟨by decide, by decide⟩, ?_⟩
  have whole : casterRecvPMsg ⟨Frame.stream longFrames, List.replicate 29 (.ready 100)⟩ 8 =
      .returned (0x8003, List.replicate 8 0) ⟨[], List.replicate 26 (.ready 100)⟩ := by
    decide +kernel
  rintro ⟨s', read, left, -⟩
  rw [whole] at read
  obtain rfl : ⟨[], List.replicate 26 (.ready 100)⟩ = s' := (Outcome.returned.inj read).2
  cases left

end Recsync.Client
