import Mathlib.Init

set_option autoImplicit false

/- A stream that arrives in pieces, and the loops that read from it. -/
namespace Arrivals

/-- How a call that asks for data finds its end of the stream. -/
inductive Arrival where
  /-- at most `more + 1` elements are there -/
  | ready (more : Nat)
  /-- nothing is there yet, and the wait for it ends well -/
  | wouldBlock
  /-- a signal came first, and the wait after it ends well -/
  | interrupted
  /-- the wait ends with a timeout -/
  | timedOut
  /-- the connection is broken -/
  | broken
  deriving DecidableEq, Repr

def Arrival.isReady : Arrival → Bool
  | .ready _ => true
  | _ => false

/-- The reader gets something or may try again. -/
def Arrival.isCalm : Arrival → Bool
  | .timedOut => false
  | .broken => false
  | _ => true

/-- What has not been read yet, and what the next calls will find. -/
structure Incoming (α : Type) where
  stream : List α
  arrivals : List Arrival
  deriving DecidableEq

/-- How a read ends. -/
inductive Outcome (α β : Type) where
  | returned (value : β) (rest : Incoming α)
  | failed
  /-- it is still waiting when the arrivals are used up -/
  | waiting
  deriving DecidableEq

variable {α β γ : Type}

def Outcome.bind : Outcome α β → (β → Incoming α → Outcome α γ) → Outcome α γ
  | .returned value rest, next => next value rest
  | .failed, _ => .failed
  | .waiting, _ => .waiting

@[simp] theorem Outcome.returned_bind (value : β) (rest : Incoming α)
    (next : β → Incoming α → Outcome α γ) :
    (Outcome.returned value rest).bind next = next value rest := rfl

/-- Read until `len` elements are there. A call asks for as many as `request` says for the number
of those so far; one that gets nothing is at the end of the stream. -/
def readLoop (request : Nat → Nat) (len : Nat) (got stream : List α) :
    List Arrival → Outcome α (List α)
  | [] => if len ≤ got.length then .returned got ⟨stream, []⟩ else .waiting
  | arrival :: rest =>
    if len ≤ got.length then .returned got ⟨stream, arrival :: rest⟩
    else
      match arrival with
      | .ready more =>
        let piece := stream.take (min (more + 1) (request got.length))
        if piece.isEmpty then .failed
        else readLoop request len (got ++ piece) (stream.drop piece.length) rest
      | .wouldBlock => readLoop request len got stream rest
      | .interrupted => readLoop request len got stream rest
      | .timedOut => .failed
      | .broken => .failed

/-- Nothing goes wrong, and there are enough arrivals for the stream. -/
structure Delivers (stream : List α) (arrivals : List Arrival) : Prop where
  calm : ∀ arrival ∈ arrivals, arrival.isCalm = true
  enough : stream.length ≤ arrivals.countP Arrival.isReady

section Delivers

variable {stream : List α} {arrival : Arrival} {rest : List Arrival}

theorem Delivers.skip (delivers : Delivers stream (arrival :: rest))
    (later : arrival.isReady = false) : Delivers stream rest where
  calm other member := delivers.calm other (List.mem_cons_of_mem _ member)
  enough := by
    have enough := delivers.enough
    rwa [List.countP_cons_of_neg (by simp [later])] at enough

theorem Delivers.take {more : Nat} (delivers : Delivers stream (.ready more :: rest)) {count : Nat}
    (some : 0 < count) : Delivers (stream.drop count) rest where
  calm other member := delivers.calm other (List.mem_cons_of_mem _ member)
  enough := by
    have enough := delivers.enough
    rw [List.countP_cons_of_pos (by rfl)] at enough
    rw [List.length_drop]
    omega

theorem Delivers.append {front : List α} {first second : List Arrival}
    (head : Delivers front first) (tail : Delivers stream second) :
    Delivers (front ++ stream) (first ++ second) where
  calm other member := by
    rcases List.mem_append.mp member with early | late
    · exact head.calm other early
    · exact tail.calm other late
  enough := by
    have enough := head.enough
    have more := tail.enough
    rw [List.length_append, List.countP_append]
    omega

theorem delivers_of_ready {arrivals : List Arrival} (ready : ∀ other ∈ arrivals, other.isReady = true)
    (enough : stream.length ≤ arrivals.length) : Delivers stream arrivals where
  calm other member := by
    have found := ready other member
    cases other <;> first | rfl | cases found
  enough := by rwa [List.countP_eq_length.mpr ready]

end Delivers

theorem drop_length_take (stream : List α) (count : Nat) :
    stream.drop (stream.take count).length = stream.drop count := by
  rw [List.length_take]
  cases Nat.le_total count stream.length with
  | inl inside => rw [Nat.min_eq_left inside]
  | inr beyond => rw [Nat.min_eq_right beyond, List.drop_length, List.drop_eq_nil_of_le beyond]

section ReadLoop

variable {request : Nat → Nat} {len : Nat} {got stream : List α}

theorem readLoop_done (full : len ≤ got.length) (arrivals : List Arrival) :
    readLoop request len got stream arrivals = .returned got ⟨stream, arrivals⟩ := by
  cases arrivals <;> simp only [readLoop, full, if_true]

/-- A call that finds something. -/
theorem readLoop_ready {more count : Nat} {rest : List Arrival} (open_ : got.length < len)
    (asked : min (more + 1) (request got.length) = count) (some : 0 < count)
    (there : stream ≠ []) :
    readLoop request len got stream (.ready more :: rest) =
      readLoop request len (got ++ stream.take count) (stream.drop count) rest := by
  have unfilled : ¬ len ≤ got.length := by omega
  have piece : (stream.take count).isEmpty = false := by
    rw [List.isEmpty_eq_false_iff]
    intro nothing
    rcases List.take_eq_nil_iff.mp nothing with none | empty
    · omega
    · exact there empty
  rw [readLoop, if_neg unfilled]
  simp only [asked, piece, drop_length_take, Bool.false_eq_true, if_false]

/-- A turn of the loop takes a front of the stream, at most as long as it asks for. -/
theorem readLoop_turn {more : Nat} {rest : List Arrival}
    (delivers : Delivers stream (.ready more :: rest)) (open_ : got.length < len)
    (asked : 0 < request got.length) (there : stream ≠ []) :
    ∃ front back, stream = front ++ back ∧ front.length ≤ request got.length ∧
      Delivers back rest ∧ readLoop request len got stream (.ready more :: rest) =
        readLoop request len (got ++ front) back rest := by
  have positive : 0 < min (more + 1) (request got.length) := by omega
  refine ⟨stream.take (min (more + 1) (request got.length)),
    stream.drop (min (more + 1) (request got.length)), ?_, ?_, ?_, ?_⟩
  · rw [List.take_append_drop]
  · rw [List.length_take]
    omega
  · exact delivers.take positive
  · exact readLoop_ready open_ rfl positive there

/-- A loop that never takes more than is missing reads exactly that, however the stream comes. It
may also be the stream that has no more. -/
theorem readLoop_exact {arrivals : List Arrival} (delivers : Delivers stream arrivals)
    (short : got.length ≤ len) (there : len ≤ got.length + stream.length)
    (asks : ∀ sofar, sofar < len → 0 < request sofar)
    (bounded : (∀ sofar, sofar < len → request sofar ≤ len - sofar) ∨
      got.length + stream.length ≤ len) :
    ∃ later, readLoop request len got stream arrivals =
        .returned (got ++ stream.take (len - got.length))
          ⟨stream.drop (len - got.length), later⟩ ∧
      Delivers (stream.drop (len - got.length)) later := by
  induction arrivals generalizing got stream with
  | nil =>
    have empty : stream.length = 0 := Nat.le_zero.mp delivers.enough
    have full : len - got.length = 0 := by omega
    exact ⟨[], by rw [readLoop_done (by omega), full]; simp, by rw [full]; exact delivers⟩
  | cons arrival rest ih =>
    by_cases full : len ≤ got.length
    · have nothing : len - got.length = 0 := by omega
      exact ⟨arrival :: rest, by rw [readLoop_done full, nothing]; simp,
        by rw [nothing]; exact delivers⟩
    · cases arrival with
      | ready more =>
        have open_ : got.length < len := by omega
        have some : stream ≠ [] := by
          rintro rfl
          simp only [List.length_nil, Nat.add_zero] at there
          exact full there
        obtain ⟨front, back, rfl, fewer, left, turned⟩ :=
          readLoop_turn delivers open_ (asks got.length open_) some
        rw [List.length_append] at there bounded
        have inside : got.length + front.length ≤ len := by
          rcases bounded with requests | all
          · have := requests got.length open_
            omega
          · omega
        have total : (got ++ front).length = got.length + front.length := List.length_append
        obtain ⟨later, ran, still⟩ := ih left (by omega : (got ++ front).length ≤ len) (by omega)
          (bounded.imp id fun all => by omega)
        have missing : len - got.length = front.length + (len - (got ++ front).length) := by omega
        refine ⟨later, ?_, ?_⟩
        · rw [turned, ran, missing, List.take_length_add_append, List.drop_length_add_append,
            List.append_assoc]
        · rw [missing, List.drop_length_add_append]
          exact still
      | wouldBlock =>
        rw [readLoop, if_neg full]
        exact ih (delivers.skip rfl) short there bounded
      | interrupted =>
        rw [readLoop, if_neg full]
        exact ih (delivers.skip rfl) short there bounded
      | timedOut => exact absurd (delivers.calm .timedOut List.mem_cons_self) (by decide)
      | broken => exact absurd (delivers.calm .broken List.mem_cons_self) (by decide)

/-- The stream comes one element at a time for a while. -/
theorem readLoop_singles (front : List α) {stream : List α} {later : List Arrival}
    (short : got.length + front.length ≤ len) (asks : ∀ sofar, sofar < len → 0 < request sofar) :
    readLoop request len got (front ++ stream)
        (List.replicate front.length (.ready 0) ++ later) =
      readLoop request len (got ++ front) stream later := by
  induction front generalizing got with
  | nil => simp
  | cons first rest ih =>
    rw [List.length_cons] at short
    have open_ : got.length < len := by omega
    have asked := asks got.length open_
    rw [List.length_cons, List.replicate_succ, List.cons_append, List.cons_append,
      readLoop_ready open_ (by omega : min (0 + 1) (request got.length) = 1) (by omega) (by simp)]
    have next := @ih (got ++ [first]) (by rw [List.length_append, List.length_singleton]; omega)
    rw [List.append_assoc] at next
    exact next

end ReadLoop

end Arrivals
