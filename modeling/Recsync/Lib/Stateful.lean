import Mathlib.Logic.Relation

set_option autoImplicit false

/- Protocols that ask for a number of bytes at a time, fed from a stream that
arrives in pieces of any size. -/
namespace Stateful

/-- What the author of a protocol writes: how many bytes each state asks for and
what happens when they are there. -/
structure Machine (σ : Type) where
  wants : σ → Nat
  handle : σ → List UInt8 → σ
  /-- the connection is being closed; nothing is delivered any more -/
  closed : σ → Bool
  wants_pos : ∀ s, 0 < wants s

variable {σ : Type}

/-- One delivery: a state is handed exactly the bytes that it asked for. -/
inductive Delivers (m : Machine σ) : σ × List UInt8 → σ × List UInt8 → Prop where
  | mk (s : σ) (taken left : List UInt8) : m.closed s = false → taken.length = m.wants s →
      Delivers m (s, taken ++ left) (m.handle s taken, left)

/-- An implementation of the buffer between the stream and the machine. -/
structure Protocol (m : Machine σ) where
  State : Type
  dataReceived : State → List UInt8 → State
  state : State → σ
  pending : State → List UInt8
  /-- all that happens when data arrives are deliveries -/
  delivers : ∀ p data, m.closed (state p) = false →
    Relation.ReflTransGen (Delivers m) (state p, pending p ++ data)
      (state (dataReceived p data), pending (dataReceived p data))
  /-- and they go on until too few bytes are left -/
  drained : ∀ p data, m.closed (state p) = false →
    m.closed (state (dataReceived p data)) = false →
      (pending (dataReceived p data)).length < m.wants (state (dataReceived p data))

section Invariant

variable {m : Machine σ} {Good : σ → List UInt8 → Prop}

/-- What a delivery preserves of a state and the rest of the stream, any cut of the stream
preserves. -/
theorem Delivers.run_invariant
    (preserved : ∀ s taken left, Good s (taken ++ left) → taken.length = m.wants s →
      Good (m.handle s taken) left) (rest : List UInt8) {start final : σ × List UInt8}
    (run : Relation.ReflTransGen (Delivers m) start final)
    (good : Good start.1 (start.2 ++ rest)) : Good final.1 (final.2 ++ rest) := by
  induction run with
  | refl => exact good
  | tail _ delivery ih =>
    obtain ⟨s, taken, left, -, exactly⟩ := delivery
    apply preserved _ taken _ _ exactly
    rw [← List.append_assoc]
    exact ih

/-- However the stream is cut, the invariant holds of what is left of it, and too few bytes are
pending for another delivery. -/
theorem Protocol.feed_invariant (impl : Protocol m)
    (preserved : ∀ s taken left, Good s (taken ++ left) → taken.length = m.wants s →
      Good (m.handle s taken) left)
    (stays : ∀ s unread, Good s unread → m.closed s = false) (rest : List UInt8)
    (chunks : List (List UInt8)) (p : impl.State)
    (good : Good (impl.state p) (impl.pending p ++ chunks.flatten ++ rest))
    (short : (impl.pending p).length < m.wants (impl.state p)) :
    Good (impl.state (chunks.foldl impl.dataReceived p))
        (impl.pending (chunks.foldl impl.dataReceived p) ++ rest) ∧
      (impl.pending (chunks.foldl impl.dataReceived p)).length <
        m.wants (impl.state (chunks.foldl impl.dataReceived p)) := by
  induction chunks generalizing p with
  | nil => exact ⟨by simpa using good, short⟩
  | cons data chunks ih =>
    have alive := stays _ _ good
    have next : Good (impl.state (impl.dataReceived p data))
        (impl.pending (impl.dataReceived p data) ++ (chunks.flatten ++ rest)) := by
      apply Delivers.run_invariant preserved _ (impl.delivers p data alive)
      simpa only [List.flatten_cons, List.append_assoc] using good
    apply ih
    · rw [List.append_assoc]
      exact next
    · exact impl.drained p data alive (stays _ _ next)

end Invariant

section Reference

variable (m : Machine σ)

/-- The deliveries that the pending bytes are enough for; the fuel bounds their number. -/
def drain : Nat → σ → List UInt8 → σ × List UInt8
  | 0, s, pending => (s, pending)
  | fuel + 1, s, pending =>
    if m.closed s then (s, pending)
    else if m.wants s ≤ pending.length then
      drain fuel (m.handle s (pending.take (m.wants s))) (pending.drop (m.wants s))
    else (s, pending)

theorem drain_delivers (fuel : Nat) (s : σ) (pending : List UInt8) :
    Relation.ReflTransGen (Delivers m) (s, pending) (drain m fuel s pending) := by
  induction fuel generalizing s pending with
  | zero => exact .refl
  | succ fuel ih =>
    rw [drain]
    split
    · exact .refl
    · rename_i opened
      split
      · rename_i enough
        have first := @Delivers.mk _ m s (pending.take (m.wants s)) (pending.drop (m.wants s))
          (by simpa using opened) (List.length_take_of_le enough)
        rw [List.take_append_drop] at first
        exact .head first (ih _ _)
      · exact .refl

theorem drain_drained (fuel : Nat) (s : σ) (pending : List UInt8) (enough : pending.length ≤ fuel)
    (opened : m.closed (drain m fuel s pending).1 = false) :
    (drain m fuel s pending).2.length < m.wants (drain m fuel s pending).1 := by
  induction fuel generalizing s pending with
  | zero =>
    have := m.wants_pos s
    simp only [drain]
    omega
  | succ fuel ih =>
    rw [drain] at opened ⊢
    split at opened
    · rename_i closed
      rw [closed] at opened
      cases opened
    · rename_i notClosed
      rw [if_neg notClosed]
      split at opened
      · rename_i more
        rw [if_pos more]
        apply ih _ _ _ opened
        have := m.wants_pos s
        simp only [List.length_drop]
        omega
      · rename_i short
        rw [if_neg short]
        exact Nat.lt_of_not_le short

/-- The buffer that keeps the bytes of an incomplete request for the next piece. -/
def reference : Protocol m where
  State := σ × List UInt8
  dataReceived p data := drain m (p.2 ++ data).length p.1 (p.2 ++ data)
  state := Prod.fst
  pending := Prod.snd
  delivers p data _ := drain_delivers m _ p.1 (p.2 ++ data)
  drained p data _ := drain_drained m _ p.1 (p.2 ++ data) (Nat.le_refl _)

end Reference

section Final

variable {m : Machine σ}

/-- No delivery is possible: the connection is closed or too few bytes are there. -/
def Stuck (m : Machine σ) (p : σ × List UInt8) : Prop :=
  m.closed p.1 = true ∨ p.2.length < m.wants p.1

theorem Delivers.unique : Relator.RightUnique (Delivers m) := by
  rintro a b c ⟨s, taken, left, _, exactly⟩ second
  generalize bytes : taken ++ left = whole at second
  cases second with
  | mk s taken' left' _ exactly' =>
    obtain ⟨rfl, rfl⟩ := List.append_inj bytes (exactly.trans exactly'.symm)
    rfl

theorem Delivers.append {a b : σ × List UInt8} (delivery : Delivers m a b) (more : List UInt8) :
    Delivers m (a.1, a.2 ++ more) (b.1, b.2 ++ more) := by
  cases delivery with
  | mk s taken left opened exactly =>
    have longer := Delivers.mk s taken (left ++ more) opened exactly
    simpa using longer

theorem deliveries_append {a b : σ × List UInt8} (run : Relation.ReflTransGen (Delivers m) a b)
    (more : List UInt8) :
    Relation.ReflTransGen (Delivers m) (a.1, a.2 ++ more) (b.1, b.2 ++ more) := by
  induction run with
  | refl => exact .refl
  | tail _ last ih => exact .tail ih (last.append more)

theorem Stuck.not_delivers {a b : σ × List UInt8} (stuck : Stuck m a) : ¬ Delivers m a b := by
  rintro ⟨s, taken, left, opened, exactly⟩
  rcases stuck with closed | short
  · simp [opened] at closed
  · simp only [List.length_append] at short
    omega

theorem Stuck.eq_of_deliveries {a b : σ × List UInt8} (stuck : Stuck m a)
    (run : Relation.ReflTransGen (Delivers m) a b) : a = b := by
  rcases Relation.ReflTransGen.cases_head run with same | ⟨c, first, -⟩
  · exact same
  · exact absurd first stuck.not_delivers

/-- The deliveries end in one way only. -/
theorem Stuck.unique {a b c : σ × List UInt8} (first : Relation.ReflTransGen (Delivers m) a b)
    (stuckFirst : Stuck m b) (second : Relation.ReflTransGen (Delivers m) a c)
    (stuckSecond : Stuck m c) : b = c := by
  rcases Relation.ReflTransGen.total_of_right_unique Delivers.unique first second with run | run
  · exact stuckFirst.eq_of_deliveries run
  · exact (stuckSecond.eq_of_deliveries run).symm

/-- The state after all of the bytes that are delivered. -/
def final (m : Machine σ) (s : σ) (bytes : List UInt8) : σ := (drain m bytes.length s bytes).1

theorem drain_stuck (s : σ) (bytes : List UInt8) : Stuck m (drain m bytes.length s bytes) := by
  by_cases opened : m.closed (drain m bytes.length s bytes).1 = true
  · exact Or.inl opened
  · exact Or.inr (drain_drained m _ s bytes (Nat.le_refl _) (by simpa using opened))

theorem final_of_deliveries {s s' : σ} {bytes left : List UInt8}
    (run : Relation.ReflTransGen (Delivers m) (s, bytes) (s', left)) (stuck : Stuck m (s', left)) :
    final m s bytes = s' := by
  have same := Stuck.unique (drain_delivers m bytes.length s bytes) (drain_stuck s bytes) run stuck
  exact congrArg Prod.fst same

theorem final_closed {s : σ} (closed : m.closed s = true) (bytes : List UInt8) :
    final m s bytes = s := final_of_deliveries .refl (Or.inl closed)

theorem final_nil (s : σ) : final m s [] = s :=
  final_of_deliveries .refl (Or.inr (m.wants_pos s))

/-- The bytes that the state asks for are delivered first. -/
theorem final_deliver {s : σ} (opened : m.closed s = false) {taken : List UInt8}
    (exactly : taken.length = m.wants s) (left : List UInt8) :
    final m s (taken ++ left) = final m (m.handle s taken) left := by
  have first := Delivers.mk s taken left opened exactly
  exact final_of_deliveries (.head first (drain_delivers m left.length _ left)) (drain_stuck _ left)

/-- Data for a connection that is closed is dropped. -/
def Protocol.receive (impl : Protocol m) (p : impl.State) (data : List UInt8) : impl.State :=
  if m.closed (impl.state p) then p else impl.dataReceived p data

/-- However the bytes are cut, the state at the end is the same. -/
theorem Protocol.receive_final (impl : Protocol m) (chunks : List (List UInt8)) (p : impl.State)
    (stuck : Stuck m (impl.state p, impl.pending p)) :
    impl.state (chunks.foldl impl.receive p) =
      final m (impl.state p) (impl.pending p ++ chunks.flatten) := by
  induction chunks generalizing p with
  | nil => exact (final_of_deliveries .refl (by simpa using stuck)).symm
  | cons data chunks ih =>
    rw [List.foldl_cons, Protocol.receive]
    by_cases closed : m.closed (impl.state p) = true
    · rw [if_pos closed, ih p stuck, final_closed closed, final_closed closed]
    · have opened : m.closed (impl.state p) = false := by simpa using closed
      have drained : Stuck m (impl.state (impl.dataReceived p data),
          impl.pending (impl.dataReceived p data)) := by
        by_cases after : m.closed (impl.state (impl.dataReceived p data)) = true
        · exact Or.inl after
        · exact Or.inr (impl.drained p data opened (by simpa using after))
      have run := deliveries_append (impl.delivers p data opened) chunks.flatten
      rw [List.append_assoc] at run
      rw [if_neg closed, ih _ drained]
      exact (final_of_deliveries (run.trans (drain_delivers m _ _ _)) (drain_stuck _ _)).symm

end Final

end Stateful
