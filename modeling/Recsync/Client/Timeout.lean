import Mathlib.Algebra.Group.Int.Defs
import Mathlib.Data.Rat.Floor

set_option autoImplicit false

/- The timeout of a `shSocket` and the wait that it gives: `sockhelpers.c`. -/
namespace Recsync.Client.Timeout

/-- A `struct timeval`. -/
structure Timeval where
  tvSec : Int := 0
  tvUsec : Int := 0
  deriving DecidableEq, Repr

/-- `shSetTimeout`. The product is taken without its rounding to a `double`. -/
def shSetTimeout (timeout : Timeval) (val : ℚ) : Timeval :=
  if val < 0 ∨ val ≥ 0x7fffffff then timeout
  else if val > 0 then ⟨⌊val⌋, ⌊1000000 * (val - ⌊val⌋)⌋⟩
  else {}

/-- The `timeout` of the call of `poll` in `shWaitFor`. A `time_t` has 64 bits, so that the sum is
right until it is cut off to an `int`. -/
def pollTimeout (timeout : Timeval) (notimo : Bool) : Int :=
  if notimo = false ∧ (timeout.tvSec ≠ 0 ∨ timeout.tvUsec ≠ 0) then
    (timeout.tvSec * 1000 + timeout.tvUsec / 1000).bmod (2 ^ 32)
  else -1

/-- What the calls of `shSetTimeout` after `shSocketInit` can leave. -/
def Stored (timeout : Timeval) : Prop := ∃ vals : List ℚ, vals.foldl shSetTimeout {} = timeout

structure InRange (timeout : Timeval) : Prop where
  seconds : 0 ≤ timeout.tvSec ∧ timeout.tvSec < 0x7fffffff
  microseconds : 0 ≤ timeout.tvUsec ∧ timeout.tvUsec < 1000000

theorem InRange.set {timeout : Timeval} (range : InRange timeout) (val : ℚ) :
    InRange (shSetTimeout timeout val) := by
  rw [shSetTimeout]
  split
  · exact range
  · next accepted =>
    split
    · next positive =>
      have low : ((⌊val⌋ : Int) : ℚ) ≤ val := Int.floor_le val
      have high : val < ⌊val⌋ + 1 := Int.lt_floor_add_one val
      refine ⟨⟨Int.floor_nonneg.mpr positive.le, ?_⟩, Int.floor_nonneg.mpr ?_, ?_⟩
      · rw [Int.floor_lt]
        simpa using (not_or.mp accepted).2
      · linarith
      · rw [Int.floor_lt]
        push_cast
        linarith
    · exact ⟨by decide, by decide⟩

theorem InRange.sets {timeout : Timeval} (range : InRange timeout) (vals : List ℚ) :
    InRange (vals.foldl shSetTimeout timeout) := by
  induction vals generalizing timeout with
  | nil => exact range
  | cons val rest ih => exact ih (range.set val)

/-- The value for a number of seconds and microseconds. -/
def Timeval.seconds (timeout : Timeval) : ℚ := timeout.tvSec + timeout.tvUsec / 1000000

theorem floor_seconds {timeout : Timeval} (range : InRange timeout) :
    ⌊timeout.seconds⌋ = timeout.tvSec := by
  have low : (0 : ℚ) ≤ timeout.tvUsec := by exact_mod_cast range.microseconds.1
  have high : (timeout.tvUsec : ℚ) < 1000000 := by exact_mod_cast range.microseconds.2
  have part : (timeout.tvUsec : ℚ) / 1000000 < 1 := by linarith
  rw [Int.floor_eq_iff, Timeval.seconds]
  constructor <;> linarith

theorem shSetTimeout_seconds {timeout : Timeval} (range : InRange timeout) (old : Timeval) :
    shSetTimeout old timeout.seconds = timeout := by
  have whole := floor_seconds range
  have nonneg : 0 ≤ timeout.seconds := by
    rw [← Int.floor_nonneg, whole]
    exact range.seconds.1
  have below : timeout.seconds < 0x7fffffff := by
    have bound : timeout.seconds < ⌊timeout.seconds⌋ + 1 := Int.lt_floor_add_one _
    have seconds : (timeout.tvSec : ℚ) + 1 ≤ 0x7fffffff := by exact_mod_cast range.seconds.2
    rw [whole] at bound
    linarith
  have part : 1000000 * (timeout.seconds - timeout.tvSec) = timeout.tvUsec := by
    rw [Timeval.seconds]
    ring
  rw [shSetTimeout, if_neg (not_or.mpr ⟨not_lt.mpr nonneg, not_le.mpr below⟩), whole, part,
    Int.floor_intCast]
  split
  · rfl
  · next zero =>
    have none : timeout.seconds = 0 := le_antisymm (not_lt.mp zero) nonneg
    rw [none, Int.floor_zero] at whole
    have rest : (timeout.tvUsec : ℚ) = 0 := by rw [← part, none, ← whole]; simp
    have usec : timeout.tvUsec = 0 := by exact_mod_cast rest
    cases timeout
    simp only at whole usec
    rw [← whole, usec]

/-- Every number of seconds and microseconds in these ranges is stored for some value. -/
theorem stored_iff (timeout : Timeval) : Stored timeout ↔ InRange timeout := by
  constructor
  · intro stored
    obtain ⟨vals, rfl⟩ := stored
    exact InRange.sets ⟨by decide, by decide⟩ vals
  · intro range
    exact ⟨[timeout.seconds], shSetTimeout_seconds range {}⟩

/-- The wait is as long as the timeout, in whole milliseconds. -/
structure WaitsExactly (timeout : Timeval) : Prop where
  nonneg : 0 ≤ pollTimeout timeout false
  exact : pollTimeout timeout false = timeout.tvSec * 1000 + timeout.tvUsec / 1000

/-- A timeout that is not zero is waited for exactly when its milliseconds fit into an `int`. -/
theorem waitsExactly_iff {timeout : Timeval} (stored : Stored timeout)
    (given : timeout.tvSec ≠ 0 ∨ timeout.tvUsec ≠ 0) :
    WaitsExactly timeout ↔ timeout.tvSec * 1000 + timeout.tvUsec / 1000 < 2 ^ 31 := by
  obtain ⟨seconds, microseconds⟩ := (stored_iff timeout).mp stored
  have cut : pollTimeout timeout false =
      (timeout.tvSec * 1000 + timeout.tvUsec / 1000).bmod (2 ^ 32) := if_pos ⟨rfl, given⟩
  constructor
  · intro waits
    have exact := waits.exact
    have bound := @Int.bmod_lt (timeout.tvSec * 1000 + timeout.tvUsec / 1000) (2 ^ 32) (by decide)
    rw [cut] at exact
    omega
  · intro fits
    have exact : (timeout.tvSec * 1000 + timeout.tvUsec / 1000).bmod (2 ^ 32) =
        timeout.tvSec * 1000 + timeout.tvUsec / 1000 :=
      Int.bmod_eq_of_le (by omega) (by omega)
    constructor
    · rw [cut, exact]
      omega
    · rw [cut, exact]

/-- Four times the default of 20 seconds. -/
theorem waitsExactly_synchronised : WaitsExactly ⟨80, 0⟩ :=
  (@waitsExactly_iff ⟨80, 0⟩ ⟨[20, 80], by decide +kernel⟩ (Or.inl (by decide))).mpr (by decide)

/-- A timeout of 2147484 seconds is an infinite wait, one of 4294968 seconds is one of 704
milliseconds. -/
theorem not_waitsExactly : (Stored ⟨2147484, 0⟩ ∧ pollTimeout ⟨2147484, 0⟩ false < 0) ∧
    (Stored ⟨4294968, 0⟩ ∧ pollTimeout ⟨4294968, 0⟩ false = 704) ∧
    ¬ ∀ timeout, Stored timeout → (timeout.tvSec ≠ 0 ∨ timeout.tvUsec ≠ 0) →
      WaitsExactly timeout := by
  have long : Stored ⟨2147484, 0⟩ := (stored_iff _).mpr ⟨by decide, by decide⟩
  have longer : Stored ⟨4294968, 0⟩ := (stored_iff _).mpr ⟨by decide, by decide⟩
  have infinite : pollTimeout ⟨2147484, 0⟩ false < 0 := by decide
  refine ⟨⟨long, infinite⟩, ⟨longer, by decide⟩, fun all => ?_⟩
  have nonneg := (all ⟨2147484, 0⟩ long (Or.inl (by decide))).nonneg
  omega

end Recsync.Client.Timeout
