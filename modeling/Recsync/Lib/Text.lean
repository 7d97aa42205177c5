import Mathlib.Init

set_option autoImplicit false

/- The string methods of Python that the development needs, over code points. -/
namespace Py.Text

/-- First code points of the blocks of ten decimal digits. -/
def decimalBlocks : List Nat :=
  [0x30, 0x660, 0x6f0, 0x7c0, 0x966, 0x9e6, 0xa66, 0xae6, 0xb66, 0xbe6, 0xc66, 0xce6, 0xd66,
    0xde6, 0xe50, 0xed0, 0xf20, 0x1040, 0x1090, 0x17e0, 0x1810, 0x1946, 0x19d0, 0x1a80, 0x1a90,
    0x1b50, 0x1bb0, 0x1c40, 0x1c50, 0xa620, 0xa8d0, 0xa900, 0xa9d0, 0xa9f0, 0xaa50, 0xabf0,
    0xff10, 0x104a0, 0x10d30, 0x11066, 0x110f0, 0x11136, 0x111d0, 0x112f0, 0x11450, 0x114d0,
    0x11650, 0x116c0, 0x11730, 0x118e0, 0x11950, 0x11c50, 0x11d50, 0x11da0, 0x16a60, 0x16ac0,
    0x16b50, 0x1d7ce, 0x1d7d8, 0x1d7e2, 0x1d7ec, 0x1d7f6, 0x1e140, 0x1e2f0, 0x1e950, 0x1fbf0]

/-- The code points with a digit value that are not decimal digits: superscripts,
circled digits and the like. `isdigit` is true of them and `int` rejects them. -/
def otherDigits : List (Nat × Nat) :=
  [(0xb2, 0xb3), (0xb9, 0xb9), (0x1369, 0x1371), (0x19da, 0x19da), (0x2070, 0x2070),
    (0x2074, 0x2079), (0x2080, 0x2089), (0x2460, 0x2468), (0x2474, 0x247c), (0x2488, 0x2490),
    (0x24ea, 0x24ea), (0x24f5, 0x24fd), (0x24ff, 0x24ff), (0x2776, 0x277e), (0x2780, 0x2788),
    (0x278a, 0x2792), (0x10a40, 0x10a43), (0x10e60, 0x10e68), (0x11052, 0x1105a),
    (0x1f100, 0x1f10a)]

def decimal? (c : Char) : Option Nat :=
  (decimalBlocks.find? fun first => first ≤ c.toNat && c.toNat < first + 10).map
    fun first => c.toNat - first

def isDigitChar (c : Char) : Bool :=
  (decimal? c).isSome || otherDigits.any fun span => span.1 ≤ c.toNat && c.toNat ≤ span.2

/-- `str.isdigit`. -/
def isdigit (s : List Char) : Bool := !s.isEmpty && s.all isDigitChar

/-- The default of `sys.set_int_max_str_digits`. -/
def maxStrDigits : Nat := 4300

/-- `int(s)` for a string of digits; `none` is a `ValueError`. -/
def int? (s : List Char) : Option Nat :=
  if maxStrDigits < s.length then none
  else s.foldl (fun total c => do return 10 * (← total) + (← decimal? c)) (some 0)

theorem decimal?_of_isDigit {c : Char} (digit : c.isDigit = true) : (decimal? c).isSome := by
  have first : decimalBlocks.any (fun first => first ≤ c.toNat && c.toNat < first + 10) = true := by
    refine List.any_eq_true.mpr ⟨0x30, by decide, ?_⟩
    have bounds : 48 ≤ c.toNat ∧ c.toNat ≤ 57 := by
      simpa [Char.isDigit, UInt32.le_iff_toNat_le] using digit
    simp only [Bool.and_eq_true, decide_eq_true_eq]
    omega
  rw [decimal?, Option.isSome_map, List.find?_isSome]
  exact List.any_eq_true.mp first

/-- `int` accepts every string of ASCII digits that is not too long. -/
theorem int?_of_digits {s : List Char} (short : s.length ≤ maxStrDigits)
    (digits : ∀ c ∈ s, c.isDigit = true) : (int? s).isSome := by
  have fold : ∀ total : Nat,
      (s.foldl (fun total c => do return 10 * (← total) + (← decimal? c)) (some total)).isSome := by
    clear short
    induction s with
    | nil => simp
    | cons c rest ih =>
      intro total
      obtain ⟨d, value⟩ := Option.isSome_iff_exists.mp (decimal?_of_isDigit (digits c (by simp)))
      rw [List.foldl_cons]
      simpa [value] using ih (fun x member => digits x (by simp [member])) (10 * total + d)
  rw [int?, if_neg (by omega)]
  exact fold 0

def isSpace (c : Char) : Bool :=
  [(0x9, 0xd), (0x1c, 0x20), (0x85, 0x85), (0xa0, 0xa0), (0x1680, 0x1680), (0x2000, 0x200a),
    (0x2028, 0x2029), (0x202f, 0x202f), (0x205f, 0x205f), (0x3000, 0x3000)].any
    fun span => span.1 ≤ c.toNat && c.toNat ≤ span.2

/-- `str.strip` with the characters to remove given by a predicate. -/
def strip (drop : Char → Bool) (s : List Char) : List Char :=
  ((s.dropWhile drop).reverse.dropWhile drop).reverse

/-- `str.split()`: the maximal runs of characters that are not white space. -/
def splitSpaces (s : List Char) : List (List Char) :=
  (s.splitOnP isSpace).filter fun word => !word.isEmpty

/-- `str.split(sep, 1)` when it gives two parts. -/
def splitOnce? (sep : Char) (s : List Char) : Option (List Char × List Char) :=
  match s.span (fun c => c != sep) with
  | (_, []) => none
  | (first, _ :: rest) => some (first, rest)

end Py.Text
