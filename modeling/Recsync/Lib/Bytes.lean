import Mathlib.Algebra.Group.Nat.Defs

set_option autoImplicit false

/- Unsigned integers in network order and UTF-8 text, over lists of bytes. -/
namespace Bytes

/-- The lowest `width` bytes of a number, the most significant one first. -/
def ofUInt : Nat → Nat → List UInt8
  | 0, _ => []
  | width + 1, value => UInt8.ofNat (value / 256 ^ width) :: ofUInt width value

def toUInt : List UInt8 → Nat
  | [] => 0
  | byte :: rest => byte.toNat * 256 ^ rest.length + toUInt rest

@[simp] theorem length_ofUInt (width value : Nat) : (ofUInt width value).length = width := by
  induction width with
  | zero => rfl
  | succ width ih => simp only [ofUInt, List.length_cons, ih]

theorem toUInt_ofUInt (width value : Nat) : toUInt (ofUInt width value) = value % 256 ^ width := by
  induction width with
  | zero => simp only [ofUInt, toUInt, Nat.pow_zero, Nat.mod_one]
  | succ width ih =>
    simp only [ofUInt, toUInt, length_ofUInt, ih, UInt8.toNat_ofNat']
    have split := Nat.mod_mul (x := value) (a := 256 ^ width) (b := 256)
    rw [← Nat.pow_succ] at split
    rw [split, Nat.mul_comm, Nat.add_comm]

/-- The integer of `width` bytes that starts at an offset. -/
def uintAt (offset width : Nat) (bytes : List UInt8) : Nat :=
  toUInt ((bytes.drop offset).take width)

@[simp] theorem uintAt_here (width value : Nat) (rest : List UInt8) :
    uintAt 0 width (ofUInt width value ++ rest) = value % 256 ^ width := by
  rw [uintAt, List.drop_zero, List.take_left' (length_ofUInt width value), toUInt_ofUInt]

theorem uintAt_skip {offset : Nat} (width : Nat) {front : List UInt8} (rest : List UInt8)
    (passed : front.length ≤ offset) :
    uintAt offset width (front ++ rest) = uintAt (offset - front.length) width rest := by
  simp only [uintAt, List.drop_append, List.drop_eq_nil_of_le passed, List.nil_append]

theorem toUInt_lt (bytes : List UInt8) : toUInt bytes < 256 ^ bytes.length := by
  induction bytes with
  | nil => exact Nat.one_pos
  | cons byte rest ih =>
    have small : byte.toNat < 256 := byte.toNat_lt
    have bound : (byte.toNat + 1) * 256 ^ rest.length ≤ 256 * 256 ^ rest.length :=
      Nat.mul_le_mul_right _ small
    rw [Nat.add_mul, Nat.one_mul] at bound
    rw [toUInt, List.length_cons, Nat.pow_succ, Nat.mul_comm _ 256]
    omega

theorem ofUInt_add_mul (width high low : Nat) :
    ofUInt width (high * 256 ^ width + low) = ofUInt width low := by
  induction width generalizing high with
  | zero => rfl
  | succ width ih =>
    have positive : 0 < 256 ^ width := Nat.pow_pos (by decide)
    have shift : high * 256 ^ (width + 1) = high * 256 * 256 ^ width := by
      rw [Nat.pow_succ, Nat.mul_assoc, Nat.mul_comm (256 ^ width) 256]
    rw [ofUInt, ofUInt, shift, ih, Nat.add_comm, Nat.add_mul_div_right _ _ positive]
    congr 1
    apply UInt8.toNat_inj.mp
    simp only [UInt8.toNat_ofNat']
    exact Nat.add_mul_mod_self_right _ _ _

theorem ofUInt_toUInt (bytes : List UInt8) : ofUInt bytes.length (toUInt bytes) = bytes := by
  induction bytes with
  | nil => rfl
  | cons byte rest ih =>
    have positive : 0 < 256 ^ rest.length := Nat.pow_pos (by decide)
    have below : toUInt rest / 256 ^ rest.length = 0 := Nat.div_eq_of_lt (toUInt_lt rest)
    rw [toUInt, List.length_cons, ofUInt, ofUInt_add_mul, ih, Nat.add_comm,
      Nat.add_mul_div_right _ _ positive, below, Nat.zero_add]
    exact congrArg (· :: rest) (UInt8.ofNat_toNat)

theorem uintAt_lt (offset width : Nat) (bytes : List UInt8) :
    uintAt offset width bytes < 256 ^ width := by
  apply Nat.lt_of_lt_of_le (toUInt_lt _)
  exact Nat.pow_le_pow_right (by decide) (List.length_take_le _ _)

section Fields

variable {offset width : Nat} {bytes : List UInt8} (inside : offset + width ≤ bytes.length)
include inside

theorem length_field : ((bytes.drop offset).take width).length = width := by
  rw [List.length_take, List.length_drop]
  omega

theorem ofUInt_uintAt :
    ofUInt width (uintAt offset width bytes) = (bytes.drop offset).take width := by
  have same := ofUInt_toUInt ((bytes.drop offset).take width)
  rwa [length_field inside] at same

/-- The bytes from an offset on start with those of the integer there. -/
theorem drop_eq_ofUInt :
    bytes.drop offset = ofUInt width (uintAt offset width bytes) ++ bytes.drop (offset + width) := by
  rw [ofUInt_uintAt inside, ← List.drop_drop, List.take_append_drop]

end Fields

/-- `str.encode()`. -/
def encode (s : String) : List UInt8 := s.toUTF8.data.toList

/-- `bytes.decode()`; `none` is a `UnicodeDecodeError`. -/
def decode (bytes : List UInt8) : Option String := String.fromUTF8? ⟨bytes.toArray⟩

@[simp] theorem decode_encode (s : String) : decode (encode s) = some s := by
  have bytes : (⟨(encode s).toArray⟩ : ByteArray) = s.toUTF8 := by
    simp only [encode, Array.toArray_toList]
  have valid : s.toUTF8.IsValidUTF8 := s.isValidUTF8
  rw [decode, bytes, String.fromUTF8?, dif_pos valid]
  rfl

theorem encode_of_decode {bytes : List UInt8} {s : String} (decoded : decode bytes = some s) :
    encode s = bytes := by
  unfold decode String.fromUTF8? at decoded
  split at decoded
  · obtain rfl := Option.some.inj decoded
    simp [encode, String.fromUTF8]
  · cases decoded

theorem decode_eq_some_iff (bytes : List UInt8) (s : String) :
    decode bytes = some s ↔ bytes = encode s := by
  constructor
  · intro decoded
    exact (encode_of_decode decoded).symm
  · rintro rfl
    exact decode_encode s

end Bytes
