import Recsync.Lib.Bytes

set_option autoImplicit false

/- IPv4 addresses as text and as bytes, and integers in the order of a host. -/
namespace Inet

open Bytes

/-- The value of a digit in bases up to sixteen. -/
def digit? (base : Nat) (c : Char) : Option Nat :=
  let value :=
    if '0' ≤ c ∧ c ≤ '9' then some (c.toNat - '0'.toNat)
    else if 'a' ≤ c ∧ c ≤ 'f' then some (c.toNat - 'a'.toNat + 10)
    else if 'A' ≤ c ∧ c ≤ 'F' then some (c.toNat - 'A'.toNat + 10)
    else none
  value.filter fun d => decide (d < base)

def digits? (base : Nat) (s : List Char) : Option Nat :=
  if s.isEmpty then none
  else s.foldl (fun total c => do return base * (← total) + (← digit? base c)) (some 0)

/-- A number of `inet(3)`: hexadecimal after `0x`, octal after `0`, else decimal. -/
def number? : List Char → Option Nat
  | '0' :: 'x' :: rest => digits? 16 rest
  | '0' :: 'X' :: rest => digits? 16 rest
  | '0' :: c :: rest => digits? 8 (c :: rest)
  | s => digits? 10 s

/-- The address of one to four parts. The last part fills all the bytes that are left. -/
def address? : Nat → List Nat → Option (List UInt8)
  | 0, _ => none
  | _, [] => none
  | width + 1, [last] => if last < 256 ^ (width + 1) then some (ofUInt (width + 1) last) else none
  | width + 1, part :: rest =>
    if part < 256 then (address? width rest).map (UInt8.ofNat part :: ·) else none

def inetAton (host : String) : Option (List UInt8) :=
  ((host.toList.splitOn '.').mapM number?).bind (address? 4)

def inetNtoa (address : List UInt8) : String :=
  String.ofList (['.'].intercalate (address.map fun byte => Nat.toDigits 10 byte.toNat))

theorem length_address? {width : Nat} {parts : List Nat} {address : List UInt8}
    (packed : address? width parts = some address) : address.length = width := by
  induction width generalizing parts address with
  | zero => cases packed
  | succ width ih =>
    cases parts with
    | nil => cases packed
    | cons part rest =>
      cases rest with
      | nil =>
        simp only [address?] at packed
        split at packed
        · rw [← Option.some.inj packed, length_ofUInt]
        · cases packed
      | cons next others =>
        simp only [address?] at packed
        split at packed
        · obtain ⟨tail, inner, rfl⟩ := Option.map_eq_some_iff.mp packed
          rw [List.length_cons, ih inner]
        · cases packed

theorem length_inetAton {host : String} {address : List UInt8}
    (packed : inetAton host = some address) : address.length = 4 := by
  obtain ⟨parts, -, packed⟩ := Option.bind_eq_some_iff.mp packed
  exact length_address? packed

theorem byte_text : ∀ n < 256, number? (Nat.toDigits 10 n) = some n ∧ '.' ∉ Nat.toDigits 10 n := by
  decide +kernel

/-- Dotted decimal text is read back. -/
theorem inetAton_inetNtoa {address : List UInt8} (four : address.length = 4) :
    inetAton (inetNtoa address) = some address := by
  obtain ⟨a, b, c, d, rfl⟩ : ∃ a b c d, address = [a, b, c, d] := by
    match address, four with
    | [a, b, c, d], _ => exact ⟨a, b, c, d, rfl⟩
  have part (byte : UInt8) := byte_text byte.toNat byte.toNat_lt
  have split : (inetNtoa [a, b, c, d]).toList.splitOn '.' =
      [a, b, c, d].map fun byte => Nat.toDigits 10 byte.toNat := by
    rw [inetNtoa, String.toList_ofList, List.splitOn_intercalate]
    · intro text member
      obtain ⟨byte, -, rfl⟩ := List.mem_map.mp member
      exact (part byte).2
    · simp
  have numbers : ([a, b, c, d].map fun byte => Nat.toDigits 10 byte.toNat).mapM number? =
      some [a.toNat, b.toNat, c.toNat, d.toNat] := by
    simp [List.mapM_cons, (part _).1]
  have small (byte : UInt8) : byte.toNat < 256 := byte.toNat_lt
  rw [inetAton, split, numbers]
  simp [address?, small, ofUInt]

inductive ByteOrder where
  | little
  | big
  deriving DecidableEq, Repr

/-- The integer that a machine reads from its memory. -/
def load : ByteOrder → List UInt8 → Nat
  | .little, bytes => toUInt bytes.reverse
  | .big, bytes => toUInt bytes

/-- `ntohs` and `ntohl`, by the width in bytes. -/
def ntoh : ByteOrder → Nat → Nat → Nat
  | .little, width, value => toUInt (ofUInt width value).reverse
  | .big, _, value => value

theorem ntoh_load (order : ByteOrder) (bytes : List UInt8) :
    ntoh order bytes.length (load order bytes) = toUInt bytes := by
  cases order with
  | big => rfl
  | little =>
    have same := ofUInt_toUInt bytes.reverse
    rw [List.length_reverse] at same
    rw [ntoh, load, same, List.reverse_reverse]

theorem ntoh_load_at (order : ByteOrder) {bytes : List UInt8} {offset width : Nat}
    (inside : offset + width ≤ bytes.length) :
    ntoh order width (load order ((bytes.drop offset).take width)) = uintAt offset width bytes := by
  have read := ntoh_load order ((bytes.drop offset).take width)
  rwa [length_field inside] at read

/-- A byte in a field that is read as a short one is zero in every order. -/
theorem ntoh_byte_eq_zero (order : ByteOrder) (byte : UInt8) :
    ntoh order 2 (load order [byte]) = 0 ↔ byte = 0 := by
  have zero : byte.toNat = 0 ↔ byte = 0 := by
    rw [← UInt8.toNat_inj]
    rfl
  have small : byte.toNat < 256 := byte.toNat_lt
  rw [← zero]
  cases order with
  | big => simp [ntoh, load, toUInt]
  | little =>
    simp only [ntoh, load, toUInt, ofUInt, List.length_nil, Nat.pow_zero,
      Nat.mul_one, Nat.add_zero, Nat.pow_one, Nat.div_one, List.reverse_cons, List.reverse_nil,
      List.nil_append, List.cons_append, List.length_cons, UInt8.toNat_ofNat']
    omega

end Inet
