import Recsync.Lib.Inet
import Recsync.Protocol.Codec

set_option autoImplicit false

/- The UDP announcement of `protocol/announce.py`. -/
namespace Recsync.Protocol

open Bytes Inet

def broadcastAddress : String := "255.255.255.255"

structure Announce where
  tcpPort : Nat
  key : Nat := 0
  host : String := broadcastAddress
  deriving DecidableEq, Repr

namespace Announce

def payloadSize : Nat := 16

/-- `Announce.encode`, layout `!HH4sHxxI`. -/
def encode (m : Announce) : Encoded :=
  match inetAton m.host with
  | none => .error (.protocolError ("invalid announce address: " ++ m.host))
  | some addr => do
    let head ← pack [(2, protoId), (2, 0)]
    let tail ← pack [(2, m.tcpPort), (2, 0), (4, m.key)]
    return head ++ (addr ++ tail)

def decode (wireBytes : List UInt8) : Decoded Announce :=
  if wireBytes.length < payloadSize then
    .error (.protocolError ("announce packet must be at least " ++ toString payloadSize ++ " bytes"))
  else
    let proto := uintAt 0 2 wireBytes
    let version := uintAt 2 2 wireBytes
    if proto ≠ protoId then .error (.protocolError ("bad protocol id " ++ hex06 proto))
    else if version ≠ 0 then
      .error (.protocolError ("unsupported announce version " ++ toString version))
    else
      .ok ⟨uintAt 8 2 wireBytes, uintAt 12 4 wireBytes, inetNtoa ((wireBytes.drop 4).take 4)⟩

theorem decode_eq_ok_iff {wireBytes : List UInt8} (whole : payloadSize ≤ wireBytes.length)
    (m : Announce) : decode wireBytes = .ok m ↔
      (uintAt 0 2 wireBytes = protoId ∧ uintAt 2 2 wireBytes = 0) ∧
        m = ⟨uintAt 8 2 wireBytes, uintAt 12 4 wireBytes, inetNtoa ((wireBytes.drop 4).take 4)⟩ := by
  rw [decode, if_neg (Nat.not_lt.mpr whole)]
  dsimp only
  by_cases proto : uintAt 0 2 wireBytes = protoId
  · by_cases version : uintAt 2 2 wireBytes = 0
    · simp [proto, version, eq_comm]
    · simp [proto, version]
  · simp [proto]

def wire (tcpPort key : Nat) (addr : List UInt8) : List UInt8 :=
  packed [(2, protoId), (2, 0)] ++ (addr ++ packed [(2, tcpPort), (2, 0), (4, key)])

theorem encode_ok {m : Announce} {addr : List UInt8} (host : inetAton m.host = some addr)
    (port : m.tcpPort < 2 ^ 16) (key : m.key < 2 ^ 32) :
    m.encode = .ok (wire m.tcpPort m.key addr) := by
  have head : pack [(2, protoId), (2, 0)] = .ok (packed [(2, protoId), (2, 0)]) := rfl
  have tail : pack [(2, m.tcpPort), (2, 0), (4, m.key)] =
      .ok (packed [(2, m.tcpPort), (2, 0), (4, m.key)]) := by
    apply (pack_eq_ok_iff _ _).mpr
    refine ⟨?_, rfl⟩
    simp only [List.forall_mem_cons]
    exact ⟨port, by decide, key, by simp⟩
  simp only [encode, host, head, tail]
  rfl

section Wire

variable {tcpPort key : Nat} {addr : List UInt8}

theorem length_wire (four : addr.length = 4) : (wire tcpPort key addr).length = payloadSize := by
  simp [wire, packed, four, payloadSize]

theorem proto_wire : uintAt 0 2 (wire tcpPort key addr) = protoId := by
  rw [wire, packed_cons, List.append_assoc, uintAt_here]
  rfl

theorem version_wire : uintAt 2 2 (wire tcpPort key addr) = 0 := by
  rw [wire, packed_cons, List.append_assoc, uintAt_skip 2 _ (by simp), length_ofUInt, packed_cons,
    List.append_assoc, uintAt_here]
  exact Nat.zero_mod _

theorem addr_wire (four : addr.length = 4) :
    ((wire tcpPort key addr).drop 4).take 4 = addr := by
  rw [wire, List.drop_left' (by simp [packed]), List.take_left' four]

theorem uintAt_wire (four : addr.length = 4) (offset width : Nat) :
    uintAt (8 + offset) width (wire tcpPort key addr) =
      uintAt offset width (packed [(2, tcpPort), (2, 0), (4, key)]) := by
  have head : (packed [(2, protoId), (2, 0)]).length = 4 := by simp [packed]
  rw [wire, uintAt_skip width _ (by omega), uintAt_skip width _ (by omega)]
  congr 1
  omega

theorem port_wire (four : addr.length = 4) (port : tcpPort < 2 ^ 16) :
    uintAt 8 2 (wire tcpPort key addr) = tcpPort := by
  rw [uintAt_wire four 0 2, uintAt_packed port]

theorem key_wire (four : addr.length = 4) (small : key < 2 ^ 32) :
    uintAt 12 4 (wire tcpPort key addr) = key := by
  rw [uintAt_wire four 4 4, uintAt_packed_skip (by decide), uintAt_packed_skip (by decide),
    uintAt_packed small]

end Wire

/-- What is encoded is read back, with the host in dotted decimal. -/
theorem decode_wire {tcpPort key : Nat} {addr : List UInt8} (four : addr.length = 4)
    (port : tcpPort < 2 ^ 16) (small : key < 2 ^ 32) :
    decode (wire tcpPort key addr) = .ok ⟨tcpPort, key, inetNtoa addr⟩ := by
  rw [decode_eq_ok_iff (Nat.le_of_eq (length_wire four).symm)]
  exact ⟨⟨proto_wire, version_wire⟩, by rw [port_wire four port, key_wire four small, addr_wire four]⟩

end Announce

end Recsync.Protocol
