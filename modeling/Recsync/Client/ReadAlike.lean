import Recsync.Client.Udp

set_option autoImplicit false

/- Client and server read the same announcements. -/
namespace Recsync.Client

open Bytes Inet
open Protocol (Announce)

/-- The search after a datagram of at least sixteen bytes. -/
def candidate (order : ByteOrder) (self : Search) (wire : List UInt8) (peer : SockAddrIn) :
    Search :=
  haveCandidate order self (mMsg order (wire.take announceSize)) peer

/-- The client and the server take the same announcement from the datagram, or none of them does. -/
structure ReadAlike (order : ByteOrder) (wire : List UInt8) : Prop where
  accepted : ∀ self peer, self.haveserv = false →
    ((candidate order self wire peer).haveserv = true ↔ ∃ m, Announce.decode wire = .ok m)
  port : ∀ self peer m, Announce.decode wire = .ok m →
    (candidate order self wire peer).nameserv.port order = m.tcpPort
  key : ∀ self peer m, Announce.decode wire = .ok m →
    (candidate order self wire peer).servkey = m.key
  host : ∀ self peer m, Announce.decode wire = .ok m → m.host ≠ Protocol.broadcastAddress →
    inetNtoa ((candidate order self wire peer).nameserv.address order) = m.host

section ServerOf

variable (order : ByteOrder) (self : Search) {wire : List UInt8} (peer : SockAddrIn)

theorem candidate_valid (valid : ValidAnnouncement wire) :
    candidate order self wire peer = found order self wire peer :=
  haveCandidate_valid order self peer valid

theorem port_serverOf (whole : announceSize ≤ wire.length) :
    (serverOf order wire peer).port order = uintAt 8 2 wire := by
  have inside : 8 + 2 ≤ wire.length := Nat.le_trans (by decide) whole
  exact ntoh_load_at order inside

theorem address_serverOf (whole : announceSize ≤ wire.length) :
    (serverOf order wire peer).address order =
      if uintAt 4 4 wire = 0xffffffff then peer.address order else (wire.drop 4).take 4 := by
  have inside : 4 + 4 ≤ wire.length := Nat.le_trans (by decide) whole
  by_cases direct : uintAt 4 4 wire = 0xffffffff
  · simp [serverOf, SockAddrIn.address, direct]
  · have read : ntoh order 4 (load order ((wire.drop 4).take 4)) = uintAt 4 4 wire :=
      ntoh_load_at order inside
    simp only [serverOf, SockAddrIn.address, direct, if_false, read]
    exact ofUInt_uintAt inside

/-- The address that stands for the sender is the one that is printed as the broadcast address. -/
theorem host_of_direct (whole : announceSize ≤ wire.length)
    (direct : uintAt 4 4 wire = 0xffffffff) :
    inetNtoa ((wire.drop 4).take 4) = Protocol.broadcastAddress := by
  have inside : 4 + 4 ≤ wire.length := Nat.le_trans (by decide) whole
  rw [← ofUInt_uintAt inside, direct]
  decide +kernel

end ServerOf

section ReadAlike

variable (order : ByteOrder) {wire : List UInt8} (whole : announceSize ≤ wire.length)
include whole

/-- The server also looks at the fourth byte. -/
theorem decode_ok_iff : (∃ m, Announce.decode wire = .ok m) ↔
    ValidAnnouncement wire ∧ uintAt 3 1 wire = 0 := by
  have inside : 2 + 2 ≤ wire.length := Nat.le_trans (by decide) whole
  have both : uintAt 2 2 wire = 0 ↔ uintAt 2 1 wire = 0 ∧ uintAt 3 1 wire = 0 :=
    uintAt_two_eq_zero inside
  constructor
  · rintro ⟨m, decoded⟩
    obtain ⟨⟨id, version⟩, -⟩ := (Announce.decode_eq_ok_iff whole m).mp decoded
    have zeros := both.mp version
    exact ⟨⟨whole, id, zeros.1⟩, zeros.2⟩
  · rintro ⟨valid, reserved⟩
    have version := both.mpr ⟨valid.zero, reserved⟩
    exact ⟨_, (Announce.decode_eq_ok_iff whole _).mpr ⟨⟨valid.id, version⟩, rfl⟩⟩

theorem candidate_haveserv_iff {self : Search} (fresh : self.haveserv = false)
    (peer : SockAddrIn) :
    (candidate order self wire peer).haveserv = true ↔ ValidAnnouncement wire := by
  by_cases valid : ValidAnnouncement wire
  · rw [candidate_valid order self peer valid]
    simp [found, valid]
  · have same : candidate order self wire peer = self :=
      haveCandidate_invalid order self peer whole valid
    simp [same, fresh, valid]

theorem readAlike_iff : ReadAlike order wire ↔
    (uintAt 0 2 wire = recastMagic ∧ uintAt 2 1 wire = 0 → uintAt 3 1 wire = 0) := by
  constructor
  · rintro ⟨accepted, -, -, -⟩ ⟨id, zero⟩
    have valid : ValidAnnouncement wire := ⟨whole, id, zero⟩
    have taken := (@candidate_haveserv_iff order wire whole {} rfl {}).mpr valid
    have decoded := (accepted {} {} rfl).mp taken
    exact ((decode_ok_iff whole).mp decoded).2
  · intro reserved
    have alike (m : Announce) (decoded : Announce.decode wire = .ok m) :
        ValidAnnouncement wire ∧
          m = ⟨uintAt 8 2 wire, uintAt 12 4 wire, inetNtoa ((wire.drop 4).take 4)⟩ :=
      ⟨((decode_ok_iff whole).mp ⟨m, decoded⟩).1, ((Announce.decode_eq_ok_iff whole m).mp decoded).2⟩
    constructor
    · intro self peer fresh
      rw [candidate_haveserv_iff order whole fresh, decode_ok_iff whole]
      constructor
      · intro valid
        exact ⟨valid, reserved ⟨valid.id, valid.zero⟩⟩
      · intro both
        exact both.1
    · intro self peer m decoded
      obtain ⟨valid, rfl⟩ := alike m decoded
      rw [candidate_valid order self peer valid]
      exact port_serverOf order peer whole
    · intro self peer m decoded
      obtain ⟨valid, rfl⟩ := alike m decoded
      rw [candidate_valid order self peer valid]
      rfl
    · intro self peer m decoded proxied
      obtain ⟨valid, rfl⟩ := alike m decoded
      have named : uintAt 4 4 wire ≠ 0xffffffff := fun direct =>
        proxied (host_of_direct whole direct)
      rw [candidate_valid order self peer valid]
      show inetNtoa ((serverOf order wire peer).address order) = _
      rw [address_serverOf order peer whole, if_neg named]

end ReadAlike

/-- Both sides accept what the server encodes, and get its values back. The host is the one in
dotted decimal. -/
structure RoundTrips (order : ByteOrder) (m : Announce) (addr : List UInt8) : Prop where
  encoded : ∃ wire, m.encode = .ok wire ∧
    Announce.decode wire = .ok { m with host := inetNtoa addr } ∧
    ∀ self peer, ∃ nameserv, candidate order self wire peer =
        { self with nameserv := nameserv, servkey := m.key, haveserv := true } ∧
      nameserv.port order = m.tcpPort ∧
      nameserv.address order =
        if addr = [0xff, 0xff, 0xff, 0xff] then peer.address order else addr

theorem roundTrips (order : ByteOrder) {m : Announce} {addr : List UInt8}
    (host : inetAton m.host = some addr) (port : m.tcpPort < 2 ^ 16) (key : m.key < 2 ^ 32) :
    RoundTrips order m addr := by
  have four : addr.length = 4 := length_inetAton host
  let wire := Announce.wire m.tcpPort m.key addr
  have whole : announceSize ≤ wire.length := Nat.le_of_eq (Announce.length_wire four).symm
  have decoded : Announce.decode wire = .ok { m with host := inetNtoa addr } :=
    Announce.decode_wire four port key
  have valid : ValidAnnouncement wire := ((decode_ok_iff whole).mp ⟨_, decoded⟩).1
  have inside : 4 + 4 ≤ wire.length := Nat.le_trans (by decide) whole
  have field : (wire.drop 4).take 4 = addr := Announce.addr_wire four
  have direct : uintAt 4 4 wire = 0xffffffff ↔ addr = [0xff, 0xff, 0xff, 0xff] := by
    rw [uintAt, field]
    constructor
    · intro all
      have same := ofUInt_toUInt addr
      rw [four, all] at same
      exact same.symm
    · rintro rfl
      rfl
  constructor
  refine ⟨wire, Announce.encode_ok host port key, decoded, ?_⟩
  intro self peer
  refine ⟨serverOf order wire peer, ?_, ?_, ?_⟩
  · rw [candidate_valid order self peer valid, found,
      show uintAt 12 4 wire = m.key from Announce.key_wire four key]
  · rw [port_serverOf order peer whole]
    exact Announce.port_wire four port
  · simp only [address_serverOf order peer whole, field, direct]

/-- Client and server read a datagram alike exactly when its fourth byte is zero where both look at
it, and both read back what is encoded. Every address is the host of its text. -/
theorem readAlike_roundTrips (order : ByteOrder) :
    (∀ wire : List UInt8, announceSize ≤ wire.length →
        (ReadAlike order wire ↔
          (uintAt 0 2 wire = recastMagic ∧ uintAt 2 1 wire = 0 → uintAt 3 1 wire = 0))) ∧
      (∀ m addr, inetAton m.host = some addr → m.tcpPort < 2 ^ 16 → m.key < 2 ^ 32 →
        RoundTrips order m addr) ∧
      ∀ addr : List UInt8, addr.length = 4 → inetAton (inetNtoa addr) = some addr :=
  ⟨fun _ whole => readAlike_iff order whole, fun _ _ => roundTrips order,
    fun _ => inetAton_inetNtoa⟩

theorem readAlike_roundTrips_loopback :
    ReadAlike .little (Announce.wire 5049 7 [127, 0, 0, 1]) ∧
      RoundTrips .little ⟨5049, 7, "127.1"⟩ [127, 0, 0, 1] :=
  ⟨((readAlike_roundTrips .little).1 _ (by decide)).mpr (by decide),
    (readAlike_roundTrips .little).2.1 _ _ (by decide +kernel) (by decide) (by decide)⟩

/-- A one in the byte that clients should ignore. -/
def reservedAnnouncement : List UInt8 :=
  [0x52, 0x43, 0, 1, 10, 0, 0, 1, 0x13, 0xba, 0, 0, 0, 0, 0, 7]

/-- The client accepts it and the server does not. -/
theorem reserved_not_readAlike : announceSize ≤ reservedAnnouncement.length ∧
    (candidate .little {} reservedAnnouncement {}).haveserv = true ∧
    (¬ ∃ m, Announce.decode reservedAnnouncement = .ok m) ∧
    ¬ ReadAlike .little reservedAnnouncement := by
  have whole : announceSize ≤ reservedAnnouncement.length := by decide
  have taken : (candidate .little {} reservedAnnouncement {}).haveserv = true := by decide
  have rejected : ¬ ∃ m, Announce.decode reservedAnnouncement = .ok m := by
    rw [decode_ok_iff whole]
    decide
  exact ⟨whole, taken, rejected, fun alike => rejected ((alike.accepted {} {} rfl).mp taken)⟩

end Recsync.Client
