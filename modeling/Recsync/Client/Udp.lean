import Recsync.Client.Caster
import Recsync.Protocol.Announce

set_option autoImplicit false

/- The search for a server: `castudp.c`. -/
namespace Recsync.Client

open Bytes Inet
open Protocol (Announce)

/-- `casterAnnounce`, with the integers as the machine reads them. -/
structure CasterAnnounce where
  pid : Nat
  version : UInt8
  serverIP : Nat
  serverPort : Nat
  serverKey : Nat

/-- The sixteen bytes of a `casterUDP`, read as a `casterAnnounce`. -/
def mMsg (order : ByteOrder) (mBytes : List UInt8) : CasterAnnounce where
  pid := load order ((mBytes.drop 0).take 2)
  version := (mBytes[2]?).getD 0
  serverIP := load order ((mBytes.drop 4).take 4)
  serverPort := load order ((mBytes.drop 8).take 2)
  serverKey := load order ((mBytes.drop 12).take 4)

/-- A `sockaddr_in`; both fields are in network order. -/
structure SockAddrIn where
  sinAddr : Nat := 0
  sinPort : Nat := 0
  deriving DecidableEq, Repr

/-- The IPv4 address, as its four bytes. -/
def SockAddrIn.address (order : ByteOrder) (sa : SockAddrIn) : List UInt8 :=
  ofUInt 4 (ntoh order 4 sa.sinAddr)

def SockAddrIn.port (order : ByteOrder) (sa : SockAddrIn) : Nat := ntoh order 2 sa.sinPort

/-- What the search reads and writes of a `caster_t`. -/
structure Search where
  udpport : Nat := 5049
  haveserv : Bool := false
  nameserv : SockAddrIn := {}
  servkey : Nat := 0
  shutdown : Bool := false
  deriving DecidableEq, Repr

def haveCandidate (order : ByteOrder) (self : Search) (buf : CasterAnnounce) (peer : SockAddrIn) :
    Search :=
  if ntoh order 2 buf.pid ≠ recastMagic then self
  else if ntoh order 2 (load order [buf.version]) ≠ 0 then self
  else
    let sinAddr := if ntoh order 4 buf.serverIP = 0xffffffff then peer.sinAddr else buf.serverIP
    { self with
      nameserv := ⟨sinAddr, buf.serverPort⟩
      servkey := ntoh order 4 buf.serverKey
      haveserv := true }

/-- What the listen loop meets. -/
inductive UdpEvent where
  /-- a datagram, and the length of the address of its sender -/
  | datagram (bytes : List UInt8) (peer : SockAddrIn) (peerlen : Nat)
  /-- `shWaitFor` reports a timeout -/
  | timedOut
  /-- `recvfrom` finds nothing -/
  | wouldBlock
  /-- `casterShutdown` is called, which ends the wait like a timeout -/
  | shutdown
  /-- `shWaitFor` or `recvfrom` fails -/
  | waitFails
  | recvFails

/-- How far the phase has come. -/
inductive Phase where
  | listening (self : Search)
  | returned (ret : Int) (self : Search)
  deriving DecidableEq, Repr

/-- `sizeof(casterAnnounce)`, the size of the buffer. -/
def announceSize : Nat := 16

/-- `sizeof(peer.ia)`. -/
def sockaddrSize : Nat := 16

/-- The listen loop of `doCasterUDPPhase`. A datagram is cut off to the buffer. -/
def listen (order : ByteOrder) (self : Search) : List UdpEvent → Phase
  | [] => if self.haveserv ∨ self.shutdown then .returned 0 self else .listening self
  | event :: rest =>
    if self.haveserv ∨ self.shutdown then .returned 0 self
    else
      match event with
      | .timedOut => listen order self rest
      | .wouldBlock => listen order self rest
      | .shutdown => listen order { self with shutdown := true } rest
      | .waitFails => .returned (-1) self
      | .recvFails => .returned (-1) self
      | .datagram bytes peer peerlen =>
        let mBytes := bytes.take announceSize
        if peerlen < sockaddrSize ∨ mBytes.length < announceSize then .returned (-1) self
        else listen order (haveCandidate order self (mMsg order mBytes) peer) rest

/-- How the UDP socket gets ready: it is created and bound, and has a port. -/
structure UdpSocket where
  created : Bool := true
  bound : Bool := true
  name : Option Nat := some 5049

def doCasterUDPPhase (order : ByteOrder) (sock : UdpSocket) (self : Search)
    (events : List UdpEvent) : Phase :=
  let self := { self with haveserv := false }
  if ¬ sock.created then .returned (-1) self
  else if ¬ sock.bound then .returned (-1) self
  else if self.udpport = 0 then
    match sock.name with
    | none => .returned (-1) self
    | some port => listen order { self with udpport := port } events
  else listen order self events

section Fields

variable {wire : List UInt8}

theorem uintAt_take {offset width size : Nat} (inside : offset + width ≤ size) :
    uintAt offset width (wire.take size) = uintAt offset width wire := by
  rw [uintAt, uintAt, List.drop_take, List.take_take, Nat.min_eq_left (by omega)]

theorem uintAt_one {offset : Nat} (inside : offset < wire.length) :
    uintAt offset 1 wire = wire[offset].toNat := by
  rw [uintAt, List.drop_eq_getElem_cons inside, List.take_succ_cons, List.take_zero]
  simp [toUInt]

/-- A short integer is zero when both of its bytes are. -/
theorem uintAt_two_eq_zero {offset : Nat} (inside : offset + 2 ≤ wire.length) :
    uintAt offset 2 wire = 0 ↔ uintAt offset 1 wire = 0 ∧ uintAt (offset + 1) 1 wire = 0 := by
  have first : offset < wire.length := by omega
  have second : offset + 1 < wire.length := by omega
  rw [uintAt_one first, uintAt_one second, uintAt, List.drop_eq_getElem_cons first,
    List.drop_eq_getElem_cons second, List.take_succ_cons, List.take_succ_cons, List.take_zero]
  simp only [toUInt, List.length_cons, List.length_nil]
  omega

variable (order : ByteOrder) (whole : announceSize ≤ wire.length)
include whole

theorem ntoh_mMsg {offset width : Nat} (inside : offset + width ≤ announceSize) :
    ntoh order width (load order (((wire.take announceSize).drop offset).take width)) =
      uintAt offset width wire := by
  have size : (wire.take announceSize).length = announceSize := List.length_take_of_le whole
  rw [ntoh_load_at order (by omega), uintAt_take inside]

theorem version_mMsg : ntoh order 2 (load order [(mMsg order (wire.take announceSize)).version]) = 0 ↔
    uintAt 2 1 wire = 0 := by
  have inside : 2 < wire.length := Nat.lt_of_lt_of_le (by decide) whole
  have byte : (mMsg order (wire.take announceSize)).version = wire[2] := by
    rw [mMsg, List.getElem?_take_of_lt (by decide), List.getElem?_eq_getElem inside,
      Option.getD_some]
  rw [ntoh_byte_eq_zero, byte, uintAt_one inside, ← UInt8.toNat_inj]
  rfl

end Fields

/-- At least sixteen bytes with the id and a zero after it. -/
structure ValidAnnouncement (wire : List UInt8) : Prop where
  whole : announceSize ≤ wire.length
  id : uintAt 0 2 wire = recastMagic
  zero : uintAt 2 1 wire = 0

instance (wire : List UInt8) : Decidable (ValidAnnouncement wire) :=
  decidable_of_iff (announceSize ≤ wire.length ∧ uintAt 0 2 wire = recastMagic ∧
    uintAt 2 1 wire = 0) ⟨fun ⟨whole, id, zero⟩ => ⟨whole, id, zero⟩,
      fun valid => ⟨valid.whole, valid.id, valid.zero⟩⟩

/-- The server of a valid announcement: the address in it, or that of the sender. -/
def serverOf (order : ByteOrder) (wire : List UInt8) (peer : SockAddrIn) : SockAddrIn where
  sinAddr :=
    if uintAt 4 4 wire = 0xffffffff then peer.sinAddr else load order ((wire.drop 4).take 4)
  sinPort := load order ((wire.drop 8).take 2)

/-- The search after a valid announcement. -/
def found (order : ByteOrder) (self : Search) (wire : List UInt8) (peer : SockAddrIn) : Search :=
  { self with
    nameserv := serverOf order wire peer
    servkey := uintAt 12 4 wire
    haveserv := true }

section HaveCandidate

variable (order : ByteOrder) (self : Search) {wire : List UInt8} (peer : SockAddrIn)

theorem haveCandidate_valid (valid : ValidAnnouncement wire) :
    haveCandidate order self (mMsg order (wire.take announceSize)) peer =
      found order self wire peer := by
  have whole := valid.whole
  have id : ntoh order 2 (mMsg order (wire.take announceSize)).pid = recastMagic :=
    (ntoh_mMsg order whole (by decide : 0 + 2 ≤ announceSize)).trans valid.id
  have zero := (version_mMsg order whole).mpr valid.zero
  have address : ntoh order 4 (mMsg order (wire.take announceSize)).serverIP = uintAt 4 4 wire :=
    ntoh_mMsg order whole (by decide : 4 + 4 ≤ announceSize)
  have key : ntoh order 4 (mMsg order (wire.take announceSize)).serverKey = uintAt 12 4 wire :=
    ntoh_mMsg order whole (by decide : 12 + 4 ≤ announceSize)
  rw [haveCandidate, if_neg (not_not_intro id), if_neg (not_not_intro zero), address, key]
  simp [found, serverOf, mMsg, announceSize, List.drop_take, List.take_take]

theorem haveCandidate_invalid (whole : announceSize ≤ wire.length)
    (invalid : ¬ ValidAnnouncement wire) :
    haveCandidate order self (mMsg order (wire.take announceSize)) peer = self := by
  have id : ntoh order 2 (mMsg order (wire.take announceSize)).pid = uintAt 0 2 wire :=
    ntoh_mMsg order whole (by decide : 0 + 2 ≤ announceSize)
  rw [haveCandidate, id]
  by_cases magic : uintAt 0 2 wire = recastMagic
  · have nonzero : uintAt 2 1 wire ≠ 0 := fun zero => invalid ⟨whole, magic, zero⟩
    rw [if_neg (not_not_intro magic), if_pos (mt (version_mMsg order whole).mp nonzero)]
  · rw [if_pos magic]

end HaveCandidate

namespace UdpEvent

/-- Neither a socket error nor a shutdown; a datagram comes from an IPv4 peer. -/
def Calm : UdpEvent → Prop
  | .datagram _ _ peerlen => sockaddrSize ≤ peerlen
  | .timedOut => True
  | .wouldBlock => True
  | _ => False

def Announces : UdpEvent → Prop
  | .datagram bytes _ _ => ValidAnnouncement bytes
  | _ => False

/-- A datagram that fills the buffer. -/
def Whole : UdpEvent → Prop
  | .datagram bytes _ _ => announceSize ≤ bytes.length
  | _ => True

instance : (event : UdpEvent) → Decidable event.Whole
  | .datagram bytes _ _ => inferInstanceAs (Decidable (announceSize ≤ bytes.length))
  | .timedOut => isTrue trivial
  | .wouldBlock => isTrue trivial
  | .shutdown => isTrue trivial
  | .waitFails => isTrue trivial
  | .recvFails => isTrue trivial

end UdpEvent

section Listen

variable (order : ByteOrder) {self : Search} (fresh : self.haveserv = false)
  (running : self.shutdown = false)
include fresh running

theorem listen_nil : listen order self [] = .listening self := by
  simp [listen, fresh, running]

/-- Whatever is not an announcement is passed over, if it fills the buffer. -/
theorem listen_whole {event : UdpEvent} (calm : event.Calm) (other : ¬ event.Announces)
    (whole : event.Whole) (rest : List UdpEvent) :
    listen order self (event :: rest) = listen order self rest := by
  cases event with
  | datagram bytes peer peerlen =>
    have full : (bytes.take announceSize).length = announceSize := List.length_take_of_le whole
    have same := haveCandidate_invalid order self peer whole other
    have enough : ¬ (peerlen < sockaddrSize ∨ (bytes.take announceSize).length < announceSize) := by
      rw [full]
      exact not_or.mpr ⟨Nat.not_lt.mpr calm, Nat.lt_irrefl _⟩
    rw [listen]
    simp only [fresh, running, Bool.false_eq_true, or_self, if_false, enough, same]
  | timedOut => simp [listen, fresh, running]
  | wouldBlock => simp [listen, fresh, running]
  | shutdown => exact calm.elim
  | waitFails => exact calm.elim
  | recvFails => exact calm.elim

/-- A datagram that is too short ends the phase with the `ret` of the function. -/
theorem listen_short {event : UdpEvent} (short : ¬ event.Whole) (rest : List UdpEvent) :
    listen order self (event :: rest) = .returned (-1) self := by
  cases event with
  | datagram bytes peer peerlen =>
    have cut : (bytes.take announceSize).length < announceSize := by
      rw [List.length_take]
      exact Nat.lt_of_le_of_lt (Nat.min_le_right _ _) (Nat.not_le.mp short)
    rw [listen]
    simp only [fresh, running, Bool.false_eq_true, or_self, if_false, cut, or_true, if_true]
  | timedOut => exact absurd trivial short
  | wouldBlock => exact absurd trivial short
  | shutdown => exact absurd trivial short
  | waitFails => exact absurd trivial short
  | recvFails => exact absurd trivial short

theorem listen_announces {wire : List UInt8} {peer : SockAddrIn} {peerlen : Nat}
    (address : sockaddrSize ≤ peerlen) (valid : ValidAnnouncement wire) (rest : List UdpEvent) :
    listen order self (.datagram wire peer peerlen :: rest) =
      .returned 0 (found order self wire peer) := by
  have full : (wire.take announceSize).length = announceSize := List.length_take_of_le valid.whole
  have enough : ¬ (peerlen < sockaddrSize ∨ (wire.take announceSize).length < announceSize) := by
    rw [full]
    exact not_or.mpr ⟨Nat.not_lt.mpr address, Nat.lt_irrefl _⟩
  have ended (events : List UdpEvent) :
      listen order (found order self wire peer) events = .returned 0 (found order self wire peer) := by
    cases events <;> simp [listen, found]
  rw [listen]
  simp only [fresh, running, Bool.false_eq_true, or_self, if_false, enough,
    haveCandidate_valid order self peer valid]
  exact ended rest

theorem listen_before {before : List UdpEvent} (calm : ∀ event ∈ before, event.Calm)
    (others : ∀ event ∈ before, ¬ event.Announces) (whole : ∀ event ∈ before, event.Whole)
    (rest : List UdpEvent) : listen order self (before ++ rest) = listen order self rest := by
  induction before with
  | nil => rfl
  | cons event before ih =>
    rw [List.forall_mem_cons] at calm others whole
    rw [List.cons_append, listen_whole order fresh running calm.1 others.1 whole.1]
    exact ih calm.2 others.2 whole.2

theorem listen_before_short {before : List UdpEvent} (calm : ∀ event ∈ before, event.Calm)
    (others : ∀ event ∈ before, ¬ event.Announces) (short : ¬ ∀ event ∈ before, event.Whole)
    (rest : List UdpEvent) : listen order self (before ++ rest) = .returned (-1) self := by
  induction before with
  | nil => exact absurd (by simp) short
  | cons event before ih =>
    rw [List.forall_mem_cons] at calm others short
    rw [List.cons_append]
    by_cases whole : event.Whole
    · rw [listen_whole order fresh running calm.1 others.1 whole]
      exact ih calm.2 others.2 fun all => short ⟨whole, all⟩
    · exact listen_short order fresh running whole (before ++ rest)

end Listen

/-- The socket is created and bound and its port is known. -/
structure UdpSocket.Ready (sock : UdpSocket) (caster : Search) : Prop where
  created : sock.created = true
  bound : sock.bound = true
  named : caster.udpport = 0 → sock.name.isSome

def started (sock : UdpSocket) (self : Search) : Search :=
  { self with
    haveserv := false
    udpport := if self.udpport = 0 then sock.name.getD 0 else self.udpport }

theorem doCasterUDPPhase_ready (order : ByteOrder) {sock : UdpSocket} {self : Search}
    (ready : sock.Ready self) (events : List UdpEvent) :
    doCasterUDPPhase order sock self events = listen order (started sock self) events := by
  by_cases unnamed : self.udpport = 0
  · obtain ⟨port, named⟩ := Option.isSome_iff_exists.mp (ready.named unnamed)
    simp [doCasterUDPPhase, started, ready.created, ready.bound, unnamed, named]
  · simp [doCasterUDPPhase, started, ready.created, ready.bound, unnamed]

/-- The phase ends with the server of the announcement, and until then nothing changes. -/
structure FindsServer (order : ByteOrder) (sock : UdpSocket) (caster : Search)
    (before : List UdpEvent) (wire : List UInt8) (peer : SockAddrIn)
    (events : List UdpEvent) : Prop where
  returned : doCasterUDPPhase order sock caster events =
    .returned 0 (found order (started sock caster) wire peer)
  unchanged : ∀ earlier, earlier <+: before →
    doCasterUDPPhase order sock caster earlier = .listening (started sock caster)

/-- The first valid announcement is found exactly when no datagram before it is too short. -/
theorem doCasterUDPPhase_finds_iff (order : ByteOrder) {sock : UdpSocket} {self : Search}
    (ready : sock.Ready self) (running : self.shutdown = false) {before : List UdpEvent}
    (calm : ∀ event ∈ before, event.Calm) (others : ∀ event ∈ before, ¬ event.Announces)
    {wire : List UInt8} (valid : ValidAnnouncement wire) (peer : SockAddrIn) {peerlen : Nat}
    (address : sockaddrSize ≤ peerlen) (after : List UdpEvent) :
    FindsServer order sock self before wire peer
        (before ++ .datagram wire peer peerlen :: after) ↔
      ∀ event ∈ before, event.Whole := by
  have fresh : (started sock self).haveserv = false := rfl
  constructor
  · intro finds
    apply Decidable.byContradiction
    intro short
    have ended := listen_before_short order fresh running calm others short
      (.datagram wire peer peerlen :: after)
    rw [← doCasterUDPPhase_ready order ready, finds.returned] at ended
    cases ended
  · intro whole
    constructor
    · rw [doCasterUDPPhase_ready order ready, listen_before order fresh running calm others whole,
        listen_announces order fresh running address valid]
    · rintro earlier ⟨rest, rfl⟩
      simp only [List.mem_append, or_imp, forall_and] at calm others whole
      have passed := listen_before order fresh running calm.1 others.1 whole.1 []
      rw [List.append_nil] at passed
      rw [doCasterUDPPhase_ready order ready, passed, listen_nil order fresh running]

/-- A datagram of another protocol, then the announcement of a server for its own address. -/
theorem doCasterUDPPhase_finds_iff_foreign :
    FindsServer .little {} {} [.datagram (List.replicate 40 1) ⟨0x0100000a, 0⟩ 16]
      (Announce.wire 5049 7 [255, 255, 255, 255]) ⟨0x0200000a, 0⟩
      ([.datagram (List.replicate 40 1) ⟨0x0100000a, 0⟩ 16] ++
        [.datagram (Announce.wire 5049 7 [255, 255, 255, 255]) ⟨0x0200000a, 0⟩ 16]) := by
  apply (doCasterUDPPhase_finds_iff .little ⟨rfl, rfl, fun zero => by cases zero⟩ rfl
    ?_ ?_ (by decide) ⟨0x0200000a, 0⟩ (by decide) []).mpr
  · decide
  · simp only [List.forall_mem_singleton]
    exact show sockaddrSize ≤ 16 by decide
  · simp only [List.forall_mem_singleton]
    exact show ¬ ValidAnnouncement (List.replicate 40 1) by decide

/-- An empty datagram before the announcement ends the phase without a server. -/
theorem empty_datagram_ends :
    doCasterUDPPhase .little {} {} [.datagram [] ⟨0x0100000a, 0⟩ 16,
        .datagram (Announce.wire 5049 7 [10, 0, 0, 2]) ⟨0x0200000a, 0⟩ 16] =
      .returned (-1) {} ∧
    ¬ FindsServer .little {} {} [.datagram [] ⟨0x0100000a, 0⟩ 16]
      (Announce.wire 5049 7 [10, 0, 0, 2]) ⟨0x0200000a, 0⟩
      [.datagram [] ⟨0x0100000a, 0⟩ 16,
        .datagram (Announce.wire 5049 7 [10, 0, 0, 2]) ⟨0x0200000a, 0⟩ 16] := by
  have ended : doCasterUDPPhase .little {} {} [.datagram [] ⟨0x0100000a, 0⟩ 16,
      .datagram (Announce.wire 5049 7 [10, 0, 0, 2]) ⟨0x0200000a, 0⟩ 16] = .returned (-1) {} := by
    decide
  refine ⟨ended, fun finds => ?_⟩
  rw [finds.returned] at ended
  cases ended

end Recsync.Client
