import Recsync.Client.CasterThread
import Recsync.Client.ReadAlike
import Recsync.Recast.Announcer

set_option autoImplicit false

/- Any number of recceivers that announce themselves, and a client that searches for one. -/
namespace Recsync.System

open Bytes Inet
open Client (Search Phase SockAddrIn UdpEvent UdpSocket ValidAnnouncement announceSize
    doCasterUDPPhase
  found haveCandidate mMsg serverOf sockaddrSize)
open Client.CasterThread (Cycle ThreadState casterCycle casterThread)
open Protocol (Announce)
open Recast (Announcer AnnouncerEvent UdpAddr Written)

/-- A recceiver that is listening, when its announcer is made. -/
structure Beacon where
  /-- where its datagrams come from -/
  peer : SockAddrIn
  tcpport : Nat
  key : Nat
  udpaddrs : Option (List UdpAddr)
  period : Nat
  announcer : Announcer
  made : Announcer.init tcpport key Protocol.broadcastAddress udpaddrs period = .ok announcer
  port_lt : tcpport < 2 ^ 16
  key_lt : key < 2 ^ 32

/-- The announcers, and what the searches of the client have met. -/
structure Discovery where
  announcers : Nat → Announcer
  past : List (List UdpEvent) := []
  heard : List UdpEvent := []

inductive DiscoveryEvent where
  | recceiver (number : Nat) (e : AnnouncerEvent)
  /-- an announcement that was sent reaches the client, once more perhaps -/
  | hears (number : Nat)
  /-- anything else comes up while the client listens -/
  | meets (e : UdpEvent)
  /-- the client starts another search -/
  | again

namespace Discovery

variable (beacons : Nat → Beacon)

/-- The recceiver has sent its announcement somewhere. -/
def Sent (d : Discovery) (i : Nat) : Prop := ∃ addr, (addr, Written.sent) ∈ (d.announcers i).writes

instance (d : Discovery) (i : Nat) : Decidable (d.Sent i) :=
  decidable_of_iff ((d.announcers i).writes.any (fun w => decide (w.2 = .sent)) = true) (by
    simp [Sent])

def start : Discovery where
  announcers i := (beacons i).announcer.startProtocol

/-- The announcement of a recceiver, as a datagram for the client. -/
def announcement (i : Nat) : UdpEvent :=
  .datagram (beacons i).announcer.msg (beacons i).peer sockaddrSize

def step (d : Discovery) : DiscoveryEvent → Discovery
  | .recceiver i e =>
      { d with announcers := Function.update d.announcers i ((d.announcers i).step e) }
  | .hears i => if d.Sent i then { d with heard := d.heard ++ [announcement beacons i] } else d
  | .meets e => { d with heard := d.heard ++ [e] }
  | .again => { d with past := d.past ++ [d.heard], heard := [] }

def run (d : Discovery) (events : List DiscoveryEvent) : Discovery := events.foldl (step beacons) d

def searches (d : Discovery) : List (List UdpEvent) := d.past ++ [d.heard]

end Discovery

section Message

variable (b : Beacon)

theorem Beacon.msg_eq : b.announcer.msg = Announce.wire b.tcpport b.key [0xff, 0xff, 0xff,
    0xff] := by
  have made := b.made
  have text : inetAton Protocol.broadcastAddress = some [0xff, 0xff, 0xff, 0xff] := by decide
  rw [Announcer.init, Announce.encode_ok text b.port_lt b.key_lt] at made
  dsimp only at made
  split at made
  · cases made
  · exact congrArg Announcer.msg (Except.ok.inj made).symm

theorem Beacon.msg_valid : ValidAnnouncement b.announcer.msg := by
  rw [b.msg_eq]
  have four : [0xff, 0xff, 0xff, 0xff].length = 4 := rfl
  have whole : announceSize ≤ (Announce.wire b.tcpport b.key [0xff, 0xff, 0xff, 0xff]).length :=
    Nat.le_of_eq (Announce.length_wire four).symm
  exact ((Client.decode_ok_iff whole).mp ⟨_, Announce.decode_wire four b.port_lt b.key_lt⟩).1

/-- The search has the address of the recceiver and its key. -/
structure Beacon.Is (order : ByteOrder) (b : Beacon) (c : Search) : Prop where
  key : c.servkey = b.key
  port : c.nameserv.port order = b.tcpport
  address : c.nameserv.address order = b.peer.address order

theorem Beacon.found_is (order : ByteOrder) (self : Search) :
    b.Is order (found order self b.announcer.msg b.peer) := by
  have whole := b.msg_valid.whole
  have four : [0xff, 0xff, 0xff, 0xff].length = 4 := rfl
  rw [b.msg_eq] at whole ⊢
  refine ⟨Announce.key_wire four b.key_lt, ?_, ?_⟩
  · exact (Client.port_serverOf order b.peer whole).trans (Announce.port_wire four b.port_lt)
  · refine (Client.address_serverOf order b.peer whole).trans (if_pos ?_)
    rw [uintAt, Announce.addr_wire four]
    rfl

end Message

section Search

variable {order : ByteOrder} {good : Search → Prop}

def searchOf : Phase → Search
  | .listening self => self
  | .returned _ self => self

/-- What is good of a caster without a server and of one that has got an announcement is good in the
end. -/
theorem listen_good {events : List UdpEvent} {self : Search} (start : good self)
    (stops : ∀ c, good c → good { c with shutdown := true })
    (finds : ∀ c wire peer peerlen, .datagram wire peer peerlen ∈ events → ValidAnnouncement wire →
      good (found order c wire peer)) : good (searchOf (Client.listen order self events)) := by
  induction events generalizing self with
  | nil =>
    unfold Client.listen
    split <;> exact start
  | cons event rest ih =>
    have later : ∀ c wire peer peerlen, .datagram wire peer peerlen ∈ rest →
      ValidAnnouncement wire →
        good (found order c wire peer) := fun c wire peer peerlen member =>
      finds c wire peer peerlen (List.mem_cons_of_mem event member)
    unfold Client.listen
    split
    · exact start
    · cases event with
      | timedOut => exact ih start later
      | wouldBlock => exact ih start later
      | shutdown => exact ih (stops self start) later
      | waitFails => exact start
      | recvFails => exact start
      | datagram wire peer peerlen =>
        dsimp only
        split
        · exact start
        · next long =>
          apply ih _ later
          have whole : announceSize ≤ wire.length := by
            rw [List.length_take] at long
            omega
          by_cases valid : ValidAnnouncement wire
          · rw [Client.haveCandidate_valid order self peer valid]
            exact finds self wire peer peerlen List.mem_cons_self valid
          · rw [Client.haveCandidate_invalid order self peer whole valid]
            exact start

theorem doCasterUDPPhase_good {sock : UdpSocket} {self : Search} {events : List UdpEvent}
    (empty : ∀ c, c.haveserv = false → good c)
    (stops : ∀ c, good c → good { c with shutdown := true })
    (finds : ∀ c wire peer peerlen, .datagram wire peer peerlen ∈ events → ValidAnnouncement wire →
      good (found order c wire peer)) :
    good (searchOf (doCasterUDPPhase order sock self events)) := by
  unfold doCasterUDPPhase
  dsimp only
  split
  · exact empty _ rfl
  · split
    · exact empty _ rfl
    · split
      · split
        · exact empty _ rfl
        · exact listen_good (empty _ rfl) stops finds
      · exact listen_good (empty _ rfl) stops finds

/-- A turn of the thread leaves the caster as the search has left it, or does not search. -/
theorem casterCycle_search (order : ByteOrder) (t : ThreadState) (cycle : Cycle) :
    ∃ shutdown, (casterCycle order t cycle).1.search = { t.search with shutdown } ∨
      (casterCycle order t cycle).1.search =
        { searchOf (doCasterUDPPhase order cycle.udp t.search cycle.events) with shutdown } := by
  unfold casterCycle
  dsimp only
  split
  · exact ⟨_, Or.inl rfl⟩
  · split
    · next self phase => exact ⟨self.shutdown, Or.inr (by rw [phase]; rfl)⟩
    · next ret self phase =>
      rw [phase]
      split
      · exact ⟨self.shutdown, Or.inr rfl⟩
      · split
        · exact ⟨self.shutdown, Or.inr rfl⟩
        · split
          · exact ⟨self.shutdown, Or.inr rfl⟩
          · exact ⟨_, Or.inr rfl⟩

theorem casterThread_good {cycles : List Cycle} {t : ThreadState} (start : good t.search)
    (empty : ∀ c, c.haveserv = false → good c)
    (stops : ∀ c shutdown, good c → good { c with shutdown })
    (finds : ∀ cycle ∈ cycles, ∀ c wire peer peerlen, .datagram wire peer peerlen ∈ cycle.events →
      ValidAnnouncement wire → good (found order c wire peer)) :
    good (casterThread order cycles t).search := by
  induction cycles generalizing t with
  | nil => exact start
  | cons cycle rest ih =>
    rw [List.forall_mem_cons] at finds
    have next : good (casterCycle order t cycle).1.search := by
      have phase := @doCasterUDPPhase_good order good cycle.udp t.search cycle.events empty
        (fun c => stops c true) finds.1
      obtain ⟨shutdown, same | same⟩ := casterCycle_search order t cycle
      · rw [same]
        exact stops _ _ start
      · rw [same]
        exact stops _ _ phase
    rw [casterThread]
    split
    · next t' ends =>
      rw [ends] at next
      exact ih next finds.2
    · next t' ends =>
      rw [ends] at next
      exact next

/-- A search that nothing disturbs ends with the first announcement, and goes on until it comes. -/
theorem listen_decides (order : ByteOrder) {self : Search} (fresh : self.haveserv = false)
    (running : self.shutdown = false) {events : List UdpEvent}
    (calm : ∀ e ∈ events, e.Calm ∧ e.Whole) :
    (∃ e ∈ events, e.Announces) ∧ (∃ c, Client.listen order self events = .returned 0 c ∧
      c.haveserv = true) ∨
      (∀ e ∈ events, ¬ e.Announces) ∧ Client.listen order self events = .listening self := by
  induction events with
  | nil => exact Or.inr ⟨fun e member => absurd member List.not_mem_nil,
      Client.listen_nil order fresh running⟩
  | cons e rest ih =>
    rw [List.forall_mem_cons] at calm
    by_cases announces : e.Announces
    · refine Or.inl ⟨⟨e, List.mem_cons_self, announces⟩, ?_⟩
      cases e with
      | datagram wire peer peerlen =>
        exact ⟨_, Client.listen_announces order fresh running calm.1.1 announces rest, rfl⟩
      | timedOut => exact absurd announces not_false
      | wouldBlock => exact absurd announces not_false
      | shutdown => exact absurd announces not_false
      | waitFails => exact absurd announces not_false
      | recvFails => exact absurd announces not_false
    · rw [Client.listen_whole order fresh running calm.1.1 announces calm.1.2]
      rcases ih calm.2 with ⟨⟨e', member, found⟩, ends⟩ | ⟨none, listening⟩
      · exact Or.inl ⟨⟨e', List.mem_cons_of_mem e member, found⟩, ends⟩
      · exact Or.inr ⟨List.forall_mem_cons.mpr ⟨announces, none⟩, listening⟩

end Search

namespace Discovery

variable {beacons : Nat → Beacon} {d : Discovery} {order : ByteOrder}

/-- The server of the caster, if it has one, is a recceiver that has announced itself. -/
def Finds (beacons : Nat → Beacon) (order : ByteOrder) (d : Discovery) (c : Search) : Prop :=
  c.haveserv = true → ∃ i, d.Sent i ∧ (beacons i).Is order c

/-- Whatever announces a server to the client comes from a recceiver. -/
def Heard (beacons : Nat → Beacon) (d : Discovery) : Prop :=
  ∀ l ∈ d.searches, ∀ wire peer peerlen, .datagram wire peer peerlen ∈ l → ValidAnnouncement wire →
    ∃ i, d.Sent i ∧ wire = (beacons i).announcer.msg ∧ peer = (beacons i).peer

theorem sent_step (e : DiscoveryEvent) {i : Nat} (sent : d.Sent i) : (d.step beacons e).Sent i := by
  cases e with
  | recceiver j e =>
    obtain ⟨addr, member⟩ := sent
    refine ⟨addr, ?_⟩
    show _ ∈ (Function.update d.announcers j _ i).writes
    by_cases same : i = j
    · subst same
      obtain ⟨more, grown⟩ := Announcer.step_rounds (d.announcers i) e
      rw [Function.update_self, Announcer.writes, ← grown, List.flatMap_append]
      exact List.mem_append_left _ member
    · rw [Function.update_of_ne same]
      exact member
  | hears j =>
    rw [step]
    split <;> exact sent
  | meets e => exact sent
  | again => exact sent

theorem searches_step (d : Discovery) (e : DiscoveryEvent) {l : List UdpEvent}
    (member : l ∈ (d.step beacons e).searches) :
    l ∈ d.searches ∨ l = [] ∨ ∃ event, l = d.heard ++ [event] ∧
      (e = .meets event ∨ ∃ i, d.Sent i ∧ event = announcement beacons i) := by
  have past (other : List UdpEvent) (inside : l ∈ d.past ++ [other]) :
    l ∈ d.searches ∨ l = other := by
    rcases List.mem_append.mp inside with old | new
    · exact Or.inl (List.mem_append_left _ old)
    · exact Or.inr (List.mem_singleton.mp new)
  cases e with
  | recceiver j e => exact Or.inl member
  | hears i =>
    rw [step] at member
    split at member
    · next sent =>
      rcases past _ member with old | new
      · exact Or.inl old
      · exact Or.inr (Or.inr ⟨_, new, Or.inr ⟨i, sent, rfl⟩⟩)
    · exact Or.inl member
  | meets e =>
    rcases past _ member with old | new
    · exact Or.inl old
    · exact Or.inr (Or.inr ⟨e, new, Or.inl rfl⟩)
  | again =>
    rcases List.mem_append.mp member with old | new
    · exact Or.inl old
    · exact Or.inr (Or.inl (List.mem_singleton.mp new))

theorem Heard.step (heard : d.Heard beacons) {e : DiscoveryEvent}
    (foreign : ∀ event, e = .meets event → ¬ event.Announces) :
    (d.step beacons e).Heard beacons := by
  intro l member wire peer peerlen inside valid
  have before (l : List UdpEvent) (old : l ∈ d.searches)
    (inside : .datagram wire peer peerlen ∈ l) :
      ∃ i, (d.step beacons e).Sent i ∧ wire = (beacons i).announcer.msg ∧
        peer = (beacons i).peer := by
    obtain ⟨i, sent, same⟩ := heard l old wire peer peerlen inside valid
    exact ⟨i, sent_step e sent, same⟩
  rcases searches_step d e member with old | rfl | ⟨event, rfl, new⟩
  · exact before l old inside
  · cases inside
  · rcases List.mem_append.mp inside with old | last
    · exact before d.heard (List.mem_append_right _ List.mem_cons_self) old
    · obtain rfl := List.mem_singleton.mp last
      rcases new with met | ⟨i, sent, same⟩
      · exact absurd valid (foreign _ met)
      · obtain ⟨rfl, rfl, -⟩ := UdpEvent.datagram.inj same
        exact ⟨i, sent_step e sent, rfl, rfl⟩

theorem Heard.run {events : List DiscoveryEvent}
    (foreign : ∀ event, .meets event ∈ events → ¬ event.Announces) :
    ((start beacons).run beacons events).Heard beacons := by
  induction events using List.reverseRecOn with
  | nil =>
    intro l member wire peer peerlen inside
    obtain rfl := List.mem_singleton.mp member
    cases inside
  | append_singleton events e ih =>
    rw [Discovery.run, List.foldl_concat]
    refine (ih fun event member => foreign event (List.mem_append_left _ member)).step ?_
    rintro event rfl
    exact foreign event (by simp)

end Discovery

/-- However the announcements of any number of recceivers are lost, repeated and mixed with other
traffic, and however often the client searches: the only servers that the thread of the client has
are recceivers that have announced themselves, with the address, the port and the key of one of
them; and a search that nothing disturbs goes on until the first announcement comes and ends with
it. -/
theorem discovery_finds (beacons : Nat → Beacon) (order : ByteOrder) {events : List DiscoveryEvent}
    (foreign : ∀ event, .meets event ∈ events → ¬ event.Announces) :
    let d := (Discovery.start beacons).run beacons events
    (∀ cycles : List Cycle, (∀ cycle ∈ cycles, cycle.events ∈ d.searches) →
        d.Finds beacons order (casterThread order cycles {}).search) ∧
      ∀ l ∈ d.searches, (∀ e ∈ l, e.Calm ∧ e.Whole) → ∀ (sock : UdpSocket) (self : Search),
        sock.Ready self → self.shutdown = false →
          (∃ e ∈ l, e.Announces) ∧ (∃ c, doCasterUDPPhase order sock self l = .returned 0 c ∧
              ∃ i, d.Sent i ∧ (beacons i).Is order c) ∨
            (∀ e ∈ l, ¬ e.Announces) ∧
              doCasterUDPPhase order sock self l = .listening (Client.started sock self) := by
  intro d
  have heard : d.Heard beacons := .run foreign
  have finds (l : List UdpEvent) (member : l ∈ d.searches) (c : Search) (wire : List UInt8)
      (peer : SockAddrIn) (peerlen : Nat) (inside : .datagram wire peer peerlen ∈ l)
      (valid : ValidAnnouncement wire) : d.Finds beacons order (found order c wire peer) := by
    intro _
    obtain ⟨i, sent, rfl, rfl⟩ := heard l member wire peer peerlen inside valid
    exact ⟨i, sent, (beacons i).found_is order c⟩
  have empty (c : Search) (none : c.haveserv = false) : d.Finds beacons order c := by
    intro some
    exact absurd (none.symm.trans some) Bool.false_ne_true
  have stops (c : Search) (shutdown : Bool) (good : d.Finds beacons order c) :
      d.Finds beacons order { c with shutdown } := by
    intro some
    obtain ⟨i, sent, ⟨key, port, address⟩⟩ := good some
    exact ⟨i, sent, key, port, address⟩
  constructor
  · intro cycles met
    exact casterThread_good (empty _ rfl) empty stops fun cycle member =>
      finds cycle.events (met cycle member)
  · intro l member calm sock self ready running
    have phase := @doCasterUDPPhase_good order (d.Finds beacons order) sock self l empty
      (fun c => stops c true) (finds l member)
    rw [Client.doCasterUDPPhase_ready order ready] at phase ⊢
    rcases @listen_decides order (Client.started sock self) rfl running _ calm with
      ⟨announced, c, ends, some⟩ | goes
    · rw [ends] at phase
      exact Or.inl ⟨announced, c, ends, phase some⟩
    · exact Or.inr goes

/-- Recceivers that announce themselves to everyone every fifteen seconds. -/
def officeBeacon (i : Nat) : Beacon where
  peer := ⟨0x0100000a + i, 5049⟩
  tcpport := 38911
  key := 7
  udpaddrs := none
  period := 15
  announcer :=
    { msg := Announce.wire 38911 7 [0xff, 0xff, 0xff, 0xff]
      delay := 15
      udps := [⟨"<broadcast>", Recast.announcePort⟩] }
  made := rfl
  port_lt := by decide
  key_lt := by decide

/-- The first announcement is lost, then there is a datagram of another protocol, a short one that
ends the search, and at last an announcement in the second search. -/
def secondSearch : List DiscoveryEvent :=
  [.recceiver 0 (.fires fun _ => .sent),
    .meets (.datagram (List.replicate 40 1) ⟨0x0300000a, 9⟩ 16),
    .meets (.datagram [] ⟨0x0300000a, 9⟩ 16), .again, .recceiver 1 (.fires fun _ => .sent),
    .meets .timedOut, .hears 1]

theorem discovery_finds_second :
    let d := (Discovery.start officeBeacon).run officeBeacon secondSearch
    ∃ cycles : List Cycle, cycles.map Cycle.events = d.searches ∧
      (casterThread .little cycles {}).search.haveserv = true ∧
      ∃ i, d.Sent i ∧ (officeBeacon i).Is .little (casterThread .little cycles {}).search := by
  intro d
  have foreign : ∀ event, .meets event ∈ secondSearch → ¬ event.Announces := by
    intro event member
    simp only [secondSearch, List.mem_cons, List.not_mem_nil, DiscoveryEvent.meets.injEq,
      reduceCtorEq,
      or_false, false_or] at member
    rcases member with rfl | rfl | rfl
    · exact fun valid => absurd (show ValidAnnouncement _ from valid) (by decide)
    · exact fun valid => absurd (show ValidAnnouncement _ from valid) (by decide)
    · exact not_false
  have finds := (discovery_finds officeBeacon .little foreign).1
    (d.searches.map fun l => { events := l }) (by simp +contextual [d])
  have some : (casterThread .little (d.searches.map fun l => { events := l }) {}).search.haveserv =
      true := by decide +kernel
  exact ⟨_, by simp [Function.comp_def], some, finds some⟩

end Recsync.System
