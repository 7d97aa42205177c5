import Mathlib.Data.List.TakeWhile
import Recsync.Client.Configure
import Recsync.Client.Sockhelpers
import Recsync.Client.Udp

set_option autoImplicit false

/- The thread of the caster, which searches for a server, connects to it and starts again:
`caster.c` and `casttcp.c`. -/
namespace Recsync.Client.CasterThread

open Arrivals Bytes Inet Sockhelpers
open Configure (CasterState)

def casterSendPHead (s : Sock) (id blen : Nat) : Option Int × Sock :=
  Sockhelpers.shSendAll s (packedHead id blen)

/-- What `casterRecvPMsg` gives back: its result, the id and the buffer. -/
structure Message where
  ret : Int
  msgid : Nat
  buf : List UInt8

/-- The end of `casterRecvPMsg`, after the front of the body was read. -/
def recvRest (m : Message) (s : Sock) (len blen : Nat) : Option Message × Sock :=
  if m.ret ≤ 0 then (some { m with ret := -1 }, s)
  else if len < blen then
    let (ret, s) := Sockhelpers.shRecvIgnore s (blen - len)
    (ret.map fun ret => if ret ≤ 0 then { m with ret := -1 } else m, s)
  else (some m, s)

/-- `casterRecvPMsg` after the header. -/
def recvBody (s : Sock) (msgid blen : Nat) (buf : List UInt8) : Option Message × Sock :=
  let len := buf.length
  let (ret, buf, s) := Sockhelpers.shRecvExact s buf (if len < blen then len else blen)
  match ret with
  | none => (none, s)
  | some ret => recvRest ⟨ret, msgid, buf⟩ s len blen

/-- `casterRecvPMsg`, or none as long as it waits. A `ssize_t` has 64 bits, so that no body length
is negative. -/
def casterRecvPMsg (s : Sock) (msgid : Nat) (buf : List UInt8) : Option Message × Sock :=
  let (ret, hbuf, s) := Sockhelpers.shRecvExact s (List.replicate 8 0) 8
  match ret with
  | none => (none, s)
  | some ret =>
    if ret ≠ 8 then (some ⟨ret, msgid, buf⟩, s)
    else if uintAt 0 2 hbuf ≠ recastMagic then (some ⟨-1, msgid, buf⟩, s)
    else recvBody s (uintAt 2 2 hbuf) (uintAt 4 4 hbuf) buf

/-- How the TCP phase has ended. -/
structure TcpReturn where
  ret : Int := -1
  /-- the `current` of the caster -/
  current : CasterState
  /-- the last thing that came was the end of the stream, between two messages -/
  closed : Bool := false
  /-- the shutdown flag was read as set -/
  shutdown : Bool := false
  /-- the format of the message -/
  msg : String := ""

/-- `if(call!=1) ERRTO(done, ...)`. The phase has not ended as long as the call does not return. -/
def unlessSent (call : Option Int × Sock) (failed : TcpReturn) (next : Sock → Option TcpReturn) :
    Option TcpReturn :=
  match call with
  | (none, _) => none
  | (some ret, s) => if ret ≠ 1 then some failed else next s

/-- The loop of `doCasterTCPPhase` that waits for pings. The flags are what its reads of
`self->shutdown` find. -/
def pingLoop (msgid : Nat) (buf : List UInt8) (s : Sock) : List Bool → Option TcpReturn
  | [] => none
  | shutdown :: rest =>
    if shutdown then some { ret := 0, current := .done, shutdown }
    else
      match casterRecvPMsg s msgid buf with
      | (none, _) => none
      | (some m, s') =>
        let closed := s'.closed && decide (s'.stream = s.stream)
        let err := s'.errno
        if m.ret = 0 then some { ret := 0, current := .done, closed }
        else if m.ret < 0 ∧ (err = .econnreset ∨ err = .econnaborted) then
          some { current := .done, closed, msg := "RecCaster connection closed by peer" }
        else if m.ret < 0 ∧ err = .etimedout then
          some { current := .done, closed, msg := "RecCaster server timeout" }
        else if m.ret < 0 then some { current := .done, closed, msg := "Missing ping header" }
        else if m.msgid ≠ 0x8002 then pingLoop m.msgid m.buf s' rest
        else if m.ret < 4 then some { current := .done, msg := "Not a ping request header" }
        else
          unlessSent (casterSendPHead s' 0x0002 4)
            { current := .done, msg := "Failed to send pong header" } fun s' =>
          unlessSent (Sockhelpers.shSendAll s' (m.buf.take 4))
            { current := .done, msg := "Failed to send pong body" } fun s' =>
          pingLoop m.msgid m.buf s' rest

/-- What the TCP phase meets. -/
structure Tcp where
  /-- `shCreateSocket` gives a socket -/
  created : Bool := true
  /-- the result of `shConnect` -/
  connect : Int := 0
  sock : Sock := {}
  getrecords : Sock → Option Int × Sock := fun s => (some 0, s)
  /-- what each read of the shutdown flag finds, unless it is set already -/
  shutdowns : List Bool := []

def doCasterTCPPhase (self : Search) (tcp : Tcp) : Option TcpReturn :=
  if self.haveserv = false then some { current := .connect }
  else if tcp.created = false then
    some { current := .connect, msg := "Failed to create socket" }
  else if tcp.connect ≠ 0 then
    some { current := .connect, msg := "Failed to connect (%d)" }
  else
    let buf := ofUInt 4 0 ++ ofUInt 4 self.servkey
    unlessSent (casterSendPHead tcp.sock 0x0001 8)
      { current := .connect, msg := "Failed to send greeting header" } fun s =>
    unlessSent (Sockhelpers.shSendAll s buf)
      { current := .connect, msg := "Failed to send greeting body" } fun s =>
    match casterRecvPMsg s 0 buf with
    | (none, _) => none
    | (some m, s) =>
      if m.ret < 0 then some { current := .connect, msg := "Missing greeting header" }
      else if m.msgid ≠ 0x8001 ∨ m.ret < 1 then
        some { current := .connect, msg := "First message not a greeting %04x %u" }
      else
        match tcp.getrecords s with
        | (none, _) => none
        | (some ret, s) =>
          if ret ≠ 0 then some { current := .upload, msg := "Error during record upload" }
          else
            let buf := ofUInt 4 0 ++ m.buf.drop 4
            unlessSent (casterSendPHead s 0x0005 4)
              { current := .upload, msg := "Failed to send all done" } fun s =>
            unlessSent (Sockhelpers.shSendAll s (buf.take 4))
              { current := .upload, msg := "Failed to send all done body" } fun s =>
            pingLoop m.msgid buf s (tcp.shutdowns.map (self.shutdown || ·))

/-- What a turn of the loop in `casterThread` meets. -/
structure Cycle where
  /-- `casterShutdown` has been called when the turn begins -/
  shutdown : Bool := false
  udp : UdpSocket := {}
  events : List UdpEvent := []
  /-- the wait of the hold-off -/
  holdoff : Int := -1
  holdoffErrno : Errno := .etimedout
  tcp : Tcp := {}

/-- The thread, with what happened so far. -/
structure ThreadState where
  errors : Nat := 0
  search : Search := {}
  current : CasterState := .init
  /-- the counter that each search has slept for -/
  sleeps : List Nat := []
  /-- whether the client was synchronised in each turn that is over, and the server closed the
  connection in the normal way -/
  closes : List Bool := []

def ThreadState.over (t : ThreadState) (search : Search) (normal : Bool) : ThreadState :=
  { t with search, current := .listen, closes := t.closes ++ [normal] }

/-- A turn of the loop in `casterThread`, and whether another one begins. -/
def casterCycle (order : ByteOrder) (t : ThreadState) (cycle : Cycle) :
    ThreadState × Bool :=
  let shutdown := t.search.shutdown || cycle.shutdown
  if shutdown then ({ t with search := { t.search with shutdown } }, false)
  else
    let errors := if t.errors > 10 then 10 else t.errors
    let t := { t with errors := errors + 1, current := .listen, sleeps := t.sleeps ++ [errors] }
    match doCasterUDPPhase order cycle.udp t.search cycle.events with
    | .listening self => ({ t with search := self }, false)
    | .returned ret self =>
      if ret ≠ 0 then (t.over self false, true)
      else if cycle.holdoff ≠ -1 ∧ cycle.holdoffErrno ≠ .etimedout then (t.over self false, true)
      else
        match doCasterTCPPhase self cycle.tcp with
        | none => ({ t with search := self, current := .connect }, false)
        | some tcp =>
          let t := { t with errors := if tcp.ret = 0 then 0 else t.errors }
          (t.over { self with shutdown := self.shutdown || tcp.shutdown }
            (decide (tcp.current = .done) && tcp.closed), true)

/-- `casterThread`, as far as the turns go. -/
def casterThread (order : ByteOrder) : List Cycle → ThreadState → ThreadState
  | [], t => t
  | cycle :: rest, t =>
    match casterCycle order t cycle with
    | (t, true) => casterThread order rest t
    | (t, false) => t

section Receive

theorem recvRest_ne_zero {m m' : Message} {s : Sock} {len blen : Nat}
    (returned : (recvRest m s len blen).1 = some m') : m'.ret ≠ 0 := by
  rw [recvRest] at returned
  split at returned
  · obtain rfl := Option.some.inj returned
    exact show (-1 : Int) ≠ 0 by decide
  · next positive =>
    split at returned
    · obtain ⟨ret, -, rfl⟩ := Option.map_eq_some_iff.mp returned
      split
      · exact show (-1 : Int) ≠ 0 by decide
      · omega
    · obtain rfl := Option.some.inj returned
      omega

/-- The end of the stream is not told apart from an error. -/
theorem casterRecvPMsg_ne_zero {s : Sock} {msgid : Nat} {buf : List UInt8} {m : Message}
    (returned : (casterRecvPMsg s msgid buf).1 = some m) : m.ret ≠ 0 := by
  have header := shRecvExact_exact s (List.replicate 8 0) 8
  rw [casterRecvPMsg] at returned
  cases first : Sockhelpers.shRecvExact s (List.replicate 8 0) 8 with
  | mk ret rest =>
    rw [first] at returned
    dsimp only at returned
    cases ret with
    | none => cases returned
    | some ret =>
      dsimp only at returned
      split at returned
      · next cut =>
        obtain rfl := Option.some.inj returned
        have failed : ret = -1 := header.fails ret (by rw [first]) cut
        change ret ≠ 0
        omega
      · split at returned
        · obtain rfl := Option.some.inj returned
          exact show (-1 : Int) ≠ 0 by decide
        · rw [recvBody] at returned
          dsimp only at returned
          split at returned
          · cases returned
          · exact recvRest_ne_zero returned

/-- What a call of `casterRecvPMsg` does for an outcome of the reader, with a buffer of `len`
bytes. -/
def SimulatesMessage (call : Option Message × Sock) (buf : List UInt8) :
    Outcome UInt8 (Nat × List UInt8) → Prop
  | .returned (id, front) rest => call.1 = some ⟨front.length, id, front ++ buf.drop front.length⟩ ∧
      call.2.stream = rest.stream ∧ call.2.recvs = rest.arrivals.map recvTurn
  | .failed => ∃ m, call.1 = some m ∧ m.ret = -1
  | .waiting => call.1 = none

/-- The end of a call, against that of the reader. -/
theorem recvRest_simulates {s : Sock} {arrivals : List Arrival} {front : List UInt8}
    (turns : s.recvs = arrivals.map recvTurn) (msgid blen : Nat) (buf : List UInt8) :
    SimulatesMessage
      (recvRest ⟨front.length, msgid, front ++ buf.drop front.length⟩ s buf.length blen) buf
      (if front.isEmpty then .failed
        else if buf.length < blen then
          (Client.shRecvIgnore ⟨s.stream, arrivals⟩ (blen - buf.length)).bind fun ignored s =>
            if ignored.isEmpty then .failed else .returned (msgid, front) s
        else .returned (msgid, front) ⟨s.stream, arrivals⟩) := by
  rw [recvRest]
  dsimp only
  by_cases empty : front = []
  · rw [empty, if_pos (by decide), if_pos (by rfl)]
    exact ⟨_, rfl, rfl⟩
  · have given : 0 < front.length := List.length_pos_iff.mpr empty
    rw [if_neg (by omega), if_neg (mt List.isEmpty_iff.mp empty)]
    by_cases long : buf.length < blen
    · rw [if_pos long, if_pos long]
      obtain ⟨scratch, simulates⟩ := shRecvIgnore_simulates turns (blen - buf.length)
      cases outcome : Client.shRecvIgnore ⟨s.stream, arrivals⟩ (blen - buf.length) with
      | returned ignored rest =>
        rw [outcome] at simulates
        obtain ⟨returned, stream, later, -⟩ := simulates
        dsimp only at returned stream later
        rw [returned, Outcome.returned_bind, Option.map_some]
        by_cases nothing : ignored = []
        · rw [nothing, if_pos (by decide), if_pos (by rfl)]
          exact ⟨_, rfl, rfl⟩
        · have dropped : 0 < ignored.length := List.length_pos_iff.mpr nothing
          rw [if_neg (by omega), if_neg (mt List.isEmpty_iff.mp nothing)]
          exact ⟨rfl, stream, later⟩
      | failed =>
        rw [outcome] at simulates
        rw [show (Sockhelpers.shRecvIgnore s _).1 = some (-1) from simulates]
        exact ⟨_, rfl, rfl⟩
      | waiting =>
        rw [outcome] at simulates
        rw [show (Sockhelpers.shRecvIgnore s _).1 = none from simulates]
        exact rfl
    · rw [if_neg long, if_neg long]
      exact ⟨rfl, rfl, turns⟩

theorem recvBody_simulates {s : Sock} {arrivals : List Arrival}
    (turns : s.recvs = arrivals.map recvTurn) (msgid blen : Nat) (buf : List UInt8) :
    SimulatesMessage (recvBody s msgid blen buf) buf
      ((Client.shRecvExact ⟨s.stream, arrivals⟩
        (if buf.length < blen then buf.length else blen)).bind fun front s =>
          if front.isEmpty then .failed
          else if buf.length < blen then
            (Client.shRecvIgnore s (blen - buf.length)).bind fun ignored s =>
              if ignored.isEmpty then .failed else .returned (msgid, front) s
          else .returned (msgid, front) s) := by
  have simulates := shRecvExact_simulates turns buf (if buf.length < blen then buf.length else blen)
  rw [recvBody]
  generalize Sockhelpers.shRecvExact s buf (if buf.length < blen then buf.length else blen) = call
    at simulates ⊢
  cases call with
  | mk ret stored =>
    cases stored with
    | mk buf' s' =>
      cases outcome : Client.shRecvExact ⟨s.stream, arrivals⟩
          (if buf.length < blen then buf.length else blen) with
      | returned front rest =>
        rw [outcome] at simulates
        obtain ⟨returned, stream, later, placed⟩ := simulates
        dsimp only at returned stream later placed
        rw [returned, placed rfl, Outcome.returned_bind]
        have ended := @recvRest_simulates s' rest.arrivals front later msgid blen buf
        rw [stream] at ended
        exact ended
      | failed =>
        rw [outcome] at simulates
        rw [show ret = some (-1) from simulates]
        exact ⟨_, rfl, rfl⟩
      | waiting =>
        rw [outcome] at simulates
        rw [show ret = none from simulates]
        exact rfl

/-- The reader that is modelled over arrivals does what the call does. -/
theorem casterRecvPMsg_simulates {s : Sock} {arrivals : List Arrival}
    (turns : s.recvs = arrivals.map recvTurn) (msgid : Nat) (buf : List UInt8) :
    SimulatesMessage (casterRecvPMsg s msgid buf) buf
      (Client.casterRecvPMsg ⟨s.stream, arrivals⟩ buf.length) := by
  have simulates := shRecvExact_simulates turns (List.replicate 8 0) 8
  have fails := (shRecvExact_exact s (List.replicate 8 0) 8).fails
  rw [casterRecvPMsg, Client.casterRecvPMsg]
  generalize Sockhelpers.shRecvExact s (List.replicate 8 0) 8 = call at simulates fails ⊢
  cases call with
  | mk ret stored =>
    cases stored with
    | mk hbuf s' =>
      cases outcome : Client.shRecvExact ⟨s.stream, arrivals⟩ 8 with
      | returned header rest =>
        rw [outcome] at simulates
        obtain ⟨returned, stream, later, placed⟩ := simulates
        dsimp only at returned stream later placed
        have eight : (header.length : Int) = 8 := by
          by_cases other : (header.length : Int) = 8
          · exact other
          · have failed := fails header.length returned other
            omega
        have whole : hbuf = header := by
          rw [placed rfl, List.drop_eq_nil_of_le (by simp; omega), List.append_nil]
        rw [returned, whole, Outcome.returned_bind, eight]
        dsimp only
        rw [if_neg (not_not_intro rfl)]
        by_cases magic : uintAt 0 2 header = recastMagic
        · rw [if_neg (not_not_intro magic), if_neg (not_not_intro magic)]
          have body := recvBody_simulates later (uintAt 2 2 header) (uintAt 4 4 header) buf
          rw [stream] at body
          exact body
        · rw [if_pos magic, if_pos magic]
          exact ⟨_, rfl, rfl⟩
      | failed =>
        rw [outcome] at simulates
        rw [show ret = some (-1) from simulates]
        exact ⟨_, rfl, rfl⟩
      | waiting =>
        rw [outcome] at simulates
        rw [show ret = none from simulates]
        exact rfl

/-- The calls that the models of the reader and of the upload take for granted are those of
`sockhelpers.c`: a message is read as the reader says, and whatever `shSendAll` returns is one of the
ways to end that the upload allows for. -/
theorem socket_models_agree (s : Sock) :
    (∀ arrivals, s.recvs = arrivals.map recvTurn → ∀ msgid buf,
      SimulatesMessage (casterRecvPMsg s msgid buf) buf
        (Client.casterRecvPMsg ⟨s.stream, arrivals⟩ buf.length)) ∧
    ∀ buf code, (Sockhelpers.shSendAll s buf).1 = some code → ∃ outcome, ∀ later,
      Client.shSendAll { sent := s.accepted, outcomes := outcome :: later } buf =
        (code, { sent := (Sockhelpers.shSendAll s buf).2.accepted, outcomes := later }) :=
  ⟨fun _ turns msgid buf => casterRecvPMsg_simulates turns msgid buf,
    fun _ _ returned => shSendAll_simulated returned⟩

end Receive

/-- A phase that has returned zero has read the shutdown flag as set. -/
def EndsAtShutdown (ended : Option TcpReturn) : Prop :=
  ∀ tcp, ended = some tcp → tcp.ret = 0 → tcp.shutdown = true

section Tcp

theorem endsAtShutdown_none : EndsAtShutdown none := nofun

theorem endsAtShutdown_failed {tcp : TcpReturn} (failed : tcp.ret = -1) :
    EndsAtShutdown (some tcp) := by
  intro other same zero
  rw [← Option.some.inj same, failed] at zero
  cases zero

theorem endsAtShutdown_unlessSent {call : Option Int × Sock} {failed : TcpReturn}
    {next : Sock → Option TcpReturn} (error : failed.ret = -1)
    (after : ∀ s, EndsAtShutdown (next s)) : EndsAtShutdown (unlessSent call failed next) := by
  cases call with
  | mk ret s =>
    cases ret with
    | none => exact endsAtShutdown_none
    | some ret =>
      rw [unlessSent]
      split
      · exact endsAtShutdown_failed error
      · exact after s

theorem pingLoop_endsAtShutdown (shutdowns : List Bool) (msgid : Nat) (buf : List UInt8)
    (s : Sock) : EndsAtShutdown (pingLoop msgid buf s shutdowns) := by
  induction shutdowns generalizing msgid buf s with
  | nil => exact endsAtShutdown_none
  | cons shutdown rest ih =>
    rw [pingLoop]
    split
    · next set =>
      intro tcp same zero
      rw [← Option.some.inj same]
      exact set
    · cases received : casterRecvPMsg s msgid buf with
      | mk returned s' =>
        cases returned with
        | none => exact endsAtShutdown_none
        | some m =>
          have nonzero : m.ret ≠ 0 := casterRecvPMsg_ne_zero (by rw [received])
          dsimp only
          rw [if_neg nonzero]
          split
          · exact endsAtShutdown_failed rfl
          split
          · exact endsAtShutdown_failed rfl
          split
          · exact endsAtShutdown_failed rfl
          split
          · exact ih _ _ _
          split
          · exact endsAtShutdown_failed rfl
          · apply endsAtShutdown_unlessSent rfl
            intro s'
            apply endsAtShutdown_unlessSent rfl
            intro s'
            exact ih _ _ _

theorem doCasterTCPPhase_endsAtShutdown (self : Search) (tcp : Tcp) :
    EndsAtShutdown (doCasterTCPPhase self tcp) := by
  rw [doCasterTCPPhase]
  split
  · exact endsAtShutdown_failed rfl
  split
  · exact endsAtShutdown_failed rfl
  split
  · exact endsAtShutdown_failed rfl
  apply endsAtShutdown_unlessSent rfl
  intro s
  apply endsAtShutdown_unlessSent rfl
  intro s
  split
  · exact endsAtShutdown_none
  split
  · exact endsAtShutdown_failed rfl
  split
  · exact endsAtShutdown_failed rfl
  split
  · exact endsAtShutdown_none
  split
  · exact endsAtShutdown_failed rfl
  apply endsAtShutdown_unlessSent rfl
  intro s
  apply endsAtShutdown_unlessSent rfl
  intro s
  exact pingLoop_endsAtShutdown _ _ _ _

end Tcp

/-- What a turn does to the counter and its history. -/
inductive Turned (t : ThreadState) : ThreadState × Bool → Prop where
  /-- the thread stops before a search -/
  | stops {t' : ThreadState} (sleeps : t'.sleeps = t.sleeps) (closes : t'.closes = t.closes) :
    Turned t (t', false)
  /-- a phase does not return -/
  | stays {t' : ThreadState} (running : t.search.shutdown = false)
    (sleeps : t'.sleeps = t.sleeps ++ [min 10 t.errors]) (closes : t'.closes = t.closes) :
    Turned t (t', false)
  | goesOn {t' : ThreadState} {normal : Bool} (running : t.search.shutdown = false)
    (sleeps : t'.sleeps = t.sleeps ++ [min 10 t.errors])
    (closes : t'.closes = t.closes ++ [normal])
    (errors : t'.errors = min 10 t.errors + 1 ∨ t'.search.shutdown = true) : Turned t (t', true)

theorem capped (errors : Nat) : (if errors > 10 then 10 else errors) = min 10 errors := by
  split <;> omega

theorem casterCycle_turned (order : ByteOrder) (t : ThreadState) (cycle : Cycle) :
    Turned t (casterCycle order t cycle) := by
  rw [casterCycle]
  dsimp only
  split
  · exact .stops rfl rfl
  · next unset =>
    have running : t.search.shutdown = false := by
      cases flag : t.search.shutdown with
      | false => rfl
      | true => exact absurd (by rw [flag, Bool.true_or]) unset
    rw [capped]
    split
    · exact .stays running rfl rfl
    · split
      · exact .goesOn running rfl rfl (Or.inl rfl)
      · split
        · exact .goesOn running rfl rfl (Or.inl rfl)
        · split
          · exact .stays running rfl rfl
          · next tcp ended =>
            refine .goesOn running rfl rfl ?_
            by_cases zero : tcp.ret = 0
            · right
              have set := doCasterTCPPhase_endsAtShutdown _ _ tcp ended zero
              simp [ThreadState.over, set]
            · left
              simp [ThreadState.over, zero]

structure Counting (t : ThreadState) : Prop where
  sleeps : t.sleeps = (List.range t.sleeps.length).map (min 10)
  turns : t.closes.length = t.sleeps.length
  errors : t.search.shutdown = false → min 10 t.errors = min 10 t.sleeps.length

theorem Counting.initial : Counting {} where
  sleeps := rfl
  turns := rfl
  errors _ := rfl

theorem range_next (count : Nat) :
    (List.range (count + 1)).map (min 10) = (List.range count).map (min 10) ++ [min 10 count] := by
  rw [List.range_succ, List.map_append, List.map_singleton]

section Turns

variable {t t' : ThreadState} (counting : Counting t)
include counting

theorem Counting.searched (running : t.search.shutdown = false)
    (sleeps : t'.sleeps = t.sleeps ++ [min 10 t.errors]) :
    t'.sleeps.length = t.sleeps.length + 1 ∧
      t'.sleeps = (List.range t'.sleeps.length).map (min 10) := by
  have size : t'.sleeps.length = t.sleeps.length + 1 := by
    rw [sleeps, List.length_append, List.length_singleton]
  refine ⟨size, ?_⟩
  rw [size, range_next, ← counting.sleeps, ← counting.errors running, sleeps]

theorem Counting.goesOn (turned : Turned t (t', true)) : Counting t' := by
  cases turned with
  | goesOn running sleeps closes errors =>
    obtain ⟨size, counted⟩ := counting.searched running sleeps
    have before := counting.errors running
    refine ⟨counted, ?_, fun running' => ?_⟩
    · rw [size, closes, List.length_append, counting.turns, List.length_singleton]
    · have next : t'.errors = min 10 t.errors + 1 :=
        errors.resolve_right (by rw [running']; decide)
      rw [next, size]
      omega

end Turns

/-- In every run the counter is the number of searches before, up to ten. -/
structure Counted (t : ThreadState) : Prop where
  sleeps : t.sleeps = (List.range t.sleeps.length).map (min 10)
  before : t.closes.length ≤ t.sleeps.length
  last : t.sleeps.length ≤ t.closes.length + 1

theorem Counting.counted {t : ThreadState} (counting : Counting t) : Counted t where
  sleeps := counting.sleeps
  before := Nat.le_of_eq counting.turns
  last := by rw [counting.turns]; omega

theorem Counting.ends {t t' : ThreadState} (counting : Counting t)
    (turned : Turned t (t', false)) : Counted t' := by
  have turns := counting.turns
  cases turned with
  | stops sleeps closes =>
    refine ⟨?_, ?_, ?_⟩
    · rw [sleeps]
      exact counting.sleeps
    · rw [sleeps, closes]
      omega
    · rw [sleeps, closes]
      omega
  | stays running sleeps closes =>
    obtain ⟨size, counted⟩ := counting.searched running sleeps
    refine ⟨counted, ?_, ?_⟩
    · rw [size, closes]
      omega
    · rw [size, closes]
      omega

theorem casterThread_counted {t : ThreadState} (order : ByteOrder) (cycles : List Cycle)
    (counting : Counting t) : Counted (casterThread order cycles t) := by
  induction cycles generalizing t with
  | nil => exact counting.counted
  | cons cycle rest ih =>
    have turned := casterCycle_turned order t cycle
    rw [casterThread]
    cases ran : casterCycle order t cycle with
    | mk t' more =>
      rw [ran] at turned
      cases more with
      | true => exact ih (counting.goesOn turned)
      | false => exact counting.ends turned

/-- The turns since the last one that ended in the normal way. -/
def consecutive (closes : List Bool) : Nat :=
  (closes.reverse.takeWhile fun normal => !normal).length

/-- Each search has slept for the number of failures in a row before it, up to ten. -/
def CountsFailures (t : ThreadState) : Prop :=
  ∀ k (inside : k < t.sleeps.length), t.sleeps[k] = min 10 (consecutive (t.closes.take k))

theorem consecutive_none {closes : List Bool} (none : ∀ normal ∈ closes, normal = false) :
    consecutive closes = closes.length := by
  have all : closes.reverse.takeWhile (fun normal => !normal) = closes.reverse := by
    rw [List.takeWhile_eq_self_iff]
    intro normal member
    rw [none normal (List.mem_reverse.mp member)]
    rfl
  rw [consecutive, all, List.length_reverse]

theorem consecutive_normal (closes : List Bool) : consecutive (closes ++ [true]) = 0 := by
  rw [consecutive, List.reverse_append]
  rfl

/-- A turn in which the server greets, takes the upload and closes the connection. -/
def normalCycle : Cycle where
  events := [.datagram [0x52, 0x43, 0, 0, 10, 0, 0, 1, 0x13, 0xba, 0, 0, 0, 0, 0, 7] {} 16]
  tcp :=
    { sock :=
        { stream := [0x52, 0x43, 0x80, 0x01, 0, 0, 0, 1, 0]
          recvs := [⟨8, .other 0, 0, .etimedout⟩, ⟨1, .other 0, 0, .etimedout⟩,
            ⟨0, .other 0, 0, .etimedout⟩]
          sends := [⟨0, 8, .other 0⟩, ⟨0, 8, .other 0⟩, ⟨0, 8, .other 0⟩, ⟨0, 4, .other 0⟩] }
      shutdowns := [false] }

/-- The search after such a turn sleeps for five seconds and not for none. -/
theorem normalCycle_counted :
    (casterThread .big [normalCycle, {}] {}).sleeps = [0, 1] ∧
      (casterThread .big [normalCycle, {}] {}).closes = [true] ∧
      ¬ ∀ order cycles, CountsFailures (casterThread order cycles {}) := by
  have sleeps : (casterThread .big [normalCycle, {}] {}).sleeps = [0, 1] := by
    decide +kernel
  have closes : (casterThread .big [normalCycle, {}] {}).closes = [true] := by
    decide +kernel
  refine ⟨sleeps, closes, fun all => ?_⟩
  have second := all .big [normalCycle, {}] 1 (by rw [sleeps]; decide)
  rw [closes, List.getElem_of_eq sleeps] at second
  exact absurd (show (1 : Nat) = 0 from second) (by decide)

/-- The counter is that of the failures in a row exactly when no search follows a turn in which the
client was synchronised and the server closed the connection in the normal way. -/
theorem casterThread_countsFailures_iff (order : ByteOrder) (cycles : List Cycle) :
    CountsFailures (casterThread order cycles {}) ↔
      ∀ k, (casterThread order cycles {}).closes[k]? = some true →
        (casterThread order cycles {}).sleeps.length ≤ k + 1 := by
  have counted := casterThread_counted order cycles Counting.initial
  generalize casterThread order cycles {} = t at counted ⊢
  have value : ∀ k (inside : k < t.sleeps.length), t.sleeps[k] = min 10 k := by
    intro k inside
    rw [List.getElem_of_eq counted.sleeps inside]
    simp
  constructor
  · intro counts k normal
    apply Nat.not_lt.mp
    intro later
    have slept := counts (k + 1) later
    obtain ⟨inside, set⟩ := List.getElem?_eq_some_iff.mp normal
    rw [value, List.take_succ_eq_append_getElem inside, set, consecutive_normal] at slept
    omega
  · intro last k inside
    have others : ∀ normal ∈ t.closes.take k, normal = false := by
      intro normal member
      obtain ⟨i, below, same⟩ := List.mem_take_iff_getElem.mp member
      cases normal with
      | false => rfl
      | true =>
        have bound := last i (List.getElem?_eq_some_iff.mpr ⟨by omega, same⟩)
        omega
    have short := counted.last
    have whole : k ≤ t.closes.length := by omega
    rw [value, consecutive_none others, List.length_take, Nat.min_eq_left whole]

end Recsync.Client.CasterThread
