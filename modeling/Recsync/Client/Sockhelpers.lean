import Recsync.Client.Receive
import Recsync.Lib.Transfer

set_option autoImplicit false

/- The loops around `send` and `recv`: `sockhelpers.c`. -/
namespace Recsync.Client.Sockhelpers

open Arrivals Transfer

/-- `SOCKERRNO`, as far as the client tells its values apart. -/
inductive Errno where
  | ewouldblock
  | eintr
  | etimedout
  | econnreset
  | econnaborted
  | other (code : Nat)
  deriving DecidableEq, Repr

/-- `SOCKERRNO == SOCK_EWOULDBLOCK || SOCKERRNO == SOCK_EINTR` -/
def Errno.again : Errno → Bool
  | .ewouldblock => true
  | .eintr => true
  | _ => false

/-- What `shWaitFor` and the `send` after it return. -/
structure SendTurn where
  wait : Int := 0
  ret : Int
  errno : Errno := .other 0

/-- What `recv` returns, and the `shWaitFor` after it if there is one. -/
structure RecvTurn where
  ret : Int
  errno : Errno := .other 0
  wait : Int := 0
  waitErrno : Errno := .etimedout

/-- A connected `shSocket`, with what its next calls find. -/
structure Sock where
  /-- the bytes of the peer that are not read yet -/
  stream : List UInt8 := []
  recvs : List RecvTurn := []
  sends : List SendTurn := []
  /-- the bytes that `send` accepted -/
  accepted : List UInt8 := []
  errno : Errno := .other 0
  /-- the last `recv` returned zero -/
  closed : Bool := false

/-- `send`. No more is accepted than there is. -/
def send (s : Sock) (turn : SendTurn) (bytes : List UInt8) : Int × Sock :=
  if turn.ret ≤ 0 then (turn.ret, { s with errno := turn.errno })
  else
    let taken := bytes.take turn.ret.toNat
    (taken.length, { s with accepted := s.accepted ++ taken, errno := turn.errno })

/-- `recv`, with the bytes it stores. No more comes than is asked for and there; when nothing is
there, the peer has closed the connection. -/
def recv (s : Sock) (turn : RecvTurn) (len : Nat) : Int × List UInt8 × Sock :=
  if turn.ret < 0 then (turn.ret, [], { s with errno := turn.errno, closed := false })
  else
    let bytes := s.stream.take (min turn.ret.toNat len)
    (bytes.length, bytes, { s with
      stream := s.stream.drop bytes.length
      errno := turn.errno
      closed := bytes.isEmpty })

/-- The loop of `shSendAll`. It has not returned when the turns are used up. -/
def sendLoop (buf : List UInt8) (sofar : Nat) (s : Sock) : List SendTurn → Option Int × Sock
  | [] => (if sofar < buf.length then none else some 1, { s with sends := [] })
  | turn :: rest =>
    if sofar < buf.length then
      if turn.wait ≠ 0 then (some (-1), { s with sends := rest, errno := turn.errno })
      else
        let (ret, s) := send s turn (buf.drop sofar)
        if ret ≤ 0 ∧ s.errno.again then sendLoop buf sofar s rest
        else if ret ≤ 0 then (some ret, { s with sends := rest })
        else sendLoop buf (sofar + ret.toNat) s rest
    else (some 1, { s with sends := turn :: rest })

def shSendAll (s : Sock) (buf : List UInt8) : Option Int × Sock :=
  sendLoop buf 0 s s.sends

/-- Bytes that are written into a buffer at an offset. -/
def store (buf : List UInt8) (offset : Nat) (bytes : List UInt8) : List UInt8 :=
  buf.take offset ++ (bytes ++ buf.drop (offset + bytes.length))

/-- The loop of `shRecvExact` and `shRecvIgnore`: where the next bytes are stored and how many are
asked for depends on those so far. -/
def recvLoop (ask place : Nat → Nat) (len : Nat) (buf : List UInt8) (sofar : Nat) (s : Sock) :
    List RecvTurn → Option Int × List UInt8 × Sock
  | [] => (if sofar < len then none else some sofar, buf, { s with recvs := [] })
  | turn :: rest =>
    if sofar < len then
      let (ret, bytes, s) := recv s turn (ask sofar)
      if ret < 0 ∧ s.errno.again then
        if turn.wait ≠ 0 then (some (-1), buf, { s with recvs := rest, errno := turn.waitErrno })
        else recvLoop ask place len buf sofar s rest
      else if ret ≤ 0 then
        (some (-1), buf, { s with
          recvs := rest
          errno := if ret = 0 then .econnreset else s.errno })
      else recvLoop ask place len (store buf (place sofar) bytes) (sofar + ret.toNat) s rest
    else (some sofar, buf, { s with recvs := turn :: rest })

def shRecvExact (s : Sock) (buf : List UInt8) (len : Nat) : Option Int × List UInt8 × Sock :=
  recvLoop (fun sofar => len - sofar) id len buf 0 s s.recvs

/-- `shRecvIgnore`. It has a buffer of its own, which every `recv` fills from the start. -/
def shRecvIgnore (s : Sock) (len : Nat) : Option Int × Sock :=
  let (ret, _, s) := recvLoop (fun _ => ignoreBuffer) (fun _ => 0) len
    (List.replicate ignoreBuffer 0) 0 s s.recvs
  (ret, s)

/-- The turn of a transfer that a round of `shSendAll` is. -/
def SendTurn.turn (t : SendTurn) : Turn :=
  if t.wait ≠ 0 then .stops
  else if t.ret ≤ 0 then (if t.errno.again then .again else .stops)
  else .moves (t.ret.toNat - 1)

/-- The turn of a transfer that a round of `shRecvExact` is. -/
def RecvTurn.turn (t : RecvTurn) : Turn :=
  if t.ret < 0 ∧ t.errno.again then (if t.wait ≠ 0 then .stops else .again)
  else if t.ret ≤ 0 then .stops
  else .moves (t.ret.toNat - 1)

def Reports (success : Int) (failure : Int → Prop) : Ending → Option Int → Prop
  | .done, ret => ret = some success
  | .stopped, ret => ∃ code, ret = some code ∧ failure code
  | .waiting, ret => ret = none

section Reports

variable {success : Int} {failure : Int → Prop} {ending : Ending} {ret : Option Int}

theorem Reports.success_iff (reports : Reports success failure ending ret)
    (other : ¬ failure success) : ret = some success ↔ ending = .done := by
  cases ending with
  | done => exact iff_of_true reports rfl
  | stopped =>
    obtain ⟨code, rfl, failed⟩ := reports
    refine iff_of_false (fun same => other ?_) nofun
    rwa [← Option.some.inj same]
  | waiting =>
    rw [show ret = none from reports]
    exact iff_of_false nofun nofun

theorem Reports.none_iff (reports : Reports success failure ending ret) :
    ret = none ↔ ending = .waiting := by
  cases ending with
  | done =>
    rw [show ret = some success from reports]
    exact iff_of_false nofun nofun
  | stopped =>
    obtain ⟨code, rfl, failed⟩ := reports
    exact iff_of_false nofun nofun
  | waiting => exact iff_of_true reports rfl

end Reports

section SendLoop

variable {buf : List UInt8} {sofar : Nat} {s : Sock} {turn : SendTurn} {rest : List SendTurn}

theorem SendTurn.turn_again (again : turn.turn = .again) :
    turn.wait = 0 ∧ turn.ret ≤ 0 ∧ turn.errno.again = true := by
  rw [SendTurn.turn] at again
  split at again
  · cases again
  · split at again
    · split at again
      · next wait zero retry => exact ⟨Decidable.not_not.mp wait, zero, retry⟩
      · cases again
    · cases again

theorem SendTurn.turn_stops (stops : turn.turn = .stops) :
    turn.wait ≠ 0 ∨ turn.wait = 0 ∧ turn.ret ≤ 0 ∧ ¬ turn.errno.again = true := by
  rw [SendTurn.turn] at stops
  split at stops
  · next wait => exact Or.inl wait
  · split at stops
    · split at stops
      · cases stops
      · next wait zero failed => exact Or.inr ⟨Decidable.not_not.mp wait, zero, failed⟩
    · cases stops

theorem SendTurn.turn_moves {more : Nat} (moves : turn.turn = .moves more) :
    turn.wait = 0 ∧ turn.ret = more + 1 := by
  rw [SendTurn.turn] at moves
  split at moves
  · cases moves
  · split at moves
    · split at moves <;> cases moves
    · next wait positive =>
      have count : turn.ret.toNat - 1 = more := Turn.moves.inj moves
      exact ⟨Decidable.not_not.mp wait, by omega⟩

theorem sendLoop_done (full : ¬ sofar < buf.length) (turns : List SendTurn) :
    sendLoop buf sofar s turns = (some 1, { s with sends := turns }) := by
  cases turns with
  | nil => rw [sendLoop, if_neg full]
  | cons turn rest => rw [sendLoop, if_neg full]

section Turns

variable (open_ : sofar < buf.length)
include open_

theorem sendLoop_again (again : turn.turn = .again) : sendLoop buf sofar s (turn :: rest) =
    sendLoop buf sofar { s with errno := turn.errno } rest := by
  obtain ⟨wait, zero, retry⟩ := SendTurn.turn_again again
  rw [sendLoop, if_pos open_, if_neg (not_not_intro wait), send, if_pos zero]
  exact if_pos ⟨zero, retry⟩

theorem sendLoop_stops (stops : turn.turn = .stops) : ∃ code, code ≤ 0 ∧
    sendLoop buf sofar s (turn :: rest) =
      (some code, { s with sends := rest, errno := turn.errno }) := by
  rw [sendLoop, if_pos open_]
  cases SendTurn.turn_stops stops with
  | inl wait => exact ⟨-1, by decide, if_pos wait⟩
  | inr failed =>
    obtain ⟨wait, zero, failed⟩ := failed
    refine ⟨turn.ret, zero, ?_⟩
    rw [if_neg (not_not_intro wait), send, if_pos zero]
    dsimp only
    rw [if_neg fun again => failed again.2, if_pos zero]

theorem sendLoop_moves {more : Nat} (moves : turn.turn = .moves more) :
    sendLoop buf sofar s (turn :: rest) =
      sendLoop buf (sofar + min (more + 1) (buf.length - sofar))
        { s with
          accepted := s.accepted ++ (buf.drop sofar).take (min (more + 1) (buf.length - sofar))
          errno := turn.errno } rest := by
  obtain ⟨wait, count⟩ := SendTurn.turn_moves moves
  have taken : (buf.drop sofar).take (more + 1) =
      (buf.drop sofar).take (min (more + 1) (buf.length - sofar)) := by
    rw [List.take_eq_take_min, List.length_drop]
  have size : ((buf.drop sofar).take (min (more + 1) (buf.length - sofar))).length =
      min (more + 1) (buf.length - sofar) := by
    rw [List.length_take, List.length_drop]
    omega
  rw [sendLoop, if_pos open_, if_neg (not_not_intro wait), send, if_neg (by omega), count]
  dsimp only
  rw [show ((more : Int) + 1).toNat = more + 1 by omega, taken, size, if_neg (by omega),
    if_neg (by omega), Int.toNat_natCast]

end Turns

/-- A call of `shSendAll` that does what a transfer does. -/
structure Sends (front : List UInt8) (result : Result UInt8) (call : Option Int × Sock) : Prop where
  accepted : call.2.accepted = front ++ result.progress.moved
  unused : call.2.sends.map SendTurn.turn = result.turns
  reports : Reports 1 (· ≤ 0) result.ending call.1

/-- The offset of `shSendAll` is that of a transfer out of its buffer. -/
theorem sendLoop_run {front : List UInt8} (turns : List SendTurn) (inside : sofar ≤ buf.length)
    (taken : s.accepted = front ++ buf.take sofar) :
    Sends front (run buf.length ⟨buf.take sofar, buf.drop sofar⟩ (turns.map SendTurn.turn))
      (sendLoop buf sofar s turns) := by
  induction turns generalizing sofar s with
  | nil =>
    have size : (buf.take sofar).length = sofar := List.length_take_of_le inside
    by_cases open_ : sofar < buf.length
    · rw [sendLoop, if_pos open_, List.map_nil, run_nil (by rwa [size])]
      exact ⟨taken, rfl, rfl⟩
    · rw [sendLoop_done open_, run_done (by rw [size]; exact Nat.not_lt.mp open_)]
      exact ⟨taken, rfl, rfl⟩
  | cons turn rest ih =>
    have size : (buf.take sofar).length = sofar := List.length_take_of_le inside
    by_cases open_ : sofar < buf.length
    · have missing : (buf.take sofar).length < buf.length := by rwa [size]
      rw [List.map_cons]
      cases kind : turn.turn with
      | moves more =>
        have some : buf.drop sofar ≠ [] := by
          rw [Ne, List.drop_eq_nil_iff]
          exact Nat.not_le.mpr open_
        have count : min (more + 1) (buf.length - sofar) ≤ buf.length - sofar :=
          Nat.min_le_right _ _
        have moved : (⟨buf.take sofar, buf.drop sofar⟩ : Progress UInt8).move
            (min (more + 1) (buf.length - sofar)) =
              ⟨buf.take (sofar + min (more + 1) (buf.length - sofar)),
                buf.drop (sofar + min (more + 1) (buf.length - sofar))⟩ := by
          rw [Progress.move, List.drop_drop, ← List.take_add]
        rw [sendLoop_moves open_ kind, run_moves missing some, size, moved]
        apply ih
        · omega
        · dsimp only
          rw [@List.take_add _ buf, ← List.append_assoc, ← taken]
      | again =>
        rw [sendLoop_again open_ kind, run_again missing]
        exact ih inside taken
      | stops =>
        obtain ⟨code, failed, stopped⟩ := sendLoop_stops open_ kind
        rw [stopped, run_stops missing]
        exact ⟨taken, rfl, code, rfl, failed⟩
    · rw [sendLoop_done open_, run_done (by rw [size]; exact Nat.not_lt.mp open_)]
      exact ⟨taken, rfl, rfl⟩

theorem shSendAll_run (s : Sock) (buf : List UInt8) :
    Sends s.accepted (run buf.length ⟨[], buf⟩ (s.sends.map SendTurn.turn)) (shSendAll s buf) :=
  sendLoop_run s.sends (Nat.zero_le _) (by simp)

end SendLoop

section RecvLoop

variable {ask place : Nat → Nat} {len sofar : Nat} {buf : List UInt8} {s : Sock}
  {turn : RecvTurn} {rest : List RecvTurn}

theorem RecvTurn.turn_again (again : turn.turn = .again) :
    (turn.ret < 0 ∧ turn.errno.again = true) ∧ turn.wait = 0 := by
  rw [RecvTurn.turn] at again
  split at again
  · split at again
    · cases again
    · next retry wait => exact ⟨retry, Decidable.not_not.mp wait⟩
  · split at again <;> cases again

theorem RecvTurn.turn_stops (stops : turn.turn = .stops) :
    (turn.ret < 0 ∧ turn.errno.again = true) ∧ turn.wait ≠ 0 ∨
      ¬ (turn.ret < 0 ∧ turn.errno.again = true) ∧ turn.ret ≤ 0 := by
  rw [RecvTurn.turn] at stops
  split at stops
  · split at stops
    · next retry wait => exact Or.inl ⟨retry, wait⟩
    · cases stops
  · split at stops
    · next failed zero => exact Or.inr ⟨failed, zero⟩
    · cases stops

theorem RecvTurn.turn_moves {more : Nat} (moves : turn.turn = .moves more) :
    turn.ret = more + 1 := by
  rw [RecvTurn.turn] at moves
  split at moves
  · split at moves <;> cases moves
  · split at moves
    · cases moves
    · have count : turn.ret.toNat - 1 = more := Turn.moves.inj moves
      omega

theorem recv_takes {asked : Nat} {bytes : List UInt8} (nonneg : 0 ≤ turn.ret)
    (taken : s.stream.take (min turn.ret.toNat asked) = bytes) :
    recv s turn asked = ((bytes.length : Int), bytes, { s with
      stream := s.stream.drop bytes.length
      errno := turn.errno
      closed := bytes.isEmpty }) := by
  rw [recv, if_neg (Int.not_lt.mpr nonneg), taken]

theorem recvLoop_done (full : ¬ sofar < len) (turns : List RecvTurn) :
    recvLoop ask place len buf sofar s turns =
      (some (sofar : Int), buf, { s with recvs := turns }) := by
  cases turns with
  | nil => rw [recvLoop, if_neg full]
  | cons turn rest => rw [recvLoop, if_neg full]

section Turns

variable (open_ : sofar < len)
include open_

theorem recvLoop_again (again : turn.turn = .again) :
    recvLoop ask place len buf sofar s (turn :: rest) =
      recvLoop ask place len buf sofar { s with errno := turn.errno, closed := false } rest := by
  obtain ⟨retry, wait⟩ := RecvTurn.turn_again again
  rw [recvLoop, if_pos open_, recv, if_pos retry.1]
  dsimp only
  rw [if_pos retry, if_neg (not_not_intro wait)]

theorem recvLoop_nothing {ret : Int} {s' : Sock} (called : recv s turn (ask sofar) = (ret, [], s'))
    (nothing : ret ≤ 0) (failed : ¬ (ret < 0 ∧ s'.errno.again = true)) :
    recvLoop ask place len buf sofar s (turn :: rest) =
      (some (-1), buf, { s' with
        recvs := rest
        errno := if ret = 0 then .econnreset else s'.errno }) := by
  rw [recvLoop, if_pos open_, called]
  dsimp only
  rw [if_neg failed, if_pos nothing]

theorem recvLoop_stops (stops : turn.turn = .stops) :
    ∃ s', recvLoop ask place len buf sofar s (turn :: rest) = (some (-1), buf, s') ∧
      s'.stream = s.stream ∧ s'.recvs = rest := by
  cases RecvTurn.turn_stops stops with
  | inl waits =>
    obtain ⟨retry, wait⟩ := waits
    refine ⟨{ s with recvs := rest, errno := turn.waitErrno, closed := false }, ?_, rfl, rfl⟩
    rw [recvLoop, if_pos open_, recv, if_pos retry.1]
    dsimp only
    rw [if_pos retry, if_pos wait]
  | inr failed =>
    obtain ⟨failed, zero⟩ := failed
    by_cases negative : turn.ret < 0
    · have called : recv s turn (ask sofar) =
          (turn.ret, [], { s with errno := turn.errno, closed := false }) := by
        rw [recv, if_pos negative]
      exact ⟨_, recvLoop_nothing open_ called zero failed, rfl, rfl⟩
    · have none : s.stream.take (min turn.ret.toNat (ask sofar)) = [] := by
        rw [show turn.ret.toNat = 0 by omega, Nat.zero_min, List.take_zero]
      have called := recv_takes (Int.not_lt.mp negative) none
      exact ⟨_, recvLoop_nothing open_ called (Int.le_refl 0)
        (fun again => absurd again.1 (by decide)), rfl, rfl⟩

/-- The peer has closed the connection. -/
theorem recvLoop_exhausted {more : Nat} (moves : turn.turn = .moves more) (none : s.stream = []) :
    ∃ s', recvLoop ask place len buf sofar s (turn :: rest) = (some (-1), buf, s') ∧
      s'.stream = s.stream ∧ s'.recvs = rest := by
  have count := RecvTurn.turn_moves moves
  have nothing : s.stream.take (min turn.ret.toNat (ask sofar)) = [] := by
    rw [none, List.take_nil]
  have called := recv_takes (by omega) nothing
  exact ⟨_, recvLoop_nothing open_ called (Int.le_refl 0)
    (fun again => absurd again.1 (by decide)), rfl, rfl⟩

theorem recvLoop_moves {more : Nat} {piece : List UInt8} (moves : turn.turn = .moves more)
    (asked : s.stream.take (min (more + 1) (ask sofar)) = piece) (some : piece ≠ []) :
    recvLoop ask place len buf sofar s (turn :: rest) =
      recvLoop ask place len (store buf (place sofar) piece) (sofar + piece.length)
        { s with
          stream := s.stream.drop (min (more + 1) (ask sofar))
          errno := turn.errno
          closed := false } rest := by
  have count := RecvTurn.turn_moves moves
  have present : piece.isEmpty = false := List.isEmpty_eq_false_iff.mpr some
  have positive : 0 < piece.length := List.length_pos_iff.mpr some
  have left : s.stream.drop piece.length = s.stream.drop (min (more + 1) (ask sofar)) := by
    rw [← asked, drop_length_take]
  have called := @recv_takes s turn (ask sofar) piece (by omega)
    (by rw [← asked, show turn.ret.toNat = more + 1 by omega])
  rw [present, left] at called
  rw [recvLoop, if_pos open_, called]
  dsimp only
  rw [if_neg (by omega), if_neg (by omega), Int.toNat_natCast]

end Turns

/-- A call of `shRecvExact` that does what a transfer does. -/
structure Receives (len : Nat) (into : List UInt8) (result : Result UInt8)
    (call : Option Int × List UInt8 × Sock) : Prop where
  stored : call.2.1 = result.progress.moved ++ into.drop result.progress.moved.length
  stream : call.2.2.stream = result.progress.left
  unused : call.2.2.recvs.map RecvTurn.turn = result.turns
  reports : Reports len (· = -1) result.ending call.1

theorem store_next (got into bytes : List UInt8) :
    store (got ++ into.drop got.length) got.length bytes =
      (got ++ bytes) ++ into.drop (got ++ bytes).length := by
  rw [store, List.take_left, List.drop_append, List.drop_eq_nil_of_le (by omega),
    List.nil_append, List.drop_drop, List.length_append, List.append_assoc]
  congr 3
  omega

/-- The offset of `shRecvExact` is that of a transfer out of the stream. -/
theorem recvLoop_run {got into : List UInt8} (turns : List RecvTurn) (short : got.length ≤ len) :
    Receives len into (run len ⟨got, s.stream⟩ (turns.map RecvTurn.turn))
      (recvLoop (fun sofar => len - sofar) id len (got ++ into.drop got.length) got.length s
        turns) := by
  induction turns generalizing got s with
  | nil =>
    by_cases open_ : got.length < len
    · rw [recvLoop, if_pos open_, List.map_nil, run_nil open_]
      exact ⟨rfl, rfl, rfl, rfl⟩
    · have full : got.length = len := by omega
      rw [recvLoop_done open_, run_done (Nat.not_lt.mp open_)]
      exact ⟨rfl, rfl, rfl, by rw [full]; rfl⟩
  | cons turn rest ih =>
    by_cases open_ : got.length < len
    · rw [List.map_cons]
      cases kind : turn.turn with
      | moves more =>
        by_cases none : s.stream = []
        · obtain ⟨s', stopped, stream, unused⟩ := @recvLoop_exhausted (fun sofar => len - sofar) id
            len _ (got ++ into.drop got.length) s turn rest open_ more kind none
          rw [stopped, run_exhausted open_ none]
          exact ⟨rfl, stream, by rw [unused], -1, rfl, rfl⟩
        · have some : s.stream.take (min (more + 1) (len - got.length)) ≠ [] := by
            rw [Ne, List.take_eq_nil_iff]
            exact not_or.mpr ⟨by omega, none⟩
          have next := @ih
            { s with
              stream := s.stream.drop (min (more + 1) (len - got.length))
              errno := turn.errno
              closed := false }
            (got ++ s.stream.take (min (more + 1) (len - got.length)))
            (by rw [List.length_append, List.length_take]; omega)
          rw [recvLoop_moves open_ kind rfl some, run_moves open_ none, id, store_next,
            ← List.length_append]
          exact next
      | again =>
        rw [recvLoop_again open_ kind, run_again open_]
        exact @ih { s with errno := turn.errno, closed := false } got short
      | stops =>
        obtain ⟨s', stopped, stream, unused⟩ := @recvLoop_stops (fun sofar => len - sofar) id
          len _ (got ++ into.drop got.length) s turn rest open_ kind
        rw [stopped, run_stops open_]
        exact ⟨rfl, stream, by rw [unused], -1, rfl, rfl⟩
    · have full : got.length = len := by omega
      rw [recvLoop_done open_, run_done (by omega : len ≤ got.length)]
      exact ⟨rfl, rfl, rfl, by rw [full]; rfl⟩

theorem shRecvExact_run (s : Sock) (into : List UInt8) (len : Nat) :
    Receives len into (run len ⟨[], s.stream⟩ (s.recvs.map RecvTurn.turn))
      (shRecvExact s into len) :=
  @recvLoop_run len s [] into s.recvs (Nat.zero_le _)

end RecvLoop

/-- The whole buffer is accepted if the call returns 1, and a proper prefix of it if not. The call
returns when a turn fails or when enough of them take something. -/
structure SendsExactly (s : Sock) (buf : List UInt8) : Prop where
  exact : ∃ accepted, accepted <+: buf ∧
    (shSendAll s buf).2.accepted = s.accepted ++ accepted ∧
    ((shSendAll s buf).1 = some 1 ↔ accepted = buf)
  returns : .stops ∈ s.sends.map SendTurn.turn ∨
    buf.length ≤ (s.sends.map SendTurn.turn).countP Turn.isMoves → (shSendAll s buf).1 ≠ none

/-- The call returns `len` if the next `len` bytes are stored, and -1 if not; no byte that is not
stored is consumed. It returns when a turn fails or when enough of them bring something. -/
structure RecvsExactly (s : Sock) (into : List UInt8) (len : Nat) : Prop where
  exact : ∃ count, count ≤ len ∧ count ≤ s.stream.length ∧
    (shRecvExact s into len).2.1 = s.stream.take count ++ into.drop count ∧
    (shRecvExact s into len).2.2.stream = s.stream.drop count ∧
    ((shRecvExact s into len).1 = some (len : Int) ↔ count = len)
  fails : ∀ ret, (shRecvExact s into len).1 = some ret → ret ≠ len → ret = -1
  returns : .stops ∈ s.recvs.map RecvTurn.turn ∨
    len ≤ (s.recvs.map RecvTurn.turn).countP Turn.isMoves → (shRecvExact s into len).1 ≠ none

theorem shSendAll_exact (s : Sock) (buf : List UInt8) : SendsExactly s buf := by
  have sends := shSendAll_run s buf
  constructor
  · obtain ⟨count, short, -, progress, done⟩ :=
      @run_fresh UInt8 buf.length buf (s.sends.map SendTurn.turn)
    refine ⟨buf.take count, List.take_prefix _ _, ?_, ?_⟩
    · rw [sends.accepted, progress]
    · rw [sends.reports.success_iff (by decide), done]
      constructor
      · intro full
        rw [full, List.take_length]
      · intro whole
        have size := congrArg List.length whole
        rw [List.length_take] at size
        omega
  · intro enough
    rw [Ne, sends.reports.none_iff]
    apply run_ends
    simpa using enough

theorem shRecvExact_exact (s : Sock) (into : List UInt8) (len : Nat) : RecvsExactly s into len := by
  have receives := shRecvExact_run s into len
  constructor
  · obtain ⟨count, short, there, progress, done⟩ :=
      @run_fresh UInt8 len s.stream (s.recvs.map RecvTurn.turn)
    refine ⟨count, short, there, ?_, ?_, ?_⟩
    · rw [receives.stored, progress, List.length_take_of_le there]
    · rw [receives.stream, progress]
    · rw [receives.reports.success_iff (by omega), done]
  · intro ret returned other
    have reports := receives.reports
    cases ending : (run len ⟨[], s.stream⟩ (s.recvs.map RecvTurn.turn)).ending with
    | done =>
      rw [ending, Reports, returned] at reports
      exact absurd (Option.some.inj reports) other
    | stopped =>
      rw [ending, Reports] at reports
      obtain ⟨code, same, failed⟩ := reports
      rw [returned] at same
      rw [Option.some.inj same, failed]
    | waiting =>
      rw [ending, Reports, returned] at reports
      cases reports
  · intro enough
    rw [Ne, receives.reports.none_iff]
    apply run_ends
    simpa using enough

/-- Calls of `shSendAll`, up to the first one that does not return 1. -/
def sendBuffers : List (List UInt8) → Sock → Bool × Sock
  | [], s => (true, s)
  | buf :: rest, s =>
    let (ret, s) := shSendAll s buf
    if ret = some 1 then sendBuffers rest s else (false, s)

/-- Calls of `shRecvExact` that fill one buffer each, up to the first one that does not return its
size. -/
def recvBuffers : List (List UInt8) → Sock → List (List UInt8)
  | [], _ => []
  | into :: rest, s =>
    let (ret, buf, s) := shRecvExact s into into.length
    if ret = some (into.length : Int) then buf :: recvBuffers rest s else []

section Sequences

theorem sendBuffers_accepted (bufs : List (List UInt8)) (s : Sock) :
    ∃ bytes, (sendBuffers bufs s).2.accepted = s.accepted ++ bytes ∧ bytes <+: bufs.flatten ∧
      ((sendBuffers bufs s).1 = true → bytes = bufs.flatten) := by
  induction bufs generalizing s with
  | nil => exact ⟨[], by simp [sendBuffers], List.prefix_refl _, fun _ => rfl⟩
  | cons buf rest ih =>
    obtain ⟨accepted, part, taken, whole⟩ := (shSendAll_exact s buf).exact
    rw [sendBuffers]
    dsimp only
    split
    · next returned =>
      obtain ⟨bytes, later, others, all⟩ := ih (shSendAll s buf).2
      have same := whole.mp returned
      refine ⟨buf ++ bytes, ?_, ?_, fun sent => ?_⟩
      · rw [later, taken, same, List.append_assoc]
      · exact List.prefix_append_right_inj buf |>.mpr others
      · rw [all sent, List.flatten_cons]
    · refine ⟨accepted, taken, part.trans (List.prefix_append _ _), nofun⟩

/-- The buffers that are filled are the first ones of those in the stream. -/
theorem recvBuffers_first {bufs intos : List (List UInt8)} {s : Sock} {rest later : List UInt8}
    (sizes : intos.map List.length = bufs.map List.length)
    (stream : s.stream ++ rest = bufs.flatten ++ later) : recvBuffers intos s <+: bufs := by
  induction intos generalizing bufs s with
  | nil => exact List.nil_prefix
  | cons into others ih =>
    cases bufs with
    | nil => cases sizes
    | cons buf bufs =>
      rw [List.map_cons, List.map_cons, List.cons.injEq] at sizes
      obtain ⟨count, -, there, stored, left, whole⟩ := (shRecvExact_exact s into into.length).exact
      rw [recvBuffers]
      dsimp only
      split
      · next returned =>
        have full := whole.mp returned
        rw [full] at stored left there
        rw [List.flatten_cons, List.append_assoc] at stream
        have front : s.stream.take into.length = buf := by
          rw [← List.take_append_of_le_length there, stream, sizes.1, List.take_left]
        have back : s.stream.drop into.length ++ rest = bufs.flatten ++ later := by
          rw [← List.drop_append_of_le_length there, stream, sizes.1, List.drop_left]
        rw [stored, front, List.drop_length, List.append_nil, List.cons_prefix_cons]
        exact ⟨rfl, ih sizes.2 (by rw [left]; exact back)⟩
      · exact List.nil_prefix

/-- Calls that meet no failing turn fill all of them. -/
theorem recvBuffers_length {intos : List (List UInt8)} {s : Sock}
    (flows : Flows (s.recvs.map RecvTurn.turn) intos.flatten.length)
    (there : intos.flatten.length ≤ s.stream.length) :
    (recvBuffers intos s).length = intos.length := by
  induction intos generalizing s with
  | nil => rfl
  | cons into others ih =>
    rw [List.flatten_cons, List.length_append] at flows there
    have receives := shRecvExact_run s into into.length
    obtain ⟨done, later⟩ := @run_flows UInt8 into.length ⟨[], s.stream⟩ _ _ flows
      (by dsimp only; omega) rfl
    obtain ⟨count, -, -, -, left, whole⟩ := (shRecvExact_exact s into into.length).exact
    have returned := (receives.reports.success_iff (by omega)).mpr done
    rw [recvBuffers]
    dsimp only
    rw [if_pos returned, List.length_cons, List.length_cons, ih]
    · rwa [receives.unused]
    · rw [left, whole.mp returned, List.length_drop]
      omega

theorem sendBuffers_flows {bufs : List (List UInt8)} {s : Sock}
    (flows : Flows (s.sends.map SendTurn.turn) bufs.flatten.length) :
    (sendBuffers bufs s).1 = true := by
  induction bufs generalizing s with
  | nil => rfl
  | cons buf rest ih =>
    rw [List.flatten_cons, List.length_append] at flows
    have sends := shSendAll_run s buf
    obtain ⟨done, later⟩ := @run_flows UInt8 buf.length ⟨[], buf⟩ _ _ flows (Nat.le_refl _) rfl
    have returned := (sends.reports.success_iff (by decide)).mpr done
    rw [sendBuffers]
    dsimp only
    rw [if_pos returned, ih]
    rwa [sends.unused]

end Sequences

/-- Buffers that are sent and read back. The stream of the reader is what the calls of `shSendAll`
were accepted of, and, if all of them returned 1, anything after it. -/
structure Connected (bufs : List (List UInt8)) (sender reader : Sock) : Prop where
  stream : ∃ later, reader.stream =
    (sendBuffers bufs sender).2.accepted.drop sender.accepted.length ++ later ∧
    ((sendBuffers bufs sender).1 = true ∨ later = [])

/-- The buffers that are filled are those that were sent, in order, up to the first call that
fails; without a failing turn they are all of them. -/
structure ReadsBack (bufs intos : List (List UInt8)) (sender reader : Sock) : Prop where
  same : recvBuffers intos reader <+: bufs
  all : Flows (sender.sends.map SendTurn.turn) bufs.flatten.length →
    Flows (reader.recvs.map RecvTurn.turn) bufs.flatten.length → recvBuffers intos reader = bufs

theorem readsBack {bufs intos : List (List UInt8)} {sender reader : Sock}
    (connected : Connected bufs sender reader)
    (sizes : intos.map List.length = bufs.map List.length) :
    ReadsBack bufs intos sender reader := by
  obtain ⟨later, stream, whole⟩ := connected.stream
  obtain ⟨bytes, accepted, part, all⟩ := sendBuffers_accepted bufs sender
  rw [accepted, List.drop_left] at stream
  have same : recvBuffers intos reader <+: bufs := by
    cases whole with
    | inl sent =>
      exact @recvBuffers_first bufs intos reader [] later sizes
        (by rw [stream, all sent, List.append_nil])
    | inr none =>
      obtain ⟨missing, rest⟩ := part
      exact @recvBuffers_first bufs intos reader missing [] sizes
        (by rw [stream, none, List.append_nil, rest, List.append_nil])
  refine ⟨same, fun sends recvs => ?_⟩
  have total : intos.flatten.length = bufs.flatten.length := by
    rw [List.length_flatten, List.length_flatten, sizes]
  have count : intos.length = bufs.length := by
    rw [← List.length_map, sizes, List.length_map]
  apply same.eq_of_length
  rw [recvBuffers_length, count]
  · rwa [total]
  · rw [total, stream, all (sendBuffers_flows sends), List.length_append]
    omega

/-- For every buffer and every behaviour of the socket the transfers are exact, and buffers that
are sent are read back as they are. -/
theorem transfers_exact : (∀ s buf, SendsExactly s buf) ∧ (∀ s into len, RecvsExactly s into len) ∧
    ∀ bufs intos sender reader, Connected bufs sender reader →
      intos.map List.length = bufs.map List.length → ReadsBack bufs intos sender reader :=
  ⟨shSendAll_exact, shRecvExact_exact, fun _ _ _ _ connected sizes => readsBack connected sizes⟩

/-- Two buffers that go out in three pieces and come in byte by byte. -/
theorem transfers_exact_pieces :
    recvBuffers [[0, 0, 0], [0]] { stream := [1, 2, 3, 4], recvs :=
      [⟨1, .other 0, 0, .etimedout⟩, ⟨-1, .ewouldblock, 0, .etimedout⟩,
        ⟨1, .other 0, 0, .etimedout⟩, ⟨1, .other 0, 0, .etimedout⟩,
        ⟨1, .other 0, 0, .etimedout⟩] } = [[1, 2, 3], [4]] :=
  (transfers_exact.2.2 [[1, 2, 3], [4]] [[0, 0, 0], [0]]
    { sends := [⟨0, 2, .other 0⟩, ⟨0, -1, .eintr⟩, ⟨0, 9, .other 0⟩, ⟨0, 1, .other 0⟩,
      ⟨0, 1, .other 0⟩] } _ ⟨[], by decide +kernel, Or.inr rfl⟩ rfl).all
    ⟨by decide +kernel, by decide +kernel⟩ ⟨by decide +kernel, by decide +kernel⟩

/-- What the upload model says of a call is what it does with some way to end. -/
theorem shSendAll_simulated {s : Sock} {buf : List UInt8} {code : Int}
    (returned : (shSendAll s buf).1 = some code) : ∃ outcome, ∀ later,
      Client.shSendAll { sent := s.accepted, outcomes := outcome :: later } buf =
        (code, { sent := (shSendAll s buf).2.accepted, outcomes := later }) := by
  obtain ⟨accepted, part, taken, whole⟩ := (shSendAll_exact s buf).exact
  by_cases one : code = 1
  · have same : accepted = buf := whole.mp (by rw [returned, one])
    refine ⟨.all, fun later => ?_⟩
    rw [Client.shSendAll, taken, same, one]
  · have cut : buf.take accepted.length = accepted := (List.prefix_iff_eq_take.mp part).symm
    refine ⟨.failed code one accepted.length, fun later => ?_⟩
    rw [Client.shSendAll, taken]
    dsimp only
    rw [cut]

section Arrivals

/-- The round of `shRecvExact` that an arrival is. -/
def recvTurn : Arrival → RecvTurn
  | .ready more => { ret := more + 1 }
  | .wouldBlock => { ret := -1, errno := .ewouldblock }
  | .interrupted => { ret := -1, errno := .eintr }
  | .timedOut => { ret := -1, errno := .ewouldblock, wait := -1 }
  | .broken => { ret := -1 }

theorem turn_ready (more : Nat) : (recvTurn (.ready more)).turn = .moves more := by
  have positive : ¬ ((more : Int) + 1 ≤ 0) := by omega
  have other : ¬ ((more : Int) + 1 < 0) := by omega
  simp only [recvTurn, RecvTurn.turn, positive, other, false_and, if_false]
  congr 1

/-- A call that does what the reader does. Where the bytes are stored one after the other, they are
in the buffer in front of what was there. -/
def Simulates (place : Nat → Nat) (into : List UInt8) (call : Option Int × List UInt8 × Sock) :
    Outcome UInt8 (List UInt8) → Prop
  | .returned got rest => call.1 = some (got.length : Int) ∧ call.2.2.stream = rest.stream ∧
      call.2.2.recvs = rest.arrivals.map recvTurn ∧
      (place = id → call.2.1 = got ++ into.drop got.length)
  | .failed => call.1 = some (-1)
  | .waiting => call.1 = none

theorem recvLoop_simulates {ask place : Nat → Nat} {len : Nat} {got buf into : List UInt8}
    {s : Sock} (asks : ∀ sofar, sofar < len → 0 < ask sofar) (arrivals : List Arrival)
    (placed : place = id → buf = got ++ into.drop got.length) :
    Simulates place into
      (recvLoop ask place len buf got.length s (arrivals.map recvTurn))
      (readLoop ask len got s.stream arrivals) := by
  induction arrivals generalizing got buf s with
  | nil =>
    by_cases full : len ≤ got.length
    · rw [readLoop_done full, List.map_nil, recvLoop_done (Nat.not_lt.mpr full)]
      exact ⟨rfl, rfl, rfl, placed⟩
    · rw [readLoop, if_neg full, List.map_nil, recvLoop, if_pos (Nat.not_le.mp full)]
      exact rfl
  | cons arrival rest ih =>
    rw [List.map_cons]
    by_cases full : len ≤ got.length
    · rw [readLoop_done full, recvLoop_done (Nat.not_lt.mpr full)]
      exact ⟨rfl, rfl, rfl, placed⟩
    · have open_ : got.length < len := Nat.not_le.mp full
      have again : ∀ errno, Simulates place into
          (recvLoop ask place len buf got.length { s with errno, closed := false }
            (rest.map recvTurn)) (readLoop ask len got s.stream rest) := fun errno =>
        @ih got buf { s with errno, closed := false } placed
      cases arrival with
      | ready more =>
        have asked := asks got.length open_
        by_cases none : s.stream = []
        · obtain ⟨s', stopped, -⟩ := @recvLoop_exhausted ask place len got.length buf s _
            (rest.map recvTurn) open_ more (turn_ready more) none
          rw [stopped, readLoop, if_neg full, none, List.take_nil]
          exact rfl
        · have some : s.stream.take (min (more + 1) (ask got.length)) ≠ [] := by
            rw [Ne, List.take_eq_nil_iff]
            exact not_or.mpr ⟨by omega, none⟩
          rw [recvLoop_moves open_ (turn_ready more) rfl some,
            readLoop_ready open_ rfl (by omega) none, ← List.length_append]
          apply ih
          intro inOrder
          rw [placed inOrder, inOrder, id, store_next]
      | wouldBlock =>
        rw [recvLoop_again open_ rfl, readLoop, if_neg full]
        exact again _
      | interrupted =>
        rw [recvLoop_again open_ rfl, readLoop, if_neg full]
        exact again _
      | timedOut =>
        obtain ⟨s', stopped, -⟩ := @recvLoop_stops ask place len got.length buf s
          (recvTurn .timedOut) (rest.map recvTurn) open_ rfl
        rw [stopped, readLoop, if_neg full]
        exact rfl
      | broken =>
        obtain ⟨s', stopped, -⟩ := @recvLoop_stops ask place len got.length buf s
          (recvTurn .broken) (rest.map recvTurn) open_ rfl
        rw [stopped, readLoop, if_neg full]
        exact rfl

/-- What the model of the reader says of a call is what the call does. -/
theorem shRecvExact_simulates {s : Sock} {arrivals : List Arrival}
    (turns : s.recvs = arrivals.map recvTurn) (into : List UInt8) (len : Nat) :
    Simulates id into (shRecvExact s into len) (Client.shRecvExact ⟨s.stream, arrivals⟩ len) := by
  rw [shRecvExact, turns, Client.shRecvExact]
  exact @recvLoop_simulates _ id len [] into into s (fun sofar open_ => by omega) arrivals
    fun _ => rfl

theorem shRecvIgnore_simulates {s : Sock} {arrivals : List Arrival}
    (turns : s.recvs = arrivals.map recvTurn) (len : Nat) : ∃ buf,
      Simulates (fun _ => 0) [] ((shRecvIgnore s len).1, buf, (shRecvIgnore s len).2)
        (Client.shRecvIgnore ⟨s.stream, arrivals⟩ len) := by
  have other : (fun _ : Nat => 0) ≠ id := fun same => absurd (congrFun same 1) (by decide)
  have simulates := @recvLoop_simulates (fun _ => ignoreBuffer) (fun _ => 0) len []
    (List.replicate ignoreBuffer 0) [] s (fun _ _ => by decide) arrivals
    fun inOrder => absurd inOrder other
  rw [← turns] at simulates
  exact ⟨_, simulates⟩

end Arrivals

end Recsync.Client.Sockhelpers
