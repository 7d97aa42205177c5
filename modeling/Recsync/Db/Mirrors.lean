import Recsync.Db.Follows
import Recsync.Db.History

set_option autoImplicit false

/- The tables mirror the messages of all clients. -/
namespace Recsync.Db

open Recast (CollectionSession SessionCall SessionConfig Clock Outcome inThread call_cases close_source)
open Tables

/-- A client whose session has recorded what it was told. -/
structure Client.Tracked (cfg : DbConfig) (c : Client) : Prop where
  opened : c.closed = false → Recorded cfg (history c.calls) c.session
  closed : c.closed = true → c.dropped = false → meaning cfg c.session.flushed.dropLast = history c.calls

/-- All messages of the client are committed, and its disconnect is not. -/
def Client.Settled (c : Client) : Prop :=
  c.closed = false ∧ c.session.dirty = false ∧ c.executed = c.session.flushed.length ∨
    c.closed = true ∧ c.dropped = false ∧ c.executed + 1 = c.session.flushed.length

theorem Client.Tracked.settled {cfg : DbConfig} {c : Client} (tracked : c.Tracked cfg)
    (settled : c.Settled) : meaning cfg (c.session.flushed.take c.executed) = history c.calls := by
  rcases settled with ⟨opened, clean, all⟩ | ⟨closed, kept, all⟩
  · rw [all, List.take_length]
    exact (tracked.opened opened).clean clean
  · have front : c.session.flushed.take c.executed = c.session.flushed.dropLast := by
      rw [List.dropLast_eq_take, ← all, Nat.add_sub_cancel]
    rw [front]
    exact tracked.closed closed kept

/-- What a step can do to a client that is there. -/
inductive Client.Goes (limits : SessionConfig) : Event → Client → Client → Prop
  | stays (e : Event) (c : Client) : Goes limits e c c
  | call {srcid : Nat} {c : Client} (opened : c.closed = false) (clock : Clock) (call : SessionCall) :
    Goes limits (.call srcid clock call) c { c with
      session := c.session.call limits inThread clock call
      calls := c.calls ++ [call] }
  | close {srcid : Nat} {c : Client} (opened : c.closed = false) : Goes limits (.close srcid) c { c with
      session := c.session.close inThread
      closed := true
      dropped := c.session.dirty }
  | execute (srcid : Nat) (c : Client) :
    Goes limits (.execute srcid) c { c with executed := c.executed + 1 }
  | fires (srcid : Nat) (c : Client) (outcome : Outcome) :
    Goes limits (.fires srcid outcome) c { c with session := c.session.fire inThread outcome }

theorem System.step_client {limits : SessionConfig} {cfg : DbConfig} {sys : System} {e : Event}
    {c' : Client} (there : (sys.step limits cfg e).clients e.srcid = some c') :
    (sys.clients e.srcid = none ∧ ∃ srcid host port, e = .opens srcid host port ∧
        c' = { session := CollectionSession.opened host port srcid }) ∨
      ∃ c, sys.clients e.srcid = some c ∧ c.Goes limits e c' := by
  have set (s : System) (c : Client) (there : (s.set e.srcid c).clients e.srcid = some c') : c' = c :=
    Option.some.inj (there.symm.trans (Function.update_self _ _ _))
  unfold System.step at there
  split at there
  · next c known =>
    refine Or.inr ⟨c, known, ?_⟩
    have stays (there : sys.clients e.srcid = some c') : c.Goes limits e c' := by
      obtain rfl : c = c' := Option.some.inj (known.symm.trans there)
      exact .stays e c
    cases e with
    | opens srcid host port => exact stays there
    | call srcid clock call =>
      simp only [System.stepClient] at there
      split at there
      · exact stays there
      · next opened =>
        rw [set sys _ there]
        exact .call (by simpa using opened) clock call
    | close srcid =>
      simp only [System.stepClient] at there
      split at there
      · exact stays there
      · next opened =>
        rw [set sys _ there]
        exact .close (by simpa using opened)
    | execute srcid =>
      simp only [System.stepClient] at there
      split at there
      · split at there
        · rw [set sys _ there]
          exact .execute srcid c
        · rw [set sys _ there]
          exact .execute srcid c
      · exact stays there
    | fires srcid outcome =>
      simp only [System.stepClient] at there
      split at there
      · rw [set sys _ there]
        exact .fires srcid c outcome
      · exact stays there
  · next absent =>
    refine Or.inl ⟨absent, ?_⟩
    split at there
    · next srcid host port =>
      exact ⟨srcid, host, port, rfl, set sys _ there⟩
    · rw [absent] at there
      cases there

/-- The rows with a given parent are one per key, with its value. -/
def InfosMirrored (rows : List InfoRow) (parent : Nat) (infos : Value → Option Value) : Prop :=
  ∀ key, rows.filter (fun row => decide (row.index = (parent, key))) =
    (infos key).toList.map fun value => ⟨parent, key, value⟩

/-- The rows that belong to a server row are exactly those that `v` names. -/
structure Database.Mirrors (db : Database) (srvid : Nat) (v : View) : Prop where
  infos : InfosMirrored db.servinfo srvid v.infos
  absent : ∀ id, v.records id = none →
    db.record.filter (fun row => decide (row.index = (id, srvid))) = []
  present : ∀ id r, v.records id = some r → ∃ row,
    db.record.filter (fun row => decide (row.index = (id, srvid))) = [row] ∧
      row.rtype = r.rtype ∧ db.namesOf row.pkey = r.names ∧ InfosMirrored db.recinfo row.pkey r.infos

theorem infosMirrored_of_nodup {rows : List InfoRow} (nodup : (rows.map InfoRow.index).Nodup)
    (parent : Nat) : InfosMirrored rows parent (Database.infosOf rows parent) := by
  intro key
  rw [filter_key nodup, Database.infosOf]
  cases found : find InfoRow.index rows (parent, key) with
  | none => rfl
  | some row =>
    obtain ⟨rfl, rfl⟩ : row.parent = parent ∧ row.key = key := by
      simpa [InfoRow.index] using (mem_of_find found).2
    rfl

theorem Database.Sound.mirrors {db : Database} (sound : db.Sound) (srvid : Nat) :
    db.Mirrors srvid (db.view srvid) where
  infos := infosMirrored_of_nodup sound.servinfoKeys srvid
  absent id unknown := by
    have missing : find RecordRow.index db.record (id, srvid) = none := by
      simpa [Database.view] using unknown
    rw [filter_key sound.recordKeys, missing]
    rfl
  present id r known := by
    obtain ⟨row, found, rfl⟩ := Option.map_eq_some_iff.mp known
    refine ⟨row, ?_, rfl, rfl, infosMirrored_of_nodup sound.recinfoKeys row.pkey⟩
    rw [filter_key sound.recordKeys, found]
    rfl

/-- When an event may come: every client has an endpoint of its own, its messages are orderly, and
its connection is lost after the first flush. -/
def Orderly (limits : SessionConfig) (sys : System) : Event → Prop
  | .opens srcid host port => ∀ other c, other ≠ srcid → sys.clients other = some c →
    ¬ (c.session.host = host ∧ c.session.port = port)
  | .call srcid clock call => ∀ c, sys.clients srcid = some c → c.closed = false →
    OrderlyCall (history c.calls) (c.session.flushSafely limits inThread clock).transaction call
  | .close srcid => ∀ c, sys.clients srcid = some c → c.session.flushed ≠ []
  | _ => True

/-- The columns keep the texts of the event as they are. -/
def Kept (cfg : DbConfig) : Event → Prop
  | .call _ _ call => KeptCall cfg call
  | _ => True

/-- The states in which the rows mirror what the clients have said. -/
structure System.Mirrored (cfg : DbConfig) (sys : System) : Prop where
  follows : sys.Follows True cfg
  tracked : ∀ srcid c, sys.clients srcid = some c → c.Tracked cfg
  distinct : ∀ srcid other c d, sys.clients srcid = some c → sys.clients other = some d →
    c.session.host = d.session.host → c.session.port = d.session.port → srcid = other

section Mirrored

variable {limits : SessionConfig} {cfg : DbConfig} {sys : System} {e : Event}

theorem Client.Goes.endpoint {c c' : Client} (goes : c.Goes limits e c') :
    c'.session.host = c.session.host ∧ c'.session.port = c.session.port := by
  cases goes with
  | stays => exact ⟨rfl, rfl⟩
  | call opened clock call =>
    rcases call_cases limits inThread clock c.session call with
      ⟨calls, collects⟩ | ⟨-, calls, flush, collects⟩
    · exact ⟨collects.source.1, collects.source.2.1⟩
    · exact ⟨collects.source.1.trans flush.source.1, collects.source.2.1.trans flush.source.2.1⟩
  | close opened =>
    have kept := close_source inThread c.session
    exact ⟨kept.1, kept.2.1⟩
  | execute => exact ⟨rfl, rfl⟩
  | fires srcid c outcome =>
    have kept := Recast.fire_collects inThread c.session outcome
    exact ⟨kept.source.1, kept.source.2.1⟩

theorem Client.Tracked.goes {c c' : Client} (tracked : c.Tracked cfg) (goes : c.Goes limits e c')
    (orderly : ∀ srcid clock call, e = .call srcid clock call → c.closed = false →
      OrderlyCall (history c.calls) (c.session.flushSafely limits inThread clock).transaction call)
    (kept : Kept cfg e) : c'.Tracked cfg := by
  cases goes with
  | stays => exact tracked
  | @call srcid c opened clock call =>
    refine ⟨fun _ => ?_, fun closed => ?_⟩
    · rw [history_concat]
      exact (tracked.opened opened).call limits inThread clock (orderly srcid clock call rfl opened) kept
    · rw [opened] at closed
      cases closed
  | close opened =>
    refine ⟨fun still => (by cases still), fun _ clean => ?_⟩
    rw [CollectionSession.close_flushed, List.dropLast_concat]
    exact (tracked.opened opened).clean clean
  | execute => exact ⟨tracked.opened, tracked.closed⟩
  | fires srcid c outcome =>
    have same := Recast.fire_collects inThread c.session outcome
    refine ⟨fun opened => (tracked.opened opened).idle same, fun closed clean => ?_⟩
    rw [same.flushed]
    exact tracked.closed closed clean

theorem System.Mirrored.careful (mirrored : sys.Mirrored cfg) (orderly : Orderly limits sys e) :
    Careful limits cfg sys e := by
  cases e with
  | opens srcid host port =>
    intro other c different there sameHost samePort
    exact absurd ⟨sameHost, samePort⟩ (orderly other c different there)
  | call srcid clock call =>
    intro c known opened _
    exact ((mirrored.tracked srcid c known).opened opened).pending.fits
  | close srcid => exact orderly
  | execute srcid => trivial
  | fires srcid outcome => trivial

theorem System.Mirrored.step (mirrored : sys.Mirrored cfg) (orderly : Orderly limits sys e)
    (kept : Kept cfg e) : (sys.step limits cfg e).Mirrored cfg := by
  -- the client of the event is new, or goes on from what it was; the others are as before
  have own (c' : Client) (there : (sys.step limits cfg e).clients e.srcid = some c') :
      c'.Tracked cfg ∧ ∀ other d, other ≠ e.srcid → sys.clients other = some d →
        ¬ (c'.session.host = d.session.host ∧ c'.session.port = d.session.port) := by
    rcases System.step_client there with ⟨-, srcid, host, port, rfl, rfl⟩ | ⟨c, known, goes⟩
    · refine ⟨⟨fun _ => Recorded.opened cfg host port srcid, fun closed => by cases closed⟩, ?_⟩
      intro other d different old same
      exact orderly other d different old ⟨same.1.symm, same.2.symm⟩
    · refine ⟨(mirrored.tracked e.srcid c known).goes goes ?_ kept, ?_⟩
      · rintro srcid clock call rfl opened
        exact orderly c known opened
      · intro other d different old same
        obtain ⟨host, port⟩ := goes.endpoint
        exact different (mirrored.distinct e.srcid other c d known old (host.symm.trans same.1)
          (port.symm.trans same.2)).symm
  have others (other : Nat) (different : other ≠ e.srcid) :
      (sys.step limits cfg e).clients other = sys.clients other :=
    sys.step_elsewhere limits cfg different
  refine ⟨mirrored.follows.step limits (mirrored.careful orderly), ?_, ?_⟩
  · intro srcid c there
    by_cases here : srcid = e.srcid
    · exact (own c (here ▸ there)).1
    · exact mirrored.tracked srcid c ((others srcid here).symm.trans there)
  · intro i j c d there there' host port
    by_cases first : i = e.srcid
    · by_cases second : j = e.srcid
      · rw [first, second]
      · have old := (others j second).symm.trans there'
        exact absurd ⟨host, port⟩ ((own c (first ▸ there)).2 j d second old)
    · have old := (others i first).symm.trans there
      by_cases second : j = e.srcid
      · exact absurd ⟨host.symm, port.symm⟩ ((own d (second ▸ there')).2 i c first old)
      · exact mirrored.distinct i j c d old ((others j second).symm.trans there') host port

end Mirrored

def OrderlyRun (limits : SessionConfig) (cfg : DbConfig) (sys : System) (events : List Event) : Prop :=
  Runs.EveryStep (fun done => Orderly limits (sys.run limits cfg done)) events

theorem OrderlyRun.nil (limits : SessionConfig) (cfg : DbConfig) (sys : System) :
    OrderlyRun limits cfg sys [] := Runs.EveryStep.nil _

theorem OrderlyRun.cons {limits : SessionConfig} {cfg : DbConfig} {sys : System} {e : Event}
    {rest : List Event} (head : Orderly limits sys e)
    (tail : OrderlyRun limits cfg (sys.step limits cfg e) rest) :
    OrderlyRun limits cfg sys (e :: rest) :=
  Runs.EveryStep.cons (P := fun done => Orderly limits (sys.run limits cfg done)) head tail

/-- The rows of the clients in a state: those of a client whose messages are all committed mirror
them, none is left of a client whose disconnect is committed, and a commit of one client spares
the rows of the others. -/
structure System.MirrorsHistory (limits : SessionConfig) (cfg : DbConfig) (sys : System) : Prop where
  committed : ∀ srcid c, sys.clients srcid = some c → c.Settled → 0 < c.executed →
    ∃ row ∈ sys.proc.db.server, sys.proc.sources srcid = some row.id ∧
      row.endpoint = (c.session.host, c.session.port, cfg.mykey) ∧
      sys.proc.db.Mirrors row.id (history c.calls)
  gone : ∀ srcid c, sys.clients srcid = some c → c.Finished → sys.proc.sources srcid = none ∧
    ∀ row ∈ sys.proc.db.server, row.endpoint ≠ (c.session.host, c.session.port, cfg.mykey)
  sound : sys.proc.db.Sound
  apart : ∀ srcid, System.Follows.Spares sys srcid (sys.step limits cfg (.execute srcid)).proc

theorem System.Mirrored.mirrorsHistory {cfg : DbConfig} {sys : System} (mirrored : sys.Mirrored cfg)
    (limits : SessionConfig) : sys.MirrorsHistory limits cfg where
  committed srcid c known settled begun := by
    have going : ¬ c.Finished := by
      rcases settled with ⟨opened, -⟩ | ⟨-, -, all⟩
      · simp [Client.Finished, opened]
      · exact fun finished => by have := finished.2; omega
    obtain ⟨row, member, source, endpoint, -, exactly⟩ :=
      mirrored.follows.held srcid c known ⟨begun, going⟩
    have view := exactly trivial
    rw [(mirrored.tracked srcid c known).settled settled] at view
    exact ⟨row, member, source, endpoint, view ▸ mirrored.follows.sound.mirrors row.id⟩
  gone srcid c known finished := by
    constructor
    · apply mirrored.follows.unlisted srcid
      intro d there listed
      obtain rfl : c = d := Option.some.inj (known.symm.trans there)
      exact listed.2 finished
    · intro row member endpoint
      obtain ⟨other, d, there, listed, -, host, port⟩ :=
        mirrored.follows.client_of_endpoint trivial member endpoint
      obtain rfl := mirrored.distinct srcid other c d known there host port
      obtain rfl : c = d := Option.some.inj (known.symm.trans there)
      exact listed.2 finished
  sound := mirrored.follows.sound
  apart srcid := by
    have stays : System.Follows.Spares sys srcid sys.proc := fun row member _ => ⟨member, rfl⟩
    unfold System.step
    split
    · next c known =>
      simp only [System.stepClient]
      split
      · next t waiting healthy =>
        obtain ⟨p, ran, -, spares⟩ := mirrored.follows.executes known waiting
        rw [ran]
        exact spares trivial
      · exact stays
    · exact stays

/-- The tables mirror the message history: in every state of every orderly run, as long as the
columns keep the texts of the messages as they are. -/
theorem tables_mirror_history {limits : SessionConfig} {cfg : DbConfig} {db : Database}
    (sound : db.Sound) (clean : ∀ row ∈ db.server, row.owner ≠ cfg.mykey) {events : List Event}
    (orderly : OrderlyRun limits cfg { proc := { db } } events) (kept : ∀ e ∈ events, Kept cfg e)
    {reached : List Event} (inside : reached <+: events) :
    (System.run limits cfg { proc := { db } } reached).MirrorsHistory limits cfg := by
  have start : System.Mirrored cfg { proc := { db } } :=
    ⟨System.Follows.start sound fun _ => clean, by simp, by simp⟩
  have mirrored : (System.run limits cfg { proc := { db } } reached).Mirrored cfg := by
    refine orderly.maintains (I := fun done =>
      (System.run limits cfg { proc := { db } } done).Mirrored cfg) start ?_ inside
    intro done e member before now
    rw [System.run, List.foldl_append]
    exact before.step now (kept e member)
  exact mirrored.mirrorsHistory limits

/-- What a column of the affinity NUMERIC makes of a text of digits. -/
def wholeNumbers (s : String) : Value :=
  if s ≠ "" ∧ s.length ≤ 18 ∧ s.toList.all Char.isDigit = true then
    .integer (s.toList.foldl (fun n d => n * 10 + (d.toNat - '0'.toNat)) 0 : Nat)
  else .text s

/-- A record is deleted and added again, in the second of two transactions. -/
def renewedRecord : List Event :=
  [.opens 0 "ioc" 5064, .call 0 {} (.iocInfo "IOCNAME" "ioc"), .call 0 {} (.addRecord 1 "ai" "pv"),
    .call 0 {} (.addAlias 1 "pv-alias"), .call 0 {} (.recInfo 1 "autosave" "fields"), .call 0 {} .done,
    .call 0 {} (.delRecord 1), .call 0 {} (.addRecord 1 "ao" "pv"), .call 0 {} .done,
    .execute 0, .fires 0 (.ok ()), .execute 0]

theorem tables_mirror_history_renewedRecord :
    OrderlyRun {} ⟨1, wholeNumbers⟩ {} renewedRecord ∧
      (System.run {} ⟨1, wholeNumbers⟩ {} renewedRecord).MirrorsHistory {} ⟨1, wholeNumbers⟩ ∧
      ∃ c, (System.run {} ⟨1, wholeNumbers⟩ {} renewedRecord).clients 0 = some c ∧ c.Settled ∧
        c.executed = 2 := by
  have orderly : OrderlyRun {} ⟨1, wholeNumbers⟩ {} renewedRecord := by
    refine .cons ?_ (.cons ?_ (.cons ?_ (.cons ?_ (.cons ?_ (.cons ?_ (.cons ?_ (.cons ?_ (.cons ?_
      (.cons trivial (.cons trivial (.cons trivial (.nil _ _ _))))))))))))
    · intro other c _ there
      cases there
    · exact fun c _ _ => trivial
    · intro c known _
      obtain rfl := Option.some.inj known
      rfl
    · intro c known _
      obtain rfl := Option.some.inj known
      exact ⟨_, rfl, by decide⟩
    · intro c known _
      obtain rfl := Option.some.inj known
      rfl
    · exact fun c _ _ => trivial
    · intro c known _
      obtain rfl := Option.some.inj known
      rfl
    · intro c known _
      obtain rfl := Option.some.inj known
      rfl
    · exact fun c _ _ => trivial
  have kept : ∀ e ∈ renewedRecord, Kept ⟨1, wholeNumbers⟩ e := by
    simp only [renewedRecord, List.forall_mem_cons, List.not_mem_nil, Kept, KeptCall, false_implies,
      implies_true]
    decide
  have none : ∀ row ∈ ({} : Database).server, row.owner ≠ 1 := by simp
  refine ⟨orderly, tables_mirror_history Database.sound_empty none orderly kept List.prefix_rfl,
    _, rfl, Or.inl ⟨rfl, rfl, rfl⟩, rfl⟩

/-- Two keys that read as the same number. -/
def numericKeys : List Event :=
  [.opens 0 "ioc" 5064, .call 0 {} (.iocInfo "7" "a"), .call 0 {} (.iocInfo "07" "b"), .call 0 {} .done,
    .execute 0]

/-- There is one row for both, and it has the value of the second. -/
theorem numeric_keys_collide :
    OrderlyRun {} ⟨1, wholeNumbers⟩ {} numericKeys ∧
      ¬ (System.run {} ⟨1, wholeNumbers⟩ {} numericKeys).MirrorsHistory {} ⟨1, wholeNumbers⟩ := by
  constructor
  · refine .cons ?_ (.cons ?_ (.cons ?_ (.cons ?_ (.cons trivial (.nil _ _ _)))))
    · intro other c _ there
      cases there
    · exact fun c _ _ => trivial
    · exact fun c _ _ => trivial
    · exact fun c _ _ => trivial
  · intro mirrors
    obtain ⟨row, member, -, -, rows⟩ := mirrors.committed 0 _ rfl (Or.inl ⟨rfl, rfl, rfl⟩) (by decide)
    obtain rfl := List.mem_singleton.mp member
    exact absurd (rows.infos (.text "7")) (by decide)

end Recsync.Db
