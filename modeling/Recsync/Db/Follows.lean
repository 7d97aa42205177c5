import Recsync.Db.Clients

set_option autoImplicit false

/- The database processor follows its clients through every careful run. -/
namespace Recsync.Db

open Recast (CollectionSession SessionCall SessionConfig Clock Outcome Transaction Sending Sent goodbye
  inThread flushesAt sending_opened call_flushed)
open Tables

/-- The server row of a client, and what its rows say. They say no more than the client does if the
tables were clean at the start. -/
def Client.Held (clean : Prop) (cfg : DbConfig) (p : DBProcessor) (srcid : Nat) (c : Client) :
    Prop :=
  ∃ row ∈ p.db.server, p.sources srcid = some row.id ∧
    row.endpoint = (c.session.host, c.session.port, cfg.mykey) ∧
    (meaning cfg (c.session.flushed.take c.executed)).Extends (p.db.view row.id) ∧
    (clean → p.db.view row.id = meaning cfg (c.session.flushed.take c.executed))

/-- The states in which the database follows the clients. -/
structure System.Follows (clean : Prop) (cfg : DbConfig) (sys : System) : Prop where
  healthy : sys.failed = none
  sound : sys.proc.db.Sound
  clients : ∀ srcid c, sys.clients srcid = some c → ClientOk cfg srcid c
  held : ∀ srcid c, sys.clients srcid = some c → c.Listed → c.Held clean cfg sys.proc srcid
  unlisted : ∀ srcid, (∀ c, sys.clients srcid = some c → ¬ c.Listed) → sys.proc.sources srcid = none
  owned : clean → ∀ row ∈ sys.proc.db.server, row.owner = cfg.mykey →
    ∃ srcid c, sys.clients srcid = some c ∧ c.Listed ∧ sys.proc.sources srcid = some row.id
  apart : ∀ srcid other c d, sys.clients srcid = some c → sys.clients other = some d →
    ¬ c.Finished → ¬ d.Finished → c.session.host = d.session.host →
    c.session.port = d.session.port → srcid = other

namespace System.Follows

variable {clean : Prop} {cfg : DbConfig} {sys : System}

theorem start {db : Database} (sound : db.Sound)
    (none : clean → ∀ row ∈ db.server, row.owner ≠ cfg.mykey) :
    System.Follows clean cfg { proc := { db } } where
  healthy := rfl
  sound := sound
  clients := by simp
  held := by simp
  unlisted _ _ := rfl
  owned swept row member own := absurd own (none swept row member)
  apart := by simp

theorem client_of_endpoint (follows : sys.Follows clean cfg) (swept : clean) {row : ServerRow}
    (member : row ∈ sys.proc.db.server) {host : String} {port : Nat}
    (endpoint : row.endpoint = (host, port, cfg.mykey)) :
    ∃ srcid c, sys.clients srcid = some c ∧ c.Listed ∧ sys.proc.sources srcid = some row.id ∧
      host = c.session.host ∧ port = c.session.port := by
  have own : row.owner = cfg.mykey := congrArg (fun e => e.2.2) endpoint
  obtain ⟨srcid, c, known, listed, source⟩ := follows.owned swept row member own
  obtain ⟨row', member', source', endpoint', -⟩ := follows.held srcid c known listed
  have sameId : row'.id = row.id := Option.some.inj (source'.symm.trans source)
  have sameRow := List.inj_on_of_nodup_map follows.sound.serverKeys member' member sameId
  rw [sameRow, endpoint] at endpoint'
  simp only [Prod.mk.injEq, and_true] at endpoint'
  exact ⟨srcid, c, known, listed, source, endpoint'.1, endpoint'.2⟩

/-- No other client that is not finished has the endpoint of this one. -/
theorem endpoint_apart (follows : sys.Follows clean cfg) {srcid other : Nat} {c d : Client}
    (known : sys.clients srcid = some c) (going : ¬ c.Finished) (different : other ≠ srcid)
    (there : sys.clients other = some d) (going' : ¬ d.Finished)
    (host : c.session.host = d.session.host) : c.session.port ≠ d.session.port := by
  intro port
  exact different (follows.apart srcid other c d known there going going' host port).symm

theorem own_row (follows : sys.Follows clean cfg) (swept : clean) {srcid : Nat} {c : Client}
    (known : sys.clients srcid = some c) (unfinished : ¬ c.Finished) {row : ServerRow}
    (member : row ∈ sys.proc.db.server)
    (endpoint : row.endpoint = (c.session.host, c.session.port, cfg.mykey)) :
    c.Listed ∧ sys.proc.sources srcid = some row.id := by
  obtain ⟨other, d, there, listed, source, host, port⟩ := follows.client_of_endpoint swept member endpoint
  obtain rfl := follows.apart srcid other c d known there unfinished listed.2 host port
  obtain rfl : c = d := Option.some.inj (known.symm.trans there)
  exact ⟨listed, source⟩

/-- Two clients with server rows have different ones. -/
theorem sources_apart (follows : sys.Follows clean cfg) {srcid other : Nat} {c d : Client}
    (known : sys.clients srcid = some c) (there : sys.clients other = some d)
    (listed : c.Listed) (listed' : d.Listed) {srvid : Nat}
    (source : sys.proc.sources srcid = some srvid) (source' : sys.proc.sources other = some srvid) :
    srcid = other := by
  obtain ⟨row, member, holds, endpoint, -⟩ := follows.held srcid c known listed
  obtain ⟨row', member', holds', endpoint', -⟩ := follows.held other d there listed'
  have sameId : row.id = row'.id :=
    (Option.some.inj (holds.symm.trans source)).trans (Option.some.inj (holds'.symm.trans source')).symm
  have sameRow := List.inj_on_of_nodup_map follows.sound.serverKeys member member' sameId
  rw [sameRow, endpoint'] at endpoint
  simp only [Prod.mk.injEq, and_true] at endpoint
  exact follows.apart srcid other c d known there listed.2 listed'.2 endpoint.1.symm endpoint.2.symm

/-- A client whose source id is known has a server row. -/
theorem listed_of_source (follows : sys.Follows clean cfg) {srcid srvid : Nat} {c : Client}
    (known : sys.clients srcid = some c) (source : sys.proc.sources srcid = some srvid) :
    c.Listed := by
  apply Classical.byContradiction
  intro not
  have none := follows.unlisted srcid fun d there => by
    obtain rfl : c = d := Option.some.inj (known.symm.trans there)
    exact not
  simp [none] at source

/-- One client changes, and at most its own rows with it. -/
theorem changes (follows : sys.Follows clean cfg) {srcid : Nat} {c : Client} {p : DBProcessor}
    (sound : p.db.Sound) (ok : ClientOk cfg srcid c)
    (others : ∀ other d, other ≠ srcid → sys.clients other = some d → d.Listed →
      d.Held clean cfg sys.proc other → d.Held clean cfg p other)
    (sources : ∀ other, other ≠ srcid → p.sources other = sys.proc.sources other)
    (held : c.Listed → c.Held clean cfg p srcid) (unlisted : ¬ c.Listed → p.sources srcid = none)
    (owned : clean → ∀ row ∈ p.db.server, row.owner = cfg.mykey →
      row ∈ sys.proc.db.server ∧ sys.proc.sources srcid ≠ some row.id ∨
        c.Listed ∧ p.sources srcid = some row.id)
    (apart : ∀ other d, other ≠ srcid → sys.clients other = some d → ¬ c.Finished → ¬ d.Finished →
      c.session.host = d.session.host → c.session.port ≠ d.session.port) :
    System.Follows clean cfg { sys.set srcid c with proc := p } := by
  have self : (sys.set srcid c).clients srcid = some c := by simp [System.set]
  have same (other : Nat) (different : other ≠ srcid) :
      (sys.set srcid c).clients other = sys.clients other := by simp [System.set, different]
  refine ⟨follows.healthy, sound, ?_, ?_, ?_, ?_, ?_⟩
  · intro other d there
    by_cases here : other = srcid
    · subst here
      obtain rfl : c = d := Option.some.inj (self.symm.trans there)
      exact ok
    · exact follows.clients other d ((same other here).symm.trans there)
  · intro other d there listed
    by_cases here : other = srcid
    · subst here
      obtain rfl : c = d := Option.some.inj (self.symm.trans there)
      exact held listed
    · have old := (same other here).symm.trans there
      exact others other d here old listed (follows.held other d old listed)
  · intro other free
    by_cases here : other = srcid
    · subst here
      exact unlisted (free c self)
    · have before := follows.unlisted other fun d old => free d ((same other here).trans old)
      exact (sources other here).trans before
  · intro swept row member own
    rcases owned swept row member own with ⟨stored, elsewhere⟩ | ⟨listed, source⟩
    · obtain ⟨other, d, old, listed, source⟩ := follows.owned swept row stored own
      have here : other ≠ srcid := by
        rintro rfl
        exact elsewhere source
      exact ⟨other, d, (same other here).trans old, listed, (sources other here).trans source⟩
    · exact ⟨srcid, c, self, listed, source⟩
  · intro i j d e there there' unfinished unfinished' sameHost samePort
    by_cases first : i = srcid
    · by_cases second : j = srcid
      · rw [first, second]
      · subst first
        obtain rfl : c = d := Option.some.inj (self.symm.trans there)
        have old := (same j second).symm.trans there'
        exact absurd samePort (apart j e second old unfinished unfinished' sameHost)
    · have old := (same i first).symm.trans there
      by_cases second : j = srcid
      · subst second
        obtain rfl : c = e := Option.some.inj (self.symm.trans there')
        exact absurd samePort.symm (apart i d first old unfinished' unfinished sameHost.symm)
      · have old' := (same j second).symm.trans there'
        exact follows.apart i j d e old old' unfinished unfinished' sameHost samePort

theorem opens (follows : sys.Follows clean cfg) {srcid : Nat} (absent : sys.clients srcid = none)
    (host : String) (port : Nat)
    (free : ∀ other c, other ≠ srcid → sys.clients other = some c → c.session.host = host →
      c.session.port = port → c.Finished) :
    (sys.set srcid { session := CollectionSession.opened host port srcid }).Follows clean cfg := by
  have fresh : ¬ ({ session := CollectionSession.opened host port srcid } : Client).Listed := by
    simp [Client.Listed]
  have unknown : sys.proc.sources srcid = none :=
    follows.unlisted srcid fun c there => by simp [absent] at there
  apply follows.changes follows.sound
  · exact ⟨Or.inl ⟨rfl, sending_opened (Fitting cfg) host port srcid⟩, Nat.zero_le _⟩
  · exact fun _ _ _ _ _ held => held
  · exact fun _ _ => rfl
  · exact fun listed => absurd listed fresh
  · exact fun _ => unknown
  · intro _ row member _
    exact Or.inl ⟨member, by simp [unknown]⟩
  · intro other d different there _ unfinished sameHost samePort
    exact unfinished (free other d different there sameHost.symm samePort.symm)

/-- The session of a client goes on; its rows stay. -/
theorem continues (follows : sys.Follows clean cfg) {srcid : Nat} {c c' : Client}
    (known : sys.clients srcid = some c) (ok : ClientOk cfg srcid c')
    (executed : c'.executed = c.executed) (host : c'.session.host = c.session.host)
    (port : c'.session.port = c.session.port) (grown : c.session.flushed <+: c'.session.flushed)
    (finished : c'.Finished ↔ c.Finished) : (sys.set srcid c').Follows clean cfg := by
  have listed : c'.Listed ↔ c.Listed := by rw [Client.Listed, Client.Listed, executed, finished]
  have taken : c'.session.flushed.take c'.executed = c.session.flushed.take c.executed := by
    obtain ⟨rest, split⟩ := grown
    rw [executed, ← split]
    exact List.take_append_of_le_length (follows.clients srcid c known).executed
  apply follows.changes follows.sound ok
  · exact fun _ _ _ _ _ held => held
  · exact fun _ _ => rfl
  · intro now
    obtain ⟨row, member, source, endpoint, view⟩ := follows.held srcid c known (listed.mp now)
    refine ⟨row, member, source, ?_, ?_⟩
    · rw [endpoint, host, port]
    · rwa [taken]
  · intro not
    apply follows.unlisted srcid
    intro d there
    obtain rfl : c = d := Option.some.inj (known.symm.trans there)
    exact fun before => not (listed.mpr before)
  · intro _ row member _
    by_cases source : sys.proc.sources srcid = some row.id
    · exact Or.inr ⟨listed.mpr (follows.listed_of_source known source), source⟩
    · exact Or.inl ⟨member, source⟩
  · intro other d different there unfinished unfinished' sameHost samePort
    refine different (follows.apart srcid other c d known there ?_ unfinished' ?_ ?_).symm
    · exact fun before => unfinished (finished.mpr before)
    · exact host.symm.trans sameHost
    · exact port.symm.trans samePort

theorem held_elsewhere (follows : sys.Follows clean cfg) {srcid srvid : Nat} {p : DBProcessor} {v : View}
    (view : p.db.view = Function.update sys.proc.db.view srvid v)
    (server : ∀ row ∈ sys.proc.db.server, row.id ≠ srvid → row ∈ p.db.server)
    (sources : ∀ other, other ≠ srcid → p.sources other = sys.proc.sources other)
    (own : ∀ other d, other ≠ srcid → sys.clients other = some d → d.Listed →
      sys.proc.sources other ≠ some srvid) {other : Nat} {d : Client} (different : other ≠ srcid)
    (there : sys.clients other = some d) (listed : d.Listed) : d.Held clean cfg p other := by
  obtain ⟨row, member, source, endpoint, told⟩ := follows.held other d there listed
  have elsewhere : row.id ≠ srvid := by
    rintro rfl
    exact own other d different there listed source
  refine ⟨row, server row member elsewhere, (sources other different).trans source, endpoint, ?_⟩
  rwa [view, Function.update_of_ne elsewhere]

/-- A commit leaves the rows of the other servers alone. -/
def Spares (sys : System) (srcid : Nat) (p : DBProcessor) : Prop :=
  ∀ row ∈ sys.proc.db.server, sys.proc.sources srcid ≠ some row.id →
    row ∈ p.db.server ∧ p.db.rowsOf row.id = sys.proc.db.rowsOf row.id

/-- A client that has committed nothing is not in the table of sources. -/
theorem unknown_of_unstarted (follows : sys.Follows clean cfg) {srcid : Nat} {c : Client}
    (known : sys.clients srcid = some c) (first : c.executed = 0) :
    sys.proc.sources srcid = none := by
  apply follows.unlisted srcid
  intro d there listed
  obtain rfl : c = d := Option.some.inj (known.symm.trans there)
  exact absurd first (Nat.ne_of_gt listed.1)

theorem endpoint_fresh (follows : sys.Follows clean cfg) (swept : clean) {srcid : Nat} {c : Client}
    (known : sys.clients srcid = some c) (first : c.executed = 0) (going : ¬ c.Finished) :
    find ServerRow.endpoint sys.proc.db.server (c.session.host, c.session.port, cfg.mykey) =
      none := by
  rw [find_eq_none_iff]
  intro row member endpoint
  have own := follows.own_row swept known going member endpoint
  simp [follows.unknown_of_unstarted known first] at own

theorem id_ne_nextKey {row : ServerRow} (member : row ∈ sys.proc.db.server) :
    row.id ≠ nextKey sys.proc.db.serverIds := by
  intro same
  exact nextKey_fresh sys.proc.db.serverIds (same ▸ List.mem_map_of_mem member)

/-- A row with the endpoint of a client is the source of no other client. -/
theorem source_ne_of_endpoint (follows : sys.Follows clean cfg) {srcid other : Nat} {c d : Client}
    (known : sys.clients srcid = some c) (going : ¬ c.Finished) (different : other ≠ srcid)
    (there : sys.clients other = some d) (listed : d.Listed) {db : Database} (sound : db.Sound)
    (stays : ∀ stored ∈ sys.proc.db.server, stored ∈ db.server) {row : ServerRow}
    (chosen : row ∈ db.server)
    (endpoint : row.endpoint = (c.session.host, c.session.port, cfg.mykey)) :
    sys.proc.sources other ≠ some row.id := by
  intro source
  obtain ⟨held, member, holds, theirs, -⟩ := follows.held other d there listed
  have sameId : held.id = row.id := Option.some.inj (holds.symm.trans source)
  have same := List.inj_on_of_nodup_map sound.serverKeys (stays held member) chosen sameId
  rw [same, endpoint] at theirs
  simp only [Prod.mk.injEq, and_true] at theirs
  exact follows.endpoint_apart known going different there listed.2 theirs.1 theirs.2

/-- The first commit of a client adds a row. The client gets that one, or an older one with its
endpoint, of which there is none if the tables were clean at the start. -/
theorem begins_commit (follows : sys.Follows clean cfg) {srcid : Nat} {c : Client} {t : Transaction}
    (known : sys.clients srcid = some c) (first : c.executed = 0) (going : ¬ c.Finished)
    (sent : Sent c.session.host c.session.port srcid [] t) (fits : Fitting cfg [] t) :
    let new : ServerRow := ⟨nextKey sys.proc.db.serverIds, cfg.mykey, c.session.host, c.session.port⟩
    ∃ db row, commit cfg t sys.proc =
        (.ok (), ⟨db, Function.update sys.proc.sources srcid (some row.id)⟩) ∧
      db.Sound ∧ db.server = sys.proc.db.server ++ [new] ∧ row ∈ db.server ∧
      row.endpoint = (c.session.host, c.session.port, cfg.mykey) ∧
      db.view = Function.update sys.proc.db.view row.id ((sys.proc.db.view row.id).commit cfg t) ∧
      (∀ s, s ≠ row.id → db.rowsOf s = sys.proc.db.rowsOf s) ∧ (clean → row = new) := by
  intro new
  obtain ⟨db, ran, sound, server, chosen, endpoint, view, others⟩ :=
    commit_initial follows.sound sent.initial sent.connected fits
  rw [sent.host, sent.port] at ran server chosen endpoint view others
  rw [sent.srcid] at ran
  refine ⟨db, _, ran, sound, server, chosen, endpoint, view, others, ?_⟩
  intro swept
  rw [follows.endpoint_fresh swept known first going, Option.getD_none]

theorem begins (follows : sys.Follows clean cfg) {srcid : Nat} {c : Client} {t : Transaction}
    (known : sys.clients srcid = some c) (first : c.executed = 0)
    (unfinished : c.executed < c.session.flushed.length)
    (taken : c.session.flushed.take (c.executed + 1) = c.session.flushed.take c.executed ++ [t])
    (sent : Sent c.session.host c.session.port srcid (c.session.flushed.take c.executed) t)
    (fits : Fitting cfg (c.session.flushed.take c.executed) t)
    (more : ¬ (c.closed = true ∧ c.executed + 1 = c.session.flushed.length)) :
    ∃ p, commit cfg t sys.proc = (.ok (), p) ∧
      System.Follows clean cfg { sys.set srcid { c with executed := c.executed + 1 } with proc := p } ∧
      (clean → Spares sys srcid p) := by
  have going : ¬ c.Finished := fun finished => Nat.ne_of_lt unfinished finished.2
  have empty : c.session.flushed.take c.executed = [] := by rw [first, List.take_zero]
  rw [empty] at sent fits taken
  obtain ⟨db, row, ran, sound, server, chosen, endpoint, view, others, latest⟩ :=
    follows.begins_commit known first going sent fits
  have stays : ∀ stored ∈ sys.proc.db.server, stored ∈ db.server := by
    intro stored member
    rw [server]
    exact List.mem_append_left _ member
  have spares : clean → Spares sys srcid
      ⟨db, Function.update sys.proc.sources srcid (some row.id)⟩ := by
    intro swept stored member _
    refine ⟨stays stored member, others stored.id ?_⟩
    rw [latest swept]
    exact id_ne_nextKey member
  refine ⟨_, ran, ?_, spares⟩
  have sources : ∀ other, other ≠ srcid → Function.update sys.proc.sources srcid
      (some row.id) other = sys.proc.sources other :=
    fun other different => Function.update_of_ne different _ _
  have listed : ({ c with executed := c.executed + 1 } : Client).Listed :=
    ⟨Nat.succ_pos _, more⟩
  apply follows.changes sound
  · exact ⟨(follows.clients srcid c known).session, unfinished⟩
  · intro other d different there listed' _
    apply follows.held_elsewhere view (fun stored member _ => stays stored member) sources _
      different there listed'
    intro other d different there listed
    exact follows.source_ne_of_endpoint known going different there listed sound stays chosen
      endpoint
  · exact sources
  · intro _
    refine ⟨row, chosen, Function.update_self _ _ _, endpoint, ?_⟩
    rw [view, Function.update_self, taken]
    refine ⟨(View.extends_empty _).commit, ?_⟩
    intro swept
    rw [latest swept, follows.sound.view_absent (nextKey_fresh _)]
    rfl
  · exact fun not => absurd listed not
  · intro swept stored member _
    rw [server] at member
    rcases List.mem_append.mp member with old | last
    · exact Or.inl ⟨old, by simp [follows.unknown_of_unstarted known first]⟩
    · rw [List.mem_singleton.mp last, ← latest swept]
      exact Or.inr ⟨listed, Function.update_self _ _ _⟩
  · intro other d different there _ going' host
    have apart := follows.endpoint_apart known going different there going' host
    exact apart

theorem goes (follows : sys.Follows clean cfg) {srcid : Nat} {c : Client} {t : Transaction}
    (known : sys.clients srcid = some c) (later : 0 < c.executed)
    (unfinished : c.executed < c.session.flushed.length)
    (taken : c.session.flushed.take (c.executed + 1) = c.session.flushed.take c.executed ++ [t])
    (sent : Sent c.session.host c.session.port srcid (c.session.flushed.take c.executed) t)
    (fits : Fitting cfg (c.session.flushed.take c.executed) t)
    (more : ¬ (c.closed = true ∧ c.executed + 1 = c.session.flushed.length)) :
    ∃ p, commit cfg t sys.proc = (.ok (), p) ∧
      System.Follows clean cfg { sys.set srcid { c with executed := c.executed + 1 } with proc := p } ∧
      Spares sys srcid p := by
  have going : ¬ c.Finished := fun finished => Nat.ne_of_lt unfinished finished.2
  have begun : c.session.flushed.take c.executed ≠ [] := by
    intro empty
    have length := congrArg List.length empty
    rw [List.length_take, List.length_nil] at length
    omega
  have before : c.Listed := ⟨later, going⟩
  have listed : ({ c with executed := c.executed + 1 } : Client).Listed := ⟨Nat.succ_pos _, more⟩
  obtain ⟨row, member, source, endpoint, told⟩ := follows.held srcid c known before
  have initial : t.initial = false := sent.initial.trans (List.isEmpty_eq_false_iff.mpr begun)
  obtain ⟨db, ran, turns⟩ := commit_connected follows.sound (sent.srcid ▸ source)
    (List.mem_map_of_mem member) initial sent.connected (fits.extends told.1)
  have spares : Spares sys srcid { sys.proc with db } := by
    intro stored inside elsewhere
    refine ⟨turns.server ▸ inside, turns.others stored.id ?_⟩
    intro same
    exact elsewhere (same ▸ source)
  refine ⟨_, ran, ?_, spares⟩
  have sources : ∀ other, other ≠ srcid →
      ({ sys.proc with db } : DBProcessor).sources other = sys.proc.sources other := fun _ _ => rfl
  apply follows.changes turns.sound
  · exact ⟨(follows.clients srcid c known).session, unfinished⟩
  · intro other d different there listed' _
    apply follows.held_elsewhere turns.view _ sources _ different there listed'
    · intro stored inside _
      exact turns.server ▸ inside
    · intro other d different there listed' source'
      exact different (follows.sources_apart known there before listed' source source').symm
  · exact sources
  · intro _
    refine ⟨row, turns.server ▸ member, source, endpoint, ?_⟩
    rw [turns.here, taken, meaning_concat]
    exact ⟨told.1.commit, fun swept => by rw [told.2 swept]⟩
  · exact fun not => absurd listed not
  · intro _ stored inside _
    by_cases own : sys.proc.sources srcid = some stored.id
    · exact Or.inr ⟨listed, own⟩
    · exact Or.inl ⟨turns.server ▸ inside, own⟩
  · intro other d different there _ going' host
    have apart := follows.endpoint_apart known going different there going' host
    exact apart

theorem ends (follows : sys.Follows clean cfg) {srcid : Nat} {c : Client}
    (known : sys.clients srcid = some c) (later : 0 < c.executed) (closed : c.closed = true)
    (last : c.executed + 1 = c.session.flushed.length) :
    ∃ p, commit cfg (goodbye c.session.host c.session.port srcid) sys.proc = (.ok (), p) ∧
      System.Follows clean cfg { sys.set srcid { c with executed := c.executed + 1 } with proc := p } ∧
      Spares sys srcid p := by
  have going : ¬ c.Finished := fun finished => Nat.ne_of_lt (Nat.lt_of_succ_le (Nat.le_of_eq last)) finished.2
  have before : c.Listed := ⟨later, going⟩
  have finished : ({ c with executed := c.executed + 1 } : Client).Finished := ⟨closed, last⟩
  obtain ⟨row, member, source, endpoint, -⟩ := follows.held srcid c known before
  have own : row.owner = cfg.mykey := congrArg (fun e => e.2.2) endpoint
  have ran : commit cfg (goodbye c.session.host c.session.port srcid) sys.proc = _ :=
    commit_goodbye source own rfl rfl
  obtain ⟨sound, server, view, others⟩ := follows.sound.deleteServer member
  have stays : ∀ stored ∈ sys.proc.db.server, stored.id ≠ row.id →
      stored ∈ (sys.proc.db.deleteServer row.id row.owner).server := by
    intro stored inside other
    rw [server]
    exact List.mem_filter.mpr ⟨inside, by simpa using other⟩
  have spares : Spares sys srcid
      ⟨sys.proc.db.deleteServer row.id row.owner, Function.update sys.proc.sources srcid none⟩ := by
    intro stored inside elsewhere
    have other : stored.id ≠ row.id := fun same => elsewhere (same ▸ source)
    exact ⟨stays stored inside other, others stored.id other⟩
  refine ⟨_, ran, ?_, spares⟩
  have sources : ∀ other, other ≠ srcid →
      Function.update sys.proc.sources srcid none other = sys.proc.sources other :=
    fun other different => Function.update_of_ne different _ _
  apply follows.changes sound
  · exact ⟨(follows.clients srcid c known).session, Nat.le_of_eq last⟩
  · intro other d different there listed' _
    apply follows.held_elsewhere view stays sources _ different there listed'
    · intro other d different there listed' source'
      exact different (follows.sources_apart known there before listed' source source').symm
  · exact sources
  · exact fun listed => absurd finished listed.2
  · exact fun _ => Function.update_self _ _ _
  · intro _ stored inside _
    rw [server] at inside
    obtain ⟨old, kept⟩ := List.mem_filter.mp inside
    refine Or.inl ⟨old, ?_⟩
    intro same
    have equal : row.id = stored.id := Option.some.inj (source.symm.trans same)
    simp [equal] at kept
  · intro other d _ _ unfinished
    exact absurd finished unfinished

theorem executes (follows : sys.Follows clean cfg) {srcid : Nat} {c : Client} {t : Transaction}
    (known : sys.clients srcid = some c) (waiting : c.waiting = some t) :
    ∃ p, commit cfg t sys.proc = (.ok (), p) ∧
      System.Follows clean cfg { sys.set srcid { c with executed := c.executed + 1 } with proc := p } ∧
      (clean → Spares sys srcid p) := by
  obtain ⟨inside, taken, ⟨sent, fits, more⟩ | ⟨rfl, closed, last, later⟩⟩ :=
    (follows.clients srcid c known).next waiting
  · rcases Nat.eq_zero_or_pos c.executed with first | later
    · exact follows.begins known first inside taken sent fits more
    · obtain ⟨p, ran, next, spares⟩ := follows.goes known later inside taken sent fits more
      exact ⟨p, ran, next, fun _ => spares⟩
  · obtain ⟨p, ran, next, spares⟩ := follows.ends known later closed last
    exact ⟨p, ran, next, fun _ => spares⟩

theorem call (follows : sys.Follows clean cfg) {srcid : Nat} {c : Client}
    (known : sys.clients srcid = some c) (opened : c.closed = false) (limits : SessionConfig)
    (clock : Clock) (call : SessionCall)
    (fits : flushesAt limits clock c.session call = true →
      (meaning cfg c.session.flushed).Fits cfg c.session.transaction) :
    (sys.set srcid { c with
      session := c.session.call limits inThread clock call
      calls := c.calls ++ [call] }).Follows clean cfg := by
  have ok := follows.clients srcid c known
  have sending : Sending (Fitting cfg) c.session.host c.session.port srcid c.session := by
    simpa [opened] using ok.session
  have now := sending.call limits inThread clock call fits
  have grown := call_flushed limits inThread clock c.session call
  have bound := Nat.le_trans ok.executed grown.length_le
  obtain ⟨host, port, -⟩ := now.source
  have next : ClientOk cfg srcid { c with
      session := c.session.call limits inThread clock call, calls := c.calls ++ [call] } :=
    ⟨Or.inl ⟨opened, by rwa [host, port]⟩, bound⟩
  exact follows.continues known next rfl host port grown (by simp [Client.Finished, opened])

theorem close (follows : sys.Follows clean cfg) {srcid : Nat} {c : Client}
    (known : sys.clients srcid = some c) (opened : c.closed = false)
    (begun : c.session.flushed ≠ []) :
    (sys.set srcid { c with
      session := c.session.close inThread
      closed := true
      dropped := c.session.dirty }).Follows clean cfg := by
  have ok := follows.clients srcid c known
  have sending : Sending (Fitting cfg) c.session.host c.session.port srcid c.session := by
    simpa [opened] using ok.session
  have closing := sending.close inThread
  have grown := CollectionSession.close_flushed inThread c.session
  have longer : (c.session.close inThread).flushed.length = c.session.flushed.length + 1 := by
    simp [grown]
  have bound := ok.executed
  obtain ⟨host, port, -⟩ := closing.source
  have next : ClientOk cfg srcid { c with
      session := c.session.close inThread, closed := true, dropped := c.session.dirty } :=
    ⟨Or.inr ⟨rfl, c.session.flushed, begun, by rwa [host, port]⟩, longer ▸ Nat.le_succ_of_le bound⟩
  apply follows.continues known next rfl host port ⟨_, grown.symm⟩
  simp only [Client.Finished, opened, longer, true_and, Bool.false_eq_true, false_and, iff_false]
  omega

theorem fires (follows : sys.Follows clean cfg) {srcid : Nat} {c : Client}
    (known : sys.clients srcid = some c) (outcome : Outcome) :
    (sys.set srcid { c with session := c.session.fire inThread outcome }).Follows clean cfg := by
  have ok := follows.clients srcid c known
  have kept := Recast.fire_collects inThread c.session outcome
  obtain ⟨host, port, -⟩ := kept.source
  have next : ClientOk cfg srcid { c with session := c.session.fire inThread outcome } := by
    refine ⟨?_, kept.flushed.symm ▸ ok.executed⟩
    rw [host, port]
    rcases ok.session with ⟨opened, sending⟩ | ⟨closed, front, begun, closing⟩
    · exact Or.inl ⟨opened, sending.fire inThread outcome⟩
    · exact Or.inr ⟨closed, front, begun, closing.fire inThread outcome⟩
  apply follows.continues known next rfl host port
  · exact kept.flushed ▸ List.prefix_rfl
  · simp only [Client.Finished, kept.flushed]

theorem step (follows : sys.Follows clean cfg) (limits : SessionConfig) {e : Event}
    (careful : Careful limits cfg sys e) : (sys.step limits cfg e).Follows clean cfg := by
  unfold System.step
  split
  · next c known =>
    cases e with
    | opens srcid host port => exact follows
    | call srcid clock call =>
      simp only [System.stepClient]
      split
      · exact follows
      · next opened =>
        have still : c.closed = false := by simpa using opened
        exact follows.call known still limits clock call (careful c known still)
    | close srcid =>
      simp only [System.stepClient]
      split
      · exact follows
      · next opened => exact follows.close known (by simpa using opened) (careful c known)
    | execute srcid =>
      simp only [System.stepClient]
      split
      · next t waiting healthy =>
        obtain ⟨p, ran, next, -⟩ := follows.executes known waiting
        rw [ran]
        exact next
      · exact follows
    | fires srcid outcome =>
      simp only [System.stepClient]
      split
      · exact follows.fires known outcome
      · exact follows
  · next absent =>
    cases e with
    | opens srcid host port => exact follows.opens absent host port careful
    | call srcid clock call => exact follows
    | close srcid => exact follows
    | execute srcid => exact follows
    | fires srcid outcome => exact follows

end System.Follows

/-- Every step of the run is careful in the state in which it is taken. -/
def CarefulRun (limits : SessionConfig) (cfg : DbConfig) (sys : System) (events : List Event) : Prop :=
  Runs.EveryStep (fun done => Careful limits cfg (sys.run limits cfg done)) events

section Run

variable {clean : Prop} {limits : SessionConfig} {cfg : DbConfig} {sys : System}

theorem CarefulRun.nil (limits : SessionConfig) (cfg : DbConfig) (sys : System) :
    CarefulRun limits cfg sys [] := Runs.EveryStep.nil _

theorem CarefulRun.cons {e : Event} {rest : List Event} (head : Careful limits cfg sys e)
    (tail : CarefulRun limits cfg (sys.step limits cfg e) rest) :
    CarefulRun limits cfg sys (e :: rest) :=
  Runs.EveryStep.cons (P := fun done => Careful limits cfg (sys.run limits cfg done)) head tail

theorem System.Follows.run (follows : sys.Follows clean cfg) {events : List Event}
    (careful : CarefulRun limits cfg sys events) {reached : List Event}
    (inside : reached <+: events) : (sys.run limits cfg reached).Follows clean cfg := by
  refine careful.maintains (I := fun done => (sys.run limits cfg done).Follows clean cfg) follows ?_ inside
  intro done e _ before now
  rw [System.run, List.foldl_append]
  exact before.step limits now

/-- A commit that does not raise finds the source id that it looks up. -/
theorem source_of_commit {t : Transaction} {p q : DBProcessor} (ran : commit cfg t p = (.ok (), q))
    (later : t.initial = false) : (p.sources t.srcid).isSome = true := by
  cases found : p.sources t.srcid with
  | some srvid => rfl
  | none => simp [commit, serverOf, later, found] at ran

end Run

/-- No commit of a careful run raises an exception, whatever rows an earlier run has left. -/
theorem careful_commits_raise_nothing {limits : SessionConfig} {cfg : DbConfig} {db : Database}
    (sound : db.Sound) {events : List Event}
    (careful : CarefulRun limits cfg { proc := { db } } events) {reached : List Event}
    (inside : reached <+: events) :
    let sys := System.run limits cfg { proc := { db } } reached
    sys.failed = none ∧ ∀ srcid c t, sys.clients srcid = some c → c.waiting = some t →
      (commit cfg t sys.proc).1 = .ok () ∧
        (t.initial = false → (sys.proc.sources t.srcid).isSome = true) := by
  intro sys
  have follows : sys.Follows False cfg :=
    (System.Follows.start sound False.elim).run careful inside
  refine ⟨follows.healthy, ?_⟩
  intro srcid c t known waiting
  obtain ⟨p, ran, -⟩ := follows.executes known waiting
  exact ⟨by rw [ran], source_of_commit ran⟩

/-- A client that uploads a record with an alias and an info and goes, and the next one from its
endpoint. -/
def twoClients : List Event :=
  [.opens 0 "ioc" 5064, .call 0 {} (.addRecord 1 "ai" "pv"), .call 0 {} (.addAlias 1 "pv-alias"),
    .call 0 {} (.recInfo 1 "autosave" "fields"), .call 0 {} .done, .execute 0, .fires 0 (.ok ()),
    .close 0, .execute 0, .opens 1 "ioc" 5064]

/-- A row that an earlier run left for the endpoint, with a record. -/
def leftOver : Database where
  server := [⟨1, 1, "ioc", 5064⟩]
  record := [⟨1, 1, .text "bo", 1⟩]

theorem leftOver_sound : leftOver.Sound := by
  constructor <;> decide

theorem careful_commits_raise_nothing_twoClients :
    CarefulRun {} ⟨1, .text⟩ { proc := { db := leftOver } } twoClients ∧
      (System.run {} ⟨1, .text⟩ { proc := { db := leftOver } } twoClients).failed = none := by
  have careful : CarefulRun {} ⟨1, .text⟩ { proc := { db := leftOver } } twoClients := by
    refine .cons ?_ (.cons ?_ (.cons ?_ (.cons ?_ (.cons ?_ (.cons trivial (.cons trivial
      (.cons ?_ (.cons trivial (.cons ?_ (.nil _ _ _))))))))))
    · intro other c _ there
      cases there
    · intro c known _ now
      obtain rfl := Option.some.inj known
      exact absurd now (by decide)
    · intro c known _ now
      obtain rfl := Option.some.inj known
      exact absurd now (by decide)
    · intro c known _ now
      obtain rfl := Option.some.inj known
      exact absurd now (by decide)
    · intro c known _ _
      obtain rfl := Option.some.inj known
      constructor
      · intro id names found _
        have listed := (Py.Dict.get?_eq_some_iff _ _ _).mp found
        obtain ⟨rfl, rfl⟩ := Prod.mk.inj (List.mem_singleton.mp listed)
        exact ⟨_, rfl, by decide⟩
      · intro id infos found _
        have listed := (Py.Dict.get?_eq_some_iff _ _ _).mp found
        obtain ⟨rfl, -⟩ := Prod.mk.inj (List.mem_singleton.mp listed)
        decide
    · intro c known
      obtain rfl := Option.some.inj known
      decide
    · intro other c _ known _ _
      by_cases first : other = 0
      · subst first
        obtain rfl := Option.some.inj known
        exact ⟨by decide, by decide⟩
      · have unknown := @System.run_elsewhere {} ⟨1, .text⟩ { proc := { db := leftOver } }
          (twoClients.take 9) other
          (by simpa [twoClients, Event.srcid] using first)
        cases unknown.symm.trans known
  exact ⟨careful, (careful_commits_raise_nothing leftOver_sound careful List.prefix_rfl).1⟩

/-- A connection that is lost before the first flush: the transaction that says so is not the
initial one, and its source id is unknown. -/
theorem lost_before_first_flush_raises :
    ¬ ∀ limits cfg events, (System.run limits cfg {} events).failed = none := by
  intro never
  have none := never {} ⟨1, .text⟩ [.opens 0 "ioc" 5064, .close 0, .execute 0]
  exact absurd none (by decide)

end Recsync.Db
