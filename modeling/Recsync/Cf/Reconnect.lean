import Recsync.Cf.Agreement
import Recsync.Cf.Deletion
import Recsync.Cf.Server

set_option autoImplicit false

namespace Recsync.Cf

open Ownership (holder mem_leave)
open Runs (EveryStep)

section Commits

variable {client : ChannelFinderAdapter} {cfg : CFConfig} {setup : Setup} {env : Env}
  {t : Transaction} {w : World}

/-- No record that ChannelFinder returns for the iocid has an alias to handle. -/
def PlainRecords (client : ChannelFinderAdapter) (cfg : CFConfig) (setup : Setup) (env : Env)
    (s : Store) (t : Transaction) : Prop :=
  ∀ cf ∈ client.findByIocId env s t.iocid, aliasesOf cfg (recordsOf cfg setup env t) cf.name = []

theorem handleChannels_returns {p : Processor} {ioc : IOCInfo} {records : Py.Dict String RecordInfo}
    {del : List Key} {old l : List CFChannel} (tracking : Tracking p)
    (unnamed : ∀ n, Key.name n ∉ del) (plain : ∀ cf ∈ l, aliasesOf cfg records cf.name = [])
    (new : List String) : ∃ r, handleChannels cfg setup p ioc records del old l new = .ok r := by
  induction l generalizing new with
  | nil => exact ⟨_, rfl⟩
  | cons cf rest ih =>
    have alone := plain cf (by simp)
    have head : ∃ next first,
        handleChannel cfg setup p ioc records del old cf new = .ok (next, first) := by
      by_cases empty : new = []
      · subst empty
        exact ⟨_, _, handleChannel_release cfg setup p ioc records alone (tracking.nonempty _)⟩
      · unfold handleChannel
        rw [if_neg (by simp [empty, unnamed])]
        by_cases named : cf.name ∈ new
        · rw [if_pos named]
          simp [handleChannelOldAndNew, removeNew, named, alone, handleAliasesOldAndNew, bind,
            Except.bind, pure, Except.pure]
        · rw [if_neg named]
          exact ⟨_, _, rfl⟩
    obtain ⟨next, first, ran⟩ := head
    obtain ⟨⟨new', later⟩, tail⟩ := ih (fun c member => plain c (by simp [member])) next
    exact ⟨_, handleChannels_cons cfg setup p ioc records ran tail⟩

/-- A connected commit makes its records Active and leaves the tracked names Active. -/
theorem commit_connected_active (usable : cfg.Usable) (sound : Sound w.proc)
    (converts : iocNameConverts (iocInfoOf cfg env t).iocName = true)
    (connected : t.connected = true) (known : t.initial = true ∨ (w.proc.iocs t.iocid).isSome)
    (plain : PlainRecords client cfg setup env w.store t) :
    ∃ s, client.commitWithThread cfg setup env [] t w =
        (.ok (), ⟨afterConnected cfg setup env t w.proc, s⟩) ∧
      (∀ n, w.proc.owners n ≠ [] → ActiveIn w.store n → ActiveIn s n) ∧
      ∀ n ∈ (recordsOf cfg setup env t).keys,
        t.iocid ∈ (afterConnected cfg setup env t w.proc).owners n ∧ ActiveIn s n := by
  have after : Sound (afterConnected cfg setup env t w.proc) := sound.afterConnected
  have serves {n : String} (key : n ∈ (recordsOf cfg setup env t).keys) :
      t.iocid ∈ (afterConnected cfg setup env t w.proc).owners n := by
    rw [afterConnected_owners known, Ownership.serve, if_pos (mem_touched.mpr ⟨n, key, Or.inl rfl⟩)]
    exact Ownership.mem_arrive.mpr (Or.inl rfl)
  have unnamed : ∀ n, Key.name n ∉ t.recordsToDelete.map Key.id := by simp
  obtain ⟨⟨new, handled⟩, reconciled⟩ := @handleChannels_returns cfg setup
    (afterConnected cfg setup env t w.proc) (iocInfoOf cfg env t) (recordsOf cfg setup env t)
    (t.recordsToDelete.map Key.id)
      (client.findByIocId env w.store t.iocid) _ after.tracking unnamed plain
    (recordsOf cfg setup env t).keys
  obtain ⟨spares, covered⟩ := handleChannels_spares after unnamed
    (fun n key => List.ne_nil_of_mem (serves key)) reconciled
  obtain ⟨active, written⟩ := @processNewChannels_active cfg setup (iocInfoOf cfg env t)
    (recordsOf cfg setup env t) env new (client.getExistingChannels env w.store new)
  have all := spares.append (@spares_of_active (afterConnected cfg setup env t w.proc) _ active)
  refine ⟨_, commit_connected usable setup env sound.up converts connected known
    (fun r _ => sound.tracking.idle r) reconciled, ?_, ?_⟩
  · intro n tracked
    apply all.activeIn
    obtain ⟨i, serving⟩ := List.exists_mem_of_ne_nil _ tracked
    exact List.ne_nil_of_mem (mem_owners_afterConnected (known.imp id Or.inl) serving)
  · intro n key
    refine ⟨serves key, ?_⟩
    have inside : n ∈ (handled ++ processNewChannels cfg setup (iocInfoOf cfg env t)
        (recordsOf cfg setup env t) env new (client.getExistingChannels env w.store new)).map
          CFChannel.name := by
      rw [List.map_append, List.mem_append]
      exact (covered n key).symm.imp id (written n)
    obtain ⟨ch, member, name, stored⟩ := get?_setChannels_of_mem w.store inside
    exact ⟨_, stored, all ch member (name ▸ List.ne_nil_of_mem (serves key))⟩

/-- What a commit keeps of the other IOCs: who is registered, who serves what, and that it is
Active. -/
structure KeepsOthers (i : String) (w w' : World) : Prop where
  registered : ∀ j, j ≠ i → (w.proc.iocs j).isSome → (w'.proc.iocs j).isSome
  serving : ∀ j, j ≠ i → ∀ n, j ∈ w.proc.owners n →
    j ∈ w'.proc.owners n ∧ (ActiveIn w.store n → ActiveIn w'.store n)

theorem commit_goodbye (usable : cfg.Usable) (sound : Sound w.proc) (disconnect : t.IsDisconnect) :
    KeepsOthers t.iocid w (client.commitStep cfg setup w { env, transaction := t }) := by
  have same : KeepsOthers t.iocid w w := ⟨fun _ _ known => known, fun _ _ _ here => ⟨here, id⟩⟩
  by_cases converts : iocNameConverts (iocInfoOf cfg env t).iocName = true
  · cases known : w.proc.iocs t.iocid with
    | none =>
      rw [ChannelFinderAdapter.commitStep,
        Agreement.commit_disconnect_unknown disconnect sound.up converts known]
      exact same
    | some info =>
      have after : Sound (afterDisconnect env t w.proc) := sound.afterDisconnect
      have ran := @commit_disconnect client cfg usable setup env t w sound.up disconnect converts
        (by simp [known])
        (fun n member => (sound.tracking.linked n _).mpr member) after.tracking.nonempty
      rw [ChannelFinderAdapter.commitStep, ran]
      refine ⟨?_, ?_⟩
      · intro j other
        dsimp only
        rw [afterDisconnect_iocs_of_ne other]
        exact id
      · intro j other n serving
        have still : j ∈ (afterDisconnect env t w.proc).owners n := by
          rw [afterDisconnect_owners sound.tracking]
          exact mem_leave other serving
        exact ⟨still, (releaseChannel_spares after _ _).activeIn (List.ne_nil_of_mem still)⟩
  · have ran : client.commitStep cfg setup w { env, transaction := t } = w := by
      simp [ChannelFinderAdapter.commitStep, ChannelFinderAdapter.commitWithThread,
        sound.up.running, converts]
    rw [ran]
    exact same

end Commits

namespace Server

variable {client : ChannelFinderAdapter} {limits : Recast.SessionConfig} {cfg : CFConfig}
  {setup : Setup} {srv : Server}

/-- The name is tracked under the iocid and Active. -/
def Live (w : World) (iocid n : String) : Prop := iocid ∈ w.proc.owners n ∧ ActiveIn w.store n

/-- Every record of the commits that have run is live, unless its connection is gone. -/
structure Kept (srv : Server) : Prop extends Serial srv where
  sound : Sound srv.world.proc
  registered : ∀ t ∈ srv.done, ¬ srv.Gone t.srcid → (srv.world.proc.iocs t.iocid).isSome
  live : ∀ t ∈ srv.done, ¬ srv.Gone t.srcid →
    ∀ r n ty, t.recordsToAdd.get? r = some (n, ty) → Live srv.world t.iocid n

/-- The sessions go on, nothing is committed, and who is gone stays so. -/
theorem Kept.sessions (kept : srv.Kept) {srv' : Server} (serial : srv'.Serial)
    (done : srv'.done = srv.done) (world : srv'.world = srv.world)
    (gone : ∀ srcid, srv.Gone srcid → srv'.Gone srcid) : srv'.Kept := by
  refine ⟨serial, world ▸ kept.sound, ?_, ?_⟩
  · intro t member here
    rw [world]
    exact kept.registered t (done ▸ member) fun before => here (gone _ before)
  · intro t member here
    rw [world]
    exact kept.live t (done ▸ member) fun before => here (gone _ before)

theorem Gone.closed {srcid : Nat} {c : Connection} (known : srv.connections srcid = some c)
    (gone : srv.Gone srcid) : c.closed = true := by
  obtain ⟨d, there, closed, -⟩ := gone
  obtain rfl : c = d := Option.some.inj (known.symm.trans there)
  exact closed

theorem Kept.advance (kept : srv.Kept) {srcid : Nat} {c c' : Connection}
    (known : srv.connections srcid = some c) (opened : c.closed = false)
    (serial : (srv.advance srcid c c').Serial) : (srv.advance srcid c c').Kept := by
  apply kept.sessions serial rfl rfl
  intro other gone
  apply Gone.advance _ gone
  intro own
  rw [own.closed known] at opened
  cases opened

theorem Kept.opens (kept : srv.Kept) {srcid : Nat} (absent : srv.connections srcid = none)
    (host : String) (port : Nat) : Kept { srv with
      connections := Function.update srv.connections srcid
        (some { session := .opened host port srcid }) } := by
  apply kept.sessions (kept.toSerial.opens absent host port) rfl rfl
  rintro other ⟨d, there, gone⟩
  refine ⟨d, (Function.update_of_ne ?_ _ _).trans there, gone⟩
  rintro rfl
  rw [absent] at there
  cases there

/-- A commit does not bring back a connection that is gone. -/
theorem Gone.runCommit {t : Recast.Transaction} {rest : List Recast.Transaction} {env : Env}
    (serial : srv.Serial) (queue : srv.queue = t :: rest) {srcid : Nat} (gone : srv.Gone srcid) :
    (srv.runCommit client cfg setup env t rest).Gone srcid := by
  obtain ⟨c, known⟩ := Option.isSome_iff_exists.mp (serial.order.known t (by simp [queue]))
  rw [runCommit_eq client cfg setup env rest known]
  apply Gone.advance
  · exact serial.fire_gone queue known
  · exact gone

theorem runCommit_world (t : Recast.Transaction) (rest : List Recast.Transaction) (env : Env) :
    (srv.runCommit client cfg setup env t rest).done = srv.done ++ [t] ∧
      (srv.runCommit client cfg setup env t rest).world =
        client.commitStep cfg setup srv.world { env, transaction := t.toTransaction } := by
  unfold Server.runCommit
  dsimp only
  split <;> exact ⟨rfl, rfl⟩

theorem Kept.commitConnected (usable : cfg.Usable) (kept : srv.Kept) {t : Recast.Transaction}
    {rest : List Recast.Transaction} (queue : srv.queue = t :: rest) (env : Env)
    (connected : t.connected = true)
    (known : t.initial = true ∨ (srv.world.proc.iocs t.iocid).isSome)
    (converts : iocNameConverts (iocInfoOf cfg env t.toTransaction).iocName = true)
    (plain : PlainRecords client cfg setup env srv.world.store t.toTransaction) :
    (srv.runCommit client cfg setup env t rest).Kept := by
  obtain ⟨s, ran, stays, own⟩ :=
    commit_connected_active usable kept.sound converts connected known plain
  obtain ⟨done, world⟩ := @runCommit_world client cfg setup srv t rest env
  have after : client.commitStep cfg setup srv.world { env, transaction := t.toTransaction } =
      ⟨afterConnected cfg setup env t.toTransaction srv.world.proc, s⟩ :=
        by rw [ChannelFinderAdapter.commitStep, ran]
  rw [after] at world
  have earlier {srcid : Nat} (here : ¬ (srv.runCommit client cfg setup env t rest).Gone srcid) :
      ¬ srv.Gone srcid := fun gone => here (gone.runCommit kept.toSerial queue)
  refine ⟨kept.toSerial.runCommit client cfg setup env queue, ?_, ?_, ?_⟩
  · rw [world]
    exact kept.sound.afterConnected
  · intro u member here
    rw [done, List.mem_append, List.mem_singleton] at member
    rw [world]
    rcases member with before | rfl
    · exact afterConnected_isSome (kept.registered u before (earlier here))
    · exact afterConnected_known known
  · intro u member here r n ty record
    rw [done, List.mem_append, List.mem_singleton] at member
    rw [world]
    rcases member with before | rfl
    · obtain ⟨serving, active⟩ := kept.live u before (earlier here) r n ty record
      exact ⟨mem_owners_afterConnected (known.imp id Or.inl) serving,
        stays n (List.ne_nil_of_mem serving) active⟩
    · exact own n ((mem_keys_recordsOf cfg setup env _ n).mpr ⟨r, ty, record⟩)

/-- The goodbye of a connection finds nothing of a connection with its iocid that is not gone. -/
theorem Kept.commitGoodbye (usable : cfg.Usable) (kept : srv.Kept) {t : Recast.Transaction}
    {rest : List Recast.Transaction} (queue : srv.queue = t :: rest) (env : Env)
    (disconnect : t.IsDisconnect) (gone : srv.Gone t.srcid) :
    (srv.runCommit client cfg setup env t rest).Kept := by
  obtain ⟨done, world⟩ := @runCommit_world client cfg setup srv t rest env
  have keeps :=
    @commit_goodbye client cfg setup env t.toTransaction srv.world usable kept.sound disconnect
  rw [← world] at keeps
  have earlier {srcid : Nat} (here : ¬ (srv.runCommit client cfg setup env t rest).Gone srcid) :
      ¬ srv.Gone srcid := fun gone => here (gone.runCommit kept.toSerial queue)
  have other {u : Recast.Transaction} (before : u ∈ srv.done) (here : ¬ srv.Gone u.srcid) :
      u.iocid ≠ t.iocid := by
    intro same
    have apart := kept.order.apart
    rw [queue, List.pairwise_append] at apart
    refine here (apart.2.2 u before t (by simp) same ?_)
    intro source
    exact here (source ▸ gone)
  have still : (srv.runCommit client cfg setup env t rest).Gone t.srcid :=
    gone.runCommit kept.toSerial queue
  refine ⟨kept.toSerial.runCommit client cfg setup env queue, ?_, ?_, ?_⟩
  · rw [world]
    exact kept.sound.commitStep (Or.inr disconnect)
  · intro u member here
    rw [done, List.mem_append, List.mem_singleton] at member
    rcases member with before | rfl
    · exact keeps.registered _ (other before (earlier here))
        (kept.registered u before (earlier here))
    · exact absurd still here
  · intro u member here r n ty record
    rw [done, List.mem_append, List.mem_singleton] at member
    rcases member with before | rfl
    · obtain ⟨serving, active⟩ := kept.live u before (earlier here) r n ty record
      obtain ⟨serves, stays⟩ := keeps.serving _ (other before (earlier here)) n serving
      exact ⟨serves, stays active⟩
    · exact absurd still here

/-- The condition on a step: a connection hands over its first transaction only when all commits
of the other connections with its iocid have come to the lock, and a commit of a connected client
has an IOC name that converts and no alias of a record that is listed already. -/
def Careful (client : ChannelFinderAdapter) (limits : Recast.SessionConfig) (cfg : CFConfig)
    (setup : Setup) (srv : Server) :
    Event → Prop
  | .opens _ _ _ => True
  | .call srcid clock call => ∀ c, srv.connections srcid = some c → c.closed = false →
      Recast.flushesAt limits clock c.session call = true → c.session.flushed = [] →
      srv.Clear srcid c
  | .close srcid => ∀ c, srv.connections srcid = some c → c.closed = false →
      c.session.flushed = [] → srv.Clear srcid c
  | .commit env => ∀ t rest, srv.queue = t :: rest → t.connected = true →
      iocNameConverts (iocInfoOf cfg env t.toTransaction).iocName = true ∧
        PlainRecords client cfg setup env srv.world.store t.toTransaction

theorem Kept.step (usable : cfg.Usable) (kept : srv.Kept) {e : Event}
    (careful : srv.Careful client limits cfg setup e) :
    (srv.step client limits cfg setup e).Kept := by
  cases e with
  | opens srcid host port =>
    simp only [Server.step]
    split
    · exact kept
    · rename_i absent
      exact kept.opens absent host port
  | call srcid clock call =>
    simp only [Server.step]
    split
    · rename_i c known
      split
      · exact kept
      · rename_i opened
        have opened : c.closed = false := by simpa using opened
        exact kept.advance known opened
          (kept.toSerial.call known opened limits clock call (careful c known opened))
    · exact kept
  | close srcid =>
    simp only [Server.step]
    split
    · rename_i c known
      split
      · exact kept
      · rename_i opened
        have opened : c.closed = false := by simpa using opened
        exact kept.advance known opened (kept.toSerial.close known opened (careful c known opened))
    · exact kept
  | commit env =>
    simp only [Server.step]
    split
    · exact kept
    · rename_i t rest queue
      rcases kept.toSerial.next_cases queue with ⟨⟨host, port, sent⟩,
        here⟩ | ⟨⟨host, port, last⟩, gone⟩
      · obtain ⟨converts, plain⟩ := careful t rest queue sent.connected
        refine kept.commitConnected usable queue env sent.connected ?_ converts plain
        -- after the first transaction of the session its IOC is registered
        cases before : srv.done.filter (fun u => decide (u.srcid = t.srcid)) with
        | nil => exact Or.inl (by rw [sent.initial, before]; rfl)
        | cons u more =>
          have member : u ∈ srv.done.filter fun u => decide (u.srcid = t.srcid) := by simp [before]
          obtain ⟨inside, source⟩ := List.mem_filter.mp member
          have source : u.srcid = t.srcid := of_decide_eq_true source
          have same := kept.toSerial.same_iocid (List.mem_append_left _ inside)
            (by simp [queue] : t ∈ srv.done ++ srv.queue) source
          exact Or.inr (same ▸ kept.registered u inside (source ▸ here))
      · refine kept.commitGoodbye usable queue env ?_ gone
        rw [last]
        exact ⟨rfl, rfl, rfl, rfl⟩

/-- Every step of the run meets the condition in the state in which it is taken. -/
def CarefulRun (client : ChannelFinderAdapter) (limits : Recast.SessionConfig) (cfg : CFConfig)
    (setup : Setup) (srv : Server)
    (events : List Event) : Prop :=
  EveryStep (fun done e => (srv.run client limits cfg setup done).Careful client limits cfg setup
    e) events

theorem Kept.run (usable : cfg.Usable) (kept : srv.Kept) {events : List Event}
    (careful : CarefulRun client limits cfg setup srv events) :
    (srv.run client limits cfg setup events).Kept := by
  apply EveryStep.maintains (I := fun done => (srv.run client limits cfg setup done).Kept)
    careful kept _
    List.prefix_rfl
  intro done e _ before last
  rw [Server.run, List.foldl_append]
  exact before.step usable last

theorem step_unopened {other : Nat} {e : Event} (absent : srv.connections other = none)
    (never : ∀ host port, e ≠ .opens other host port) :
    (srv.step client limits cfg setup e).connections other = none := by
  have advanced {here : Nat} {c c' : Connection} {srv' : Server}
      (same : srv'.connections other = none) (known : srv'.connections here = some c) :
      (srv'.advance here c c').connections other = none := by
    rw [advance_elsewhere]
    · exact same
    · rintro rfl
      rw [same] at known
      cases known
  cases e with
  | opens here host port =>
    simp only [Server.step]
    split
    · exact absent
    · dsimp only
      rw [Function.update_of_ne]
      · exact absent
      · rintro rfl
        exact never host port rfl
  | call here clock call =>
    simp only [Server.step]
    split
    · rename_i c known
      split
      · exact absent
      · exact advanced absent known
    · exact absent
  | close here =>
    simp only [Server.step]
    split
    · rename_i c known
      split
      · exact absent
      · exact advanced absent known
    · exact absent
  | commit env =>
    simp only [Server.step]
    split
    · exact absent
    · unfold Server.runCommit
      dsimp only
      split
      · rename_i c known
        exact advanced absent known
      · exact absent

theorem run_unopened {other : Nat} {events : List Event} (absent : srv.connections other = none)
    (never : ∀ host port, Event.opens other host port ∉ events) :
    (srv.run client limits cfg setup events).connections other = none := by
  induction events generalizing srv with
  | nil => exact absent
  | cons e rest ih =>
    apply ih
    · apply step_unopened absent
      rintro host port rfl
      exact never host port (by simp)
    · intro host port member
      exact never host port (by simp [member])

/-- Every record that a connection which is still open has committed is tracked under its iocid
and Active. -/
def ReconnectsKept (srv : Server) : Prop :=
  ∀ t ∈ srv.done, ∀ c, srv.connections t.srcid = some c → c.closed = false →
    ∀ r n ty, t.recordsToAdd.get? r = some (n, ty) → Live srv.world t.iocid n

end Server

/-- From any store and in any interleaving of connections, their flushes and closes and the
commits, a reconnect is not undone by the old connection, as long as a connection hands nothing
over before the last commit of the old one has come to the lock. -/
theorem reconnect_not_undone {client : ChannelFinderAdapter} {limits : Recast.SessionConfig}
    {cfg : CFConfig} (usable : cfg.Usable) {setup : Setup} {s : Store} {events : List Server.Event}
    (careful : Server.CarefulRun client limits cfg setup { world := { store := s } } events) :
    (Server.run client limits cfg setup { world := { store := s } } events).ReconnectsKept := by
  have start : Server.Kept { world := { store := s } } :=
    ⟨Server.Serial.start _, sound_empty, by simp, by simp⟩
  intro t member c known opened r n ty record
  refine (start.run usable careful).live t member ?_ r n ty record
  intro gone
  rw [gone.closed known] at opened
  cases opened

/-- A connection from `a:5064` that uploads one record. -/
def uploads (srcid : Nat) : List Server.Event :=
  [.opens srcid "a" 5064, .call srcid {} (.addRecord 1 "ai" "pv"), .call srcid {} .done]

/-- A reconnect whose records come to the lock after the goodbye of the old connection. -/
def orderlyReconnect : List Server.Event :=
  uploads 1 ++ [.commit {}, .close 1] ++ uploads 2 ++ [.commit {}, .commit {}]

theorem reconnect_not_undone_orderly :
    Server.CarefulRun (pagedQueries 10000) {} (pagesOf 10000) {} {} orderlyReconnect ∧
      (Server.run (pagedQueries 10000) {} (pagesOf 10000) {} {}
        orderlyReconnect).ReconnectsKept := by
  have plain (s : Store) (env : Env) (t : Transaction) :
      PlainRecords (pagedQueries 10000) (pagesOf 10000) {} env s t := fun _ _ => rfl
  have careful : Server.CarefulRun (pagedQueries 10000) {} (pagesOf 10000) {} {}
      orderlyReconnect := by
    refine .cons trivial (.cons ?_ (.cons ?_ (.cons ?_ (.cons ?_ (.cons trivial (.cons ?_ (.cons ?_
      (.cons ?_ (.cons ?_ (.nil _))))))))))
    · rintro c known - flushes
      obtain rfl := Option.some.inj known
      exact absurd flushes (by decide)
    · -- no other connection is there
      rintro c - - - - other d different there
      have absent := @Server.run_unopened (pagedQueries 10000) {} (pagesOf 10000) {} {} other
        ((uploads 1).take 2) rfl (by simp [uploads, different])
      exact absurd (absent.symm.trans there) (by simp)
    · rintro t rest queue -
      obtain ⟨rfl, -⟩ := List.cons.inj queue
      exact ⟨by decide, plain _ _ _⟩
    · rintro c known - none
      obtain rfl := Option.some.inj known
      exact absurd (congrArg List.length none) (by decide)
    · rintro c known - flushes
      obtain rfl := Option.some.inj known
      exact absurd flushes (by decide)
    · -- the old connection is gone, although its goodbye has not run yet
      rintro c - - - - other d different there - -
      by_cases old : other = 1
      · subst old
        exact ⟨_, rfl, rfl, rfl⟩
      · have absent := @Server.run_unopened (pagedQueries 10000) {} (pagesOf 10000) {} {} other
          (orderlyReconnect.take 7) rfl (by simp [orderlyReconnect, uploads, different, old])
        exact absurd (absent.symm.trans there) (by simp)
    · rintro t rest queue connected
      obtain ⟨rfl, -⟩ := List.cons.inj queue
      exact absurd connected (by decide)
    · rintro t rest queue -
      obtain ⟨rfl, -⟩ := List.cons.inj queue
      exact ⟨by decide, plain _ _ _⟩
  exact ⟨careful, reconnect_not_undone ⟨by decide, by decide⟩ careful⟩

/-- The old connection is lost while its records wait for the lock, so its goodbye comes to the
lock after the records of the new one. -/
def overtakenGoodbye : List Server.Event :=
  uploads 1 ++ [.close 1] ++ uploads 2 ++ [.commit {}, .commit {}, .commit {}]

/-- The record of the open connection stays Active, but it is tracked no longer and its channel has
lost the iocid. -/
theorem reconnect_undone :
    ∃ setup registered, setupCfProperties (pagesOf 10000) {} [] = .ok (setup, registered) ∧
      let srv := Server.run (pagedQueries 10000) {} (pagesOf 10000) setup {} overtakenGoodbye
      srv.queue = [] ∧ ¬ srv.ReconnectsKept ∧ srv.world.proc.ids (.name "pv") = [] ∧
        ∃ e, srv.world.store.get? "pv" = some e ∧ e.Active ∧ ¬ e.has .iocId "a:5064" := by
  refine ⟨_, _, rfl, rfl, ?_, rfl, _, rfl, by decide, by decide⟩
  intro kept
  have live := kept _ (@List.mem_of_getElem? _ _ 1 _ rfl) _ rfl rfl 1 "pv" "ai" (by decide)
  exact absurd live.1 (by decide)

end Recsync.Cf
