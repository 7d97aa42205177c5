import Recsync.Lib.Runs
import Recsync.Cf.Eviction
import Recsync.Cf.Setup

set_option autoImplicit false

namespace Recsync.Cf

open Ownership (holder leave)
open Runs (EveryStep)
open Py (Program)

def afterEvict (env : Env) (iocid : String) (p : Processor) : Processor :=
  ((p.untrackAll iocid (env.setOrder (p.channels iocid).elems)).setIoc iocid none).setChannels
    iocid none

theorem evictIoc_eq_afterEvict (env : Env) {p : Processor} (tracking : Tracking p) (i : String) :
    evictIoc env i p = .ok ⟨⟩ (afterEvict env i p) :=
  evictIoc_eq env fun n member => (tracking.linked n i).mpr member

theorem Tracking.afterEvict {p : Processor} (tracking : Tracking p) (env : Env) (i : String) :
    Tracking (afterEvict env i p) := by
  have done := tracking.untrackAll i (env.setOrder (p.channels i).elems)
  have empty := Processor.channels_untrackAll_self env p i
  refine ⟨done.nonempty, done.nodup, ?_, done.idle⟩
  intro n j
  rw [Cf.afterEvict, Processor.ids_setChannels, Processor.ids_setIoc, done.linked,
    Processor.channels_setChannels]
  by_cases same : j = i <;> simp [same, empty]

def Registered (p : Processor) : Prop := ∀ i n, n ∈ p.channels i → (p.iocs i).isSome

/-- What every commit keeps, whatever fails on the way. -/
structure Sound (p : Processor) : Prop where
  tracking : Tracking p
  keyed : Keyed p
  up : p.Up
  registered : Registered p

theorem sound_empty : Sound {} where
  tracking := ((consistent_iff _).mp consistent_empty).1
  keyed := by intro i info found; cases found
  up := ⟨rfl, rfl⟩
  registered := by intro i n member; cases member

section Sound

variable {client : ChannelFinderAdapter} {cfg : CFConfig} {setup : Setup} {env : Env}
  {t : Transaction} {p : Processor}

theorem Registered.afterConnected (registered : Registered p) :
    Registered (afterConnected cfg setup env t p) := by
  have started : Registered (registerInitial cfg env t p) := by
    unfold Cf.registerInitial
    split
    · intro i n member
      rw [Processor.iocs_setIoc]
      split
      · rfl
      · exact registered i n member
    · exact registered
  have tracked : Registered ((registerInitial cfg env t p).trackAll t.iocid
      (touched cfg (recordsOf cfg setup env t))) := by
    refine Processor.trackAll_induction ?_ _ started
    intro q info name known before i n member
    rw [Processor.channels_track] at member
    rw [Processor.iocs_track]
    split
    · rfl
    · rename_i other
      exact before i n (by simpa [other] using member)
  intro i n member
  rw [Cf.afterConnected, Processor.channels_lookUpIds] at member
  rw [Cf.afterConnected, Processor.iocs_lookUpIds]
  exact tracked i n member

theorem Registered.untrackAll (registered : Registered p) (env : Env) (i : String) :
    Registered (p.untrackAll i (env.setOrder (p.channels i).elems)) := by
  intro j n member
  by_cases same : j = i
  · rw [same, Processor.channels_untrackAll_self] at member
    exact absurd member (Py.Set.not_mem_empty n)
  · rw [Processor.iocs_untrackAll_of_ne p same]
    exact registered j n ((Processor.mem_channels_untrackAll p i j _ n).mp member).1

theorem Registered.afterEvict (registered : Registered p) (env : Env) (i : String) :
    Registered (afterEvict env i p) := by
  intro j n member
  rw [Cf.afterEvict, Processor.channels_setChannels] at member
  split at member
  · exact absurd member (Py.Set.not_mem_empty n)
  · rename_i other
    rw [Cf.afterEvict, Processor.iocs_setChannels, Processor.iocs_setIoc, if_neg other]
    exact registered.untrackAll env i j n member

theorem Sound.afterConnected (sound : Sound p) : Sound (afterConnected cfg setup env t p) :=
  ⟨sound.tracking.afterConnected, sound.keyed.afterConnected,
    ((sound.up.registerInitial cfg env t).trackAll _ _).lookUpIds _,
    sound.registered.afterConnected⟩

theorem Sound.afterDisconnect (sound : Sound p) : Sound (afterDisconnect env t p) :=
  ⟨sound.tracking.afterDisconnect, sound.keyed.afterDisconnect, sound.up.untrackAll _ _,
    sound.registered.untrackAll env t.iocid⟩

theorem Sound.afterEvict (sound : Sound p) (env : Env) (i : String) :
    Sound (afterEvict env i p) :=
  ⟨sound.tracking.afterEvict env i, (sound.keyed.untrackAll _ _).setIoc_none i,
    ⟨(sound.up.untrackAll _ _).running, (sound.up.untrackAll _ _).notCancelled⟩,
    sound.registered.afterEvict env i⟩

/-- A transaction with records is the first of its connection or finds its IOC registered. -/
def Ready (p : Processor) (t : Transaction) : Prop :=
  t.initial = true ∨ (p.iocs t.iocid).isSome ∨ t.recordsToAdd.entries = []

/-- What a session sends, as long as it is no leftover of a connection that was evicted. -/
def Regular (p : Processor) (t : Transaction) : Prop :=
  t.connected = true ∧ Ready p t ∨ t.IsDisconnect

theorem recordsOf_empty (noRecords : t.recordsToAdd.entries = []) :
    recordsOf cfg setup env t = ∅ := by
  simp [recordsOf, transactionToRecordInfos, noRecords, recordInfoByName]

theorem updateIocInfos_regular (tracking : Tracking p) (connected : t.connected = true)
    (ready : Ready p t) :
    updateIocInfos cfg env t (iocInfoOf cfg env t) (recordsOf cfg setup env t) p =
      .ok (t.recordsToDelete.map Key.id) (afterConnected cfg setup env t p) := by
  rcases or_assoc.mpr ready with known | noRecords
  · exact updateIocInfos_connected cfg env _ connected known (fun r _ => tracking.idle r)
  · have none := @recordsOf_empty cfg setup env t noRecords
    rw [afterConnected, none]
    exact updateIocInfos_empty cfg env connected (fun r _ => tracking.idle r)

/-- A regular step keeps the maps sound, with or without faults. -/
theorem Sound.commitStep {w : World} (sound : Sound w.proc) {c : Commit}
    (regular : Regular w.proc c.transaction) : Sound (client.commitStep cfg setup w c).proc := by
  have updated : Sound ((updateIocInfos cfg c.env c.transaction
      (iocInfoOf cfg c.env c.transaction) (recordsOf cfg setup c.env c.transaction)).after
        w.proc) := by
    rcases regular with ⟨connected, ready⟩ | disconnect
    · rw [Program.after, updateIocInfos_regular sound.tracking connected ready]
      exact sound.afterConnected
    · rw [recordsOf_disconnect cfg setup c.env disconnect, Program.after,
        updateIocInfos_disconnect cfg c.env _ disconnect
          fun n member => (sound.tracking.linked n _).mpr member]
      exact sound.afterDisconnect
  rcases commit_proc_cases cfg setup c.env c.faults c.transaction w with same | same | ⟨-, same⟩
  · rw [ChannelFinderAdapter.commitStep, same]
    exact sound
  · rw [ChannelFinderAdapter.commitStep, same]
    exact updated
  · rw [ChannelFinderAdapter.commitStep, same, Program.after,
      evictIoc_eq_afterEvict c.env updated.tracking]
    exact updated.afterEvict c.env _

end Sound

/-- A run of commits with any faults, none of which is a leftover of an eviction. -/
def RegularRun (client : ChannelFinderAdapter) (cfg : CFConfig) (setup : Setup) (w : World)
    (run : List Commit) : Prop :=
  ∀ done c rest, run = done ++ c :: rest →
    Regular (client.runCommits cfg setup w done).proc c.transaction

section RegularRun

variable {client : ChannelFinderAdapter} {cfg : CFConfig} {setup : Setup} {w : World}
  {run first second : List Commit}

theorem RegularRun.nil (cfg : CFConfig) (setup : Setup) (w : World) :
    RegularRun client cfg setup w [] :=
  EveryStep.nil _

theorem RegularRun.append (regular : RegularRun client cfg setup w run) {c : Commit}
    (last : Regular (client.runCommits cfg setup w run).proc c.transaction) :
    RegularRun client cfg setup w (run ++ [c]) :=
  EveryStep.append (P := fun done c =>
    Regular (client.runCommits cfg setup w done).proc c.transaction)
    regular last

theorem RegularRun.take (regular : RegularRun client cfg setup w (first ++ second)) :
    RegularRun client cfg setup w first :=
  EveryStep.take regular

theorem RegularRun.drop (regular : RegularRun client cfg setup w (first ++ second)) :
    RegularRun client cfg setup (client.runCommits cfg setup w first) second := by
  intro done c rest split
  have whole : Regular (client.runCommits cfg setup w (first ++ done)).proc c.transaction :=
    EveryStep.drop regular done c rest split
  rwa [ChannelFinderAdapter.runCommits, List.foldl_append] at whole

theorem RegularRun.sound (regular : RegularRun client cfg setup w run) (start : Sound w.proc) :
    Sound (client.runCommits cfg setup w run).proc := by
  apply EveryStep.maintains (I := fun done => Sound (client.runCommits cfg setup w done).proc)
    regular
    start _ List.prefix_rfl
  intro done c _ sound last
  rw [ChannelFinderAdapter.runCommits, List.foldl_append]
  exact sound.commitStep last

/-- What every step of a regular run keeps holds at its end. -/
theorem RegularRun.maintains {I : World → Prop} (regular : RegularRun client cfg setup w run)
    (step : ∀ c ∈ run, ∀ w : World, Sound w.proc → Regular w.proc c.transaction → I w →
      I (client.commitStep cfg setup w c)) (sound : Sound w.proc) (start : I w) :
    I (client.runCommits cfg setup w run) := by
  induction run generalizing w with
  | nil => exact start
  | cons c rest ih =>
    have head : Regular w.proc c.transaction := regular [] c rest rfl
    have tail : RegularRun client cfg setup (client.commitStep cfg setup w c) rest :=
      @RegularRun.drop _ _ _ _ [c] _ regular
    exact ih tail (fun d member => step d (List.mem_cons_of_mem c member)) (sound.commitStep head)
      (step c List.mem_cons_self w sound head start)

end RegularRun

/-- ChannelFinder holds no Active channel under the iocid. -/
def Cleared (iocid : String) (s : Store) : Prop :=
  ∀ n e, s.get? n = some e → e.has .iocId iocid → ¬ e.Active

section Push

variable {client : ChannelFinderAdapter} {cfg : CFConfig} {setup : Setup} {env : Env}
  {p : Processor}
  {records : Py.Dict String RecordInfo} {del : List Key} {ioc : IOCInfo}

/-- With a size limit that is not positive no attempt writes anything. -/
theorem updateChannelfinder_stuck (stuck : cfg.cfQueryLimit ≤ 0) (s : Store) :
    (client.updateChannelfinder cfg setup env p records del ioc none s).2 = s := by
  rcases updateChannelfinder_cases none s with ⟨e, raised⟩ | ⟨new, handled, bs, -, -, planned, ran⟩
  · rw [raised]
  · rw [ran, batches_stuck stuck planned]
    rfl

theorem pushToCf_stuck (stuck : ¬ cfg.Usable) (s : Store) :
    (client.pushToCf cfg setup env p records del ioc [] 0 s).2 = s := by
  simp only [ChannelFinderAdapter.pushToCf]
  split
  · rfl
  rename_i attempts
  split
  · rfl
  have limit : cfg.cfQueryLimit ≤ 0 := by
    by_contra positive
    exact stuck ⟨by omega, not_not.mp attempts⟩
  have same := @updateChannelfinder_stuck client cfg setup env p records del ioc limit s
  generalize client.updateChannelfinder cfg setup env p records del ioc none s = attempt at same ⊢
  rcases attempt with ⟨e | _, s'⟩ <;> exact same

theorem finishCommit_store (t : Transaction) (pushed : Except Py.Error Bool × Store) :
    (finishCommit env t p pushed).2.store = pushed.2 := by
  rcases pushed with ⟨e | done, s⟩
  · rfl
  · cases done with
    | true => rfl
    | false =>
      simp only [finishCommit]
      split
      · split <;> rfl
      · rfl

end Push

/-- Whatever is Active under the iocid is among the channels that the first query returns. -/
def ChannelFinderAdapter.FindsActive (client : ChannelFinderAdapter) (env : Env) (s : Store)
    (iocid : String) : Prop :=
  ∀ n e, s.get? n = some e → e.has .iocId iocid → e.Active →
    { e with name := n } ∈ client.findByIocId env s iocid

theorem findsActive_of_stored {client : ChannelFinderAdapter} {env : Env} {s : Store}
    {iocid : String} (found : ∀ ch ∈ storedChannels s, ch.toCFEntry.has .iocId iocid →
      ch ∈ client.findByIocId env s iocid) : client.FindsActive env s iocid :=
  fun n e stored listed _ => found { e with name := n } ((mem_storedChannels s _).mpr stored) listed

theorem not_cleared {iocid : String} {s : Store} {n : String}
    (active : ∃ e ∈ s.get? n, e.has .iocId iocid ∧ e.Active) : ¬ Cleared iocid s := by
  obtain ⟨e, stored, listed, active⟩ := active
  exact fun cleared => cleared n e stored listed active

section Disconnect

variable {client : ChannelFinderAdapter} {cfg : CFConfig} {setup : Setup} {w : World} {c : Commit}

/-- A returned channel is released, so that it is not Active under the iocid that is gone. -/
theorem releaseChannel_gone (sound : Sound w.proc) (cf : CFChannel)
    (listed : (releaseChannel cfg setup (afterDisconnect c.env c.transaction w.proc)
      (iocInfoOf cfg c.env c.transaction) cf).toCFEntry.has .iocId c.iocid) :
    ¬ (releaseChannel cfg setup (afterDisconnect c.env c.transaction w.proc)
      (iocInfoOf cfg c.env c.transaction) cf).toCFEntry.Active := by
  have after := @Sound.afterDisconnect c.env c.transaction w.proc sound
  have owners := @afterDisconnect_owners c.env c.transaction w.proc sound.tracking
  cases last : (holder (afterDisconnect c.env c.transaction w.proc).owners cf.name).bind
      (afterDisconnect c.env c.transaction w.proc).iocs with
  | none => exact (releaseChannel_orphan cfg setup _ last).1
  | some info =>
    obtain ⟨j, holds, registered⟩ := Option.bind_eq_some_iff.mp last
    have live := releaseChannel_live cfg setup (iocInfoOf cfg c.env c.transaction) holds
      registered (after.keyed j info registered)
    rw [owners] at holds
    have other := Ownership.holder_leave_ne (sound.tracking.nodup cf.name) holds
    exact absurd ((live.listed c.iocid).mp listed).symm other

/-- The disconnect of a registered IOC leaves nothing Active under its iocid exactly when the
query returns all that was. -/
theorem disconnect_cleared_iff (usable : cfg.Usable) (sound : Sound w.proc)
    (calm : c.faults = [])
    (converts : iocNameConverts (iocInfoOf cfg c.env c.transaction).iocName = true)
    (disconnect : c.transaction.IsDisconnect) (known : (w.proc.iocs c.iocid).isSome) :
    Cleared c.iocid (client.commitStep cfg setup w c).store ↔
      client.FindsActive c.env w.store c.iocid := by
  have after := @Sound.afterDisconnect c.env c.transaction w.proc sound
  have ran := @commit_disconnect client cfg usable setup c.env _ w sound.up disconnect
    converts known
    (fun n member => (sound.tracking.linked n _).mpr member) after.tracking.nonempty
  rw [ChannelFinderAdapter.commitStep, calm, ran]
  constructor
  · intro cleared n e stored listed active
    by_contra missed
    -- a channel that is not returned is not written
    refine cleared n e ?_ listed active
    rw [get?_setChannels_of_not_mem, stored]
    rintro ch member rfl
    obtain ⟨cf, found, rfl⟩ := List.mem_map.mp member
    rw [releaseChannel_name] at stored missed
    rw [(client.findByIocId_listed _ _ _ cf found).1] at stored
    obtain rfl := Option.some.inj stored
    exact missed found
  · intro returned n e stored listed active
    rcases get?_setChannels_cases w.store _ n with ⟨kept, unwritten⟩ | ⟨ch, member, name, written⟩
    · rw [kept] at stored
      have found := returned n e stored listed active
      exact unwritten _ (List.mem_map_of_mem found) (releaseChannel_name _ _ _ _ _)
    · obtain ⟨cf, -, rfl⟩ := List.mem_map.mp member
      rw [written] at stored
      obtain rfl := Option.some.inj stored
      exact releaseChannel_gone sound cf listed active

/-- Unless the IOC is registered and the push can write, a disconnect leaves ChannelFinder
as it is. -/
theorem disconnect_ignored (sound : Sound w.proc) (calm : c.faults = [])
    (disconnect : c.transaction.IsDisconnect)
    (stuck : ¬ ((w.proc.iocs c.iocid).isSome ∧ cfg.Usable)) :
    (client.commitStep cfg setup w c).store = w.store := by
  by_cases converts : iocNameConverts (iocInfoOf cfg c.env c.transaction).iocName = true
  · by_cases known : (w.proc.iocs c.transaction.iocid).isSome
    · have update := updateIocInfos_disconnect cfg c.env (iocInfoOf cfg c.env c.transaction)
        disconnect fun n member => (sound.tracking.linked n _).mpr member
      rw [← recordsOf_disconnect cfg setup c.env disconnect] at update
      rw [ChannelFinderAdapter.commitStep, calm,
        commit_of_update sound.up converts (Or.inr known) update, finishCommit_store]
      exact pushToCf_stuck (fun usable => stuck ⟨known, usable⟩) w.store
    · have unknown : w.proc.iocs c.transaction.iocid = none := by simpa using known
      simp [ChannelFinderAdapter.commitStep, ChannelFinderAdapter.commitWithThread,
        sound.up.running, converts, disconnect.gone, unknown]
  · simp [ChannelFinderAdapter.commitStep, ChannelFinderAdapter.commitWithThread,
      sound.up.running, converts]

end Disconnect

/-- After any run of commits with any faults, none of which is a leftover of an eviction, the
disconnect of an IOC leaves nothing Active under its iocid exactly when there was nothing
Active before, or the IOC is still registered, the configuration lets the push write, and the
page that `find_by_ioc_id` returns holds all that is Active under the iocid. -/
theorem disconnect_clears_iff {cfg : CFConfig} {nameMatches : String → String → Bool}
    {setup : Setup}
    {s : Store} {run : List Commit}
    (regular : RegularRun (cfg.queries nameMatches) cfg setup ⟨{}, s⟩ run) {c : Commit}
    (close : c.transaction.IsClose) (calm : c.faults = []) :
    Cleared c.iocid
        ((cfg.queries nameMatches).runCommits cfg setup ⟨{}, s⟩ (run ++ [c])).store ↔
      Cleared c.iocid ((cfg.queries nameMatches).runCommits cfg setup ⟨{}, s⟩ run).store ∨
        (((cfg.queries nameMatches).runCommits cfg setup ⟨{}, s⟩ run).proc.iocs
            c.iocid).isSome ∧ cfg.Usable ∧
          (cfg.queries nameMatches).FindsActive c.env
            ((cfg.queries nameMatches).runCommits cfg setup ⟨{}, s⟩ run).store c.iocid := by
  have sound := regular.sound sound_empty
  have step : (cfg.queries nameMatches).runCommits cfg setup ⟨{}, s⟩ (run ++ [c]) =
      (cfg.queries nameMatches).commitStep cfg setup
        ((cfg.queries nameMatches).runCommits cfg setup ⟨{}, s⟩ run) c := by
    simp [ChannelFinderAdapter.runCommits]
  rw [step]
  generalize (cfg.queries nameMatches).runCommits cfg setup ⟨{}, s⟩ run = w at sound ⊢
  by_cases ready : (w.proc.iocs c.iocid).isSome ∧ cfg.Usable
  · rw [disconnect_cleared_iff ready.2 sound calm
      (close.converts cfg c.env) close.toIsDisconnect ready.1]
    constructor
    · exact fun found => Or.inr ⟨ready.1, ready.2, found⟩
    · rintro (cleared | ⟨-, -, found⟩)
      · exact fun n e stored listed active => absurd active (cleared n e stored listed)
      · exact found
  · rw [disconnect_ignored sound calm close.toIsDisconnect ready]
    exact (or_iff_left fun found => ready ⟨found.1, found.2.1⟩).symm

theorem goodbye_isClose : (goodbye "a" 5064).IsClose :=
  ⟨goodbye_isDisconnect _ _, rfl, by decide⟩

/-- The commits of two records and the disconnect that follows, one attempt of the first having
failed. -/
theorem disconnect_clears_iff_lostQuery :
    ∃ setup registered, setupCfProperties (pagesOf 2) {} [] = .ok (setup, registered) ∧
      RegularRun ((pagesOf 2).queries (· == ·)) (pagesOf 2) setup {}
        [{ tornAnnounce with faults := [.findByIocId] }] ∧
      Cleared (goodbye "a" 5064).iocid (((pagesOf 2).queries (· == ·)).runCommits (pagesOf 2)
        setup {} ([{ tornAnnounce with faults := [.findByIocId] }] ++
          [⟨{}, [], goodbye "a" 5064⟩])).store := by
  refine ⟨_, _, rfl, ?_, ?_⟩
  · exact (RegularRun.nil _ _ _).append (Or.inl ⟨rfl, Or.inl rfl⟩)
  · refine (disconnect_clears_iff (c := ⟨{}, [], goodbye "a" 5064⟩)
      ((RegularRun.nil _ _ _).append (Or.inl ⟨rfl, Or.inl rfl⟩)) goodbye_isClose rfl).mpr
      (Or.inr ⟨by decide, ⟨by decide, by decide⟩, findsActive_of_stored (by decide)⟩)

def oneAttempt : CFConfig := { pagesOf 1 with pushMaxRetries := 1 }

/-- With one attempt the torn commit is given up and its IOC evicted, so its disconnect
returns at once and the channel of the first chunk stays Active. -/
theorem disconnect_leaves_torn_channel :
    ∃ setup registered, setupCfProperties oneAttempt {} [] = .ok (setup, registered) ∧
      RegularRun (oneAttempt.queries (· == ·)) oneAttempt setup {} [tornAnnounce] ∧
      ¬ Cleared (goodbye "a" 5064).iocid ((oneAttempt.queries (· == ·)).runCommits oneAttempt
        setup {}
        [tornAnnounce, ⟨{}, [], goodbye "a" 5064⟩]).store := by
  refine ⟨_, _, rfl, (RegularRun.nil _ _ _).append (Or.inl ⟨rfl, Or.inl rfl⟩), ?_⟩
  exact not_cleared (n := "pv") (by decide)

end Recsync.Cf
