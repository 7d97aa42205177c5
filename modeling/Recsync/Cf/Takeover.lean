import Recsync.Cf.Deletion
import Recsync.Cf.Foreign

set_option autoImplicit false

/- A channel that another IOC takes over and gives back when it disconnects. -/
namespace Recsync.Cf

open Ownership (holder serve leave)

/-- The properties of the entry that come from the IOC are those of this one, but for the time. -/
def Reflects (cfg : CFConfig) (info : IOCInfo) (e : CFEntry) : Prop :=
  ∀ p ∈ iocPropertyNames, p ≠ .time → ∀ v, e.has p v ↔
    HasProperty (createIocProperties info.owner info.time cfg.recceiverId info.hostname info.iocName
      info.iocIp info.id) p v

theorem Reflects.listed {cfg : CFConfig} {info : IOCInfo} {e : CFEntry}
    (reflects : Reflects cfg info e)
    (v : String) : e.has .iocId v ↔ v = info.id :=
  (reflects .iocId (by decide) (by decide) v).trans
    ((createIocProperties_sets _ _ _ _ _ _ _).listed v)

/-- Whose hand wrote the properties, and when, does not change what they say of the IOC. -/
theorem hasProperty_createIocProperties (owner owner' time time' recceiverid hostName iocName iocIp
    iocid : String) {p : CFPropertyName} (named : p ∈ iocPropertyNames) (notTime : p ≠ .time)
    (v : String) :
    HasProperty (createIocProperties owner time recceiverid hostName iocName iocIp iocid) p v ↔
      HasProperty (createIocProperties owner' time' recceiverid hostName iocName iocIp iocid) p
        v := by
  simp only [iocPropertyNames, List.mem_cons, List.not_mem_nil, or_false] at named
  rcases named with rfl | rfl | rfl | rfl | rfl | rfl | rfl <;>
    simp_all [createIocProperties, hasProperty_cons]

section Step

variable {cfg : CFConfig} {setup : Setup} {env : Env} {t : Transaction} {w : World}

/-- A configuration that cannot write leaves ChannelFinder alone. -/
theorem commit_stuck {client : ChannelFinderAdapter} (stuck : ¬ cfg.Usable) :
    (client.commitWithThread cfg setup env [] t w).2.store = w.store := by
  unfold ChannelFinderAdapter.commitWithThread
  dsimp only
  split
  · rfl
  split
  · rfl
  split
  · rfl
  split
  · rfl
  · rw [finishCommit_store]
    exact pushToCf_stuck stuck w.store

/-- All that a connected commit without faults can do. -/
theorem commit_calm_cases {client : ChannelFinderAdapter} (usable : cfg.Usable)
    (sound : Sound w.proc) (connected : t.connected = true)
    (ready : Ready w.proc t) :
    (client.commitWithThread cfg setup env [] t w).1 ≠ .ok () ∧
        ((client.commitWithThread cfg setup env [] t w).2 = w ∨
          (client.commitWithThread cfg setup env [] t w).2 =
            ⟨afterConnected cfg setup env t w.proc, w.store⟩) ∨
      ∃ s, client.updateChannelfinder cfg setup env (afterConnected cfg setup env t w.proc)
          (recordsOf cfg setup env t) (t.recordsToDelete.map Key.id) (iocInfoOf cfg env t) none
            w.store = (.ok (), s) ∧
        (client.commitWithThread cfg setup env [] t w).2 =
          ⟨afterConnected cfg setup env t w.proc, s⟩ := by
  by_cases converts : iocNameConverts (iocInfoOf cfg env t).iocName = true
  · have up := (@Sound.afterConnected cfg setup env t w.proc sound).up
    rw [commit_of_update sound.up converts (Or.inl connected)
      (updateIocInfos_regular sound.tracking connected ready)]
    rcases ran : client.updateChannelfinder cfg setup env (afterConnected cfg setup env t w.proc)
        (recordsOf cfg setup env t) (t.recordsToDelete.map Key.id) (iocInfoOf cfg env t) none
          w.store with ⟨e | _, s⟩
    · have unchanged : s = w.store := by
        rcases @updateChannelfinder_cases client cfg setup env
          (afterConnected cfg setup env t w.proc)
            (recordsOf cfg setup env t) (t.recordsToDelete.map Key.id) (iocInfoOf cfg env t) none
              w.store with ⟨e', raised⟩ | ⟨_, _, bs, -, -, -, wrote⟩
        · exact (Prod.mk.inj (ran.symm.trans raised)).2
        · cases ran.symm.trans wrote
      subst unchanged
      refine Or.inl ⟨?_, Or.inr ?_⟩ <;>
        simp [ChannelFinderAdapter.pushToCf, usable.attempts, up.running, ran, finishCommit]
    · refine Or.inr ⟨s, rfl, ?_⟩
      rw [pushToCf_calm usable up w.store ran]
      rfl
  · refine Or.inl ⟨?_, Or.inl ?_⟩ <;> simp [ChannelFinderAdapter.commitWithThread, sound.up.running,
      converts]

/-- A channel that the commit does not name is released or left alone by the loop over the old
channels. -/
theorem handleChannels_released {p : Processor} {ioc : IOCInfo}
    {records : Py.Dict String RecordInfo}
    {del : List Key} {old : List CFChannel} {x : String} (unnamed : ∀ n, Key.name n ∉ del)
    (other : x ∉ touched cfg records) {l : List CFChannel} {new new' : List String}
    {handled : List CFChannel} (fewer : new ⊆ records.keys)
    (ran : handleChannels cfg setup p ioc records del old l new = .ok (new', handled)) :
    ∀ ch ∈ handled, ch.name = x → ∃ cf ∈ l, cf.name = x ∧
      ch = releaseChannel cfg setup p ioc cf := by
  have noKey : x ∉ records.keys := fun key => other (mem_touched.mpr ⟨x, key, Or.inl rfl⟩)
  induction l generalizing new handled with
  | nil =>
    obtain ⟨rfl, rfl⟩ := Prod.mk.inj (Except.ok.inj ran)
    simp
  | cons cf rest ih =>
    obtain ⟨next, first, later, head, tail, rfl⟩ := handleChannels_cons_ok ran
    intro ch member name
    rcases List.mem_append.mp member with here | there
    · have own : cf.name = x := by
        rcases handleChannel_names head ch here with same | listed
        · exact same.symm.trans name
        · exact absurd (name ▸ mem_touched_of_alias listed) other
      refine ⟨cf, by simp, own, ?_⟩
      have noAliases : aliasesOf cfg records cf.name = [] := aliasesOf_of_not_mem (own ▸ noKey)
      rcases handleChannel_cases head with
        ⟨empty | deleted, rfl, -⟩ | ⟨-, named, -⟩ | ⟨-, -, -, rfl⟩
      · subst empty
        have nonempty : p.channelIocIds (.name cf.name) ≠ some [] := by
          intro empty
          simp [handleChannel, empty] at head
        rw [handleChannel_release cfg setup p ioc records noAliases nonempty] at head
        obtain rfl := (Prod.mk.inj (Except.ok.inj head)).2
        exact List.mem_singleton.mp here
      · exact absurd deleted (unnamed _)
      · exact absurd (fewer named) (own ▸ noKey)
      · cases here
    · obtain ⟨source, inside, found⟩ :=
        ih (fun n inside => fewer ((handleChannel_left head).1.subset inside)) tail ch there name
      exact ⟨source, by simp [inside], found⟩

end Step

/-- IOC `b` has taken the channel `n` over, whose entry was `e₀`. -/
structure TakenOver (setup : Setup) (b n : String) (e₀ : CFEntry) (w : World) : Prop where
  holds : holder w.proc.owners n = some b
  entry : ∃ e, w.store.get? n = some e ∧ e.has .iocId b ∧
    unmanaged setup e.properties = unmanaged setup e₀.properties

section Phases

variable {cfg : CFConfig} {setup : Setup} {env : Env} {t : Transaction} {w : World} {n : String}
  {e₀ : CFEntry}

/-- A release to an IOC that is registered keeps what is not managed. -/
theorem unmanaged_releaseChannel (covers : setup.Covers cfg) {p : Processor} (ioc : IOCInfo)
    {cf : CFChannel} {last : IOCInfo} (known : (holder p.owners cf.name).bind p.iocs = some last) :
    unmanaged setup (releaseChannel cfg setup p ioc cf).properties =
      unmanaged setup cf.properties := by
  unfold releaseChannel
  rw [known]
  exact (iocProperties_managed covers _ _ _ _ _ _ _).unmanaged_merge cf.toCFEntry

/-- The record that the commit names becomes the one of its IOC, if the commit returns. -/
theorem takenOver_of_named {client : ChannelFinderAdapter} (usable : cfg.Usable)
    (covers : setup.Covers cfg) (sound : Sound w.proc)
    (connected : t.connected = true) (ready : Ready w.proc t) (fresh : t.iocid ∉ w.proc.owners n)
    (stored : w.store.get? n = some e₀) (unlisted : ¬ e₀.has .iocId t.iocid)
    (named : n ∈ (recordsOf cfg setup env t).keys)
    (noAlias : ∀ z, n ∉ aliasesOf cfg (recordsOf cfg setup env t) z)
    (looked : n ∈ lookedUp client cfg setup env t (t.recordsToDelete.map Key.id) w.store) :
    (client.commitWithThread cfg setup env [] t w).1 ≠ .ok () ∧
        (client.commitWithThread cfg setup env [] t w).2.store.get? n = some e₀ ∨
      TakenOver setup t.iocid n e₀ (client.commitWithThread cfg setup env [] t w).2 := by
  rcases commit_calm_cases usable sound connected ready with
    ⟨raised, same | same⟩ | ⟨s, ran, after⟩
  · exact Or.inl ⟨raised, by rw [same]; exact stored⟩
  · exact Or.inl ⟨raised, by rw [same]; exact stored⟩
  · right
    rw [after]
    constructor
    · rw [afterConnected_serve ready]
      exact Ownership.holder_serve (mem_touched.mpr ⟨n, named, Or.inl rfl⟩) fresh
    · obtain ⟨handled, reconciled, final⟩ := updateChannelfinder_get? covers usable.limit ran
      have still := reconcileOld_keeps reconciled noAlias named (by
        intro e found
        rw [stored] at found
        obtain rfl := Option.some.inj found
        exact unlisted)
      obtain ⟨e, found⟩ := (Py.Dict.mem_keys_iff _ _).mp looked
      obtain rfl := Option.some.inj ((getExistingChannels_stored found).symm.trans stored)
      have writes : newWriter client cfg setup env t (t.recordsToDelete.map Key.id) w.store n =
          some n := lastWriter_own noAlias ((env.setOrder_perm _).mem_iff.mpr still)
      have own := final n
      rw [writes, Option.map_some, entryLeft_own (noAlias n) found] at own
      refine ⟨_, own, ?_, (newProperties_managed covers env t n).unmanaged_merge e⟩
      refine (hasProperty_merge ?_ _).mpr ?_
      · simp [newProperties, createIocProperties]
      · exact (hasProperty_append _ _ _ _).mpr (Or.inl
          ((createIocProperties_sets _ _ _ _ _ _ _).listed t.iocid |>.mpr rfl))

/-- Its later commits do not let go of it. -/
theorem TakenOver.commit {client : ChannelFinderAdapter} (usable : cfg.Usable)
    (covers : setup.Covers cfg) (sound : Sound w.proc)
    (connected : t.connected = true) (ready : Ready w.proc t) (other : ¬ t.Names cfg n)
    (taken : TakenOver setup t.iocid n e₀ w) :
    TakenOver setup t.iocid n e₀ (client.commitWithThread cfg setup env [] t w).2 := by
  have untouched : n ∉ touched cfg (recordsOf cfg setup env t) :=
    fun member => other (names_of_touched member)
  have holds : holder (afterConnected cfg setup env t w.proc).owners n = some t.iocid := by
    rw [afterConnected_serve ready, Ownership.holder_serve_of_not_mem untouched]
    exact taken.holds
  rcases commit_calm_cases usable sound connected ready with
    ⟨-, same | same⟩ | ⟨s, ran, after⟩
  · rw [same]
    exact taken
  · rw [same]
    exact ⟨holds, taken.entry⟩
  · rw [after]
    refine ⟨holds, ?_⟩
    obtain ⟨e, stored, listed, unmanaged⟩ := taken.entry
    obtain ⟨new, handled, reconciled, rfl⟩ := updateChannelfinder_writes usable.limit ran
    have notNew : ∀ ch ∈ processNewChannels cfg setup (iocInfoOf cfg env t)
        (recordsOf cfg setup env t) env new (client.getExistingChannels env w.store new),
          ch.name ≠ n := by
      rintro ch member rfl
      rcases processNewChannels_names env new _ ch member with inside | touch
      · have key := (handleChannels_left reconciled).1.subset inside
        exact untouched (mem_touched.mpr ⟨_, key, Or.inl rfl⟩)
      · exact untouched touch
    rw [get?_setChannels_of_not_mem _ notNew]
    rcases get?_setChannels_cases w.store handled n with ⟨kept, -⟩ | ⟨ch, member, name, written⟩
    · exact ⟨e, kept.trans stored, listed, unmanaged⟩
    · obtain ⟨cf, found, rfl, rfl⟩ := handleChannels_released (by simp) untouched
        (fun _ => id) reconciled ch member name
      obtain ⟨source, -⟩ := client.findByIocId_listed env w.store _ cf found
      obtain rfl : cf.toCFEntry = e := Option.some.inj (source.symm.trans stored)
      have after := @Sound.afterConnected cfg setup env t w.proc sound
      obtain ⟨info, known⟩ := Option.isSome_iff_exists.mp (after.registered _ cf.name
        ((after.tracking.linked cf.name t.iocid).mp (Ownership.holder_mem holds)))
      refine ⟨_, written, ?_, ?_⟩
      · have live := releaseChannel_live cfg setup (iocInfoOf cfg env t) holds known
          (after.keyed _ info known)
        exact (live.listed t.iocid).mpr rfl
      · have released : (holder (afterConnected cfg setup env t w.proc).owners cf.name).bind
            (afterConnected cfg setup env t w.proc).iocs = some info := by
          rw [holds]
          exact known
        rw [unmanaged_releaseChannel covers _ released]
        exact unmanaged

end Phases

/-- The entry says of its IOC what it said before, and the properties that are not managed are the
same. -/
structure Restored (setup : Setup) (e₀ e : CFEntry) : Prop where
  ioc : ∀ p ∈ iocPropertyNames, p ≠ .time → ∀ v, e.has p v ↔ e₀.has p v
  unmanaged : unmanaged setup e.properties = unmanaged setup e₀.properties

theorem Restored.refl (setup : Setup) (e : CFEntry) : Restored setup e e :=
  ⟨fun _ _ _ _ => Iff.rfl, rfl⟩

theorem Transaction.IsClose.not_names {t : Transaction} (close : t.IsClose) {cfg : CFConfig}
    {n : String} : ¬ t.Names cfg n := by
  have none : ∀ r, t.recordsToAdd.get? r = none := fun r => by
    simp [Py.Dict.get?, close.noRecords]
  rintro (⟨r, ty, added⟩ | ⟨-, r, record, added, -⟩)
  · cases (none r).symm.trans added
  · cases (none r).symm.trans added

/-- Only the managed properties that come from the IOC are there. -/
def RecordLevelGone (setup : Setup) (e : CFEntry) : Prop :=
  ∀ q ∈ e.properties, q.name ∈ setup.managedProperties →
    q.name ∈ iocPropertyNames.map CFPropertyName.value

section Release

variable {cfg : CFConfig} {setup : Setup} {w₀ w : World} {a n : String} {info : IOCInfo}
  {e₀ : CFEntry}

theorem releaseChannel_recordLevelGone {p : Processor} (ioc : IOCInfo) {cf : CFChannel}
    {last : IOCInfo} (known : (holder p.owners cf.name).bind p.iocs = some last) :
    RecordLevelGone setup (releaseChannel cfg setup p ioc cf).toCFEntry := by
  unfold releaseChannel
  rw [known]
  intro q member managed
  rcases List.mem_append.mp member with own | kept
  · exact List.mem_map_of_mem (f := CFProperty.name) own
  · have unmanaged := (Bool.and_eq_true_iff.mp (List.mem_filter.mp kept).2).2
    exact absurd managed (of_decide_eq_true unmanaged)

theorem releaseChannel_reflects {p : Processor} (ioc : IOCInfo) {cf : CFChannel} {last : IOCInfo}
    (known : (holder p.owners cf.name).bind p.iocs = some last) :
    Reflects cfg last (releaseChannel cfg setup p ioc cf).toCFEntry := by
  unfold releaseChannel
  rw [known]
  intro p named notTime v
  refine (hasProperty_merge (List.mem_map_of_mem (f := CFPropertyName.value) named) v).trans ?_
  exact hasProperty_createIocProperties _ _ _ _ _ _ _ _ _ named notTime v

/-- Without the other IOC the list of a name is what it was. -/
theorem OthersKept.leave {b : String} {q p : Processor} (others : OthersKept b q p)
    (nodup : (p.owners n).Nodup) (fresh : b ∉ q.owners n) : leave p.owners b n = q.owners n := by
  have same : (p.owners n).filter (fun j => decide (j ≠ b)) =
      (q.owners n).filter fun j => decide (j ≠ b) := others.lists (.name n)
  have all : (q.owners n).filter (fun j => decide (j ≠ b)) = q.owners n := by
    rw [List.filter_eq_self]
    intro j member
    exact decide_eq_true fun equal => fresh (equal ▸ member)
  rw [Ownership.leave, nodup.erase_eq_filter, ← all, ← same]
  apply List.filter_congr
  intro j _
  by_cases same : j = b <;> simp [same]

theorem TakenOver.disconnect {client : ChannelFinderAdapter} (usable : cfg.Usable)
    (covers : setup.Covers cfg) (sound : Sound w.proc)
    {c : Commit} (calm : c.faults = []) (close : c.transaction.IsClose)
    (fresh : c.iocid ∉ w₀.proc.owners n) (others : OthersKept c.iocid w₀.proc w.proc)
    (holds : holder w₀.proc.owners n = some a) (known : w₀.proc.iocs a = some info)
    (reflects : Reflects cfg info e₀) (taken : TakenOver setup c.iocid n e₀ w)
    (paged : ∀ e, w.store.get? n = some e → e.has .iocId c.iocid →
      n ∈ (client.findByIocId c.env w.store c.iocid).map CFChannel.name) :
    ∃ e, (client.commitStep cfg setup w c).store.get? n = some e ∧ Restored setup e₀ e ∧
      RecordLevelGone setup e := by
  have other : a ≠ c.iocid := fun same => fresh (same ▸ Ownership.holder_mem holds)
  obtain ⟨e, stored, listed, unmanaged⟩ := taken.entry
  have after := @Sound.afterDisconnect c.env c.transaction w.proc sound
  have registered : (w.proc.iocs c.iocid).isSome := sound.registered _ n
    ((sound.tracking.linked n c.iocid).mp (Ownership.holder_mem taken.holds))
  have back : holder (afterDisconnect c.env c.transaction w.proc).owners n = some a := by
    rw [afterDisconnect_owners sound.tracking]
    exact (congrArg List.getLast? (others.leave (sound.tracking.nodup n) fresh)).trans holds
  have last : (holder (afterDisconnect c.env c.transaction w.proc).owners n).bind
      (afterDisconnect c.env c.transaction w.proc).iocs = some info := by
    rw [back, Option.bind_some, afterDisconnect_iocs_of_ne other]
    exact (others.iocs a other).trans known
  have ran := @commit_disconnect client cfg usable setup c.env c.transaction w sound.up
    close.toIsDisconnect
    (close.converts cfg c.env) registered (fun n member => (sound.tracking.linked n _).mpr member)
    after.tracking.nonempty
  have final := @get?_setChannels_allReleased cfg setup
    (afterDisconnect c.env c.transaction w.proc)
      (iocInfoOf cfg c.env c.transaction) client c.env w.store n
  have released : releaseEntry cfg setup (afterDisconnect c.env c.transaction w.proc)
      (iocInfoOf cfg c.env c.transaction) n e = _ := if_pos listed
  have found : n ∈ (client.findByIocId c.env w.store (iocInfoOf cfg c.env c.transaction).id).map
      CFChannel.name := paged e stored listed
  rw [if_pos found, stored, Option.map_some, released] at final
  rw [ChannelFinderAdapter.commitStep, calm, ran]
  refine ⟨_, final, ⟨?_, ?_⟩, ?_⟩
  · intro p named notTime v
    exact (releaseChannel_reflects _ last p named notTime v).trans
      (reflects p named notTime v).symm
  · exact (unmanaged_releaseChannel covers _ last).trans unmanaged
  · exact releaseChannel_recordLevelGone _ last

end Release

/-- A commit of a connected IOC that meets no fault. -/
structure CalmCommit (b : String) (c : Commit) : Prop where
  own : c.iocid = b
  connected : c.transaction.connected = true
  calm : c.faults = []

section Run

variable {cfg : CFConfig} {setup : Setup} {w : World} {b n : String} {e₀ : CFEntry}
  {run : List Commit}

theorem CalmCommit.ready {c : Commit} (commit : CalmCommit b c) {p : Processor}
    (regular : Regular p c.transaction) : Ready p c.transaction := by
  rcases regular with ⟨-, ready⟩ | disconnect
  · exact ready
  · cases commit.connected.symm.trans disconnect.gone

theorem run_others {client : ChannelFinderAdapter} (own : ∀ c ∈ run, c.iocid = b) :
    OthersKept b w.proc (client.runCommits cfg setup w run).proc := by
  refine run_maintains ?_ (OthersKept.refl w.proc)
  intro c member now kept
  have step := commit_others client cfg setup c.env c.faults c.transaction now
  rw [show c.transaction.iocid = b from own c member] at step
  exact kept.trans step

/-- A channel of others stays as it is while the IOC does not name it. -/
theorem run_unnamed {client : ChannelFinderAdapter}
    (own : ∀ c ∈ run, c.iocid = b ∧ ¬ c.transaction.Names cfg n)
    (unlisted : ¬ e₀.has .iocId b) (stored : w.store.get? n = some e₀) :
    (client.runCommits cfg setup w run).store.get? n = some e₀ := by
  refine List.foldlRecOn (motive := fun now : World => now.store.get? n = some e₀) _ _ stored ?_
  intro now stored c member
  obtain ⟨same, other⟩ := own c member
  refine ((commit_frame client cfg setup c.env c.faults c.transaction now).2.1 n ?_).trans stored
  rintro (⟨e, found, listed⟩ | named)
  · obtain rfl := Option.some.inj (found.symm.trans stored)
    exact unlisted (same ▸ listed)
  · exact other named

theorem run_fresh {client : ChannelFinderAdapter} (usable : cfg.Usable)
    (regular : RegularRun client cfg setup w run) (sound : Sound w.proc)
    (commits : ∀ c ∈ run, CalmCommit b c) (others : ∀ c ∈ run, ¬ c.transaction.Names cfg n)
    (fresh : b ∉ w.proc.owners n) : b ∉ (client.runCommits cfg setup w run).proc.owners n := by
  refine @RegularRun.maintains client cfg setup w run (fun w => b ∉ w.proc.owners n) regular ?_
    sound fresh
  intro c member w sound regular fresh
  have commit := commits c member
  have ready := commit.ready regular
  have still : b ∉ (afterConnected cfg setup c.env c.transaction w.proc).owners n := by
    have untouched : n ∉ touched cfg (recordsOf cfg setup c.env c.transaction) :=
      fun touch => others c member (names_of_touched touch)
    rw [afterConnected_serve ready, serve, if_neg untouched]
    exact fresh
  rw [ChannelFinderAdapter.commitStep, commit.calm]
  rcases commit_calm_cases usable sound commit.connected ready with
    ⟨-, same | same⟩ | ⟨s, -, same⟩
  · rw [same]
    exact fresh
  · rw [same]
    exact still
  · rw [same]
    exact still

theorem TakenOver.kept {client : ChannelFinderAdapter} (usable : cfg.Usable)
    (covers : setup.Covers cfg)
    (regular : RegularRun client cfg setup w run) (sound : Sound w.proc)
    (commits : ∀ c ∈ run, CalmCommit b c) (others : ∀ c ∈ run, ¬ c.transaction.Names cfg n)
    (taken : TakenOver setup b n e₀ w) :
    TakenOver setup b n e₀ (client.runCommits cfg setup w run) := by
  refine @RegularRun.maintains client cfg setup w run (TakenOver setup b n e₀) regular ?_
    sound taken
  intro c member w sound regular taken
  have commit := commits c member
  obtain rfl := commit.own
  rw [ChannelFinderAdapter.commitStep, commit.calm]
  exact TakenOver.commit usable covers sound commit.connected (commit.ready regular)
    (others c member) taken

/-- Without a configuration that can write, nothing changes. -/
theorem run_stuck {client : ChannelFinderAdapter} (stuck : ¬ cfg.Usable)
    (calm : ∀ c ∈ run, c.faults = []) :
    (client.runCommits cfg setup w run).store = w.store := by
  refine List.foldlRecOn (motive := fun now : World => now.store = w.store) _ _ rfl ?_
  intro now same c member
  rw [ChannelFinderAdapter.commitStep, calm c member, commit_stuck stuck]
  exact same

/-- The commits of the other IOC up to its disconnect. The commit that names the channel raises, or
takes it over. -/
theorem run_takenOver {client : ChannelFinderAdapter} (usable : cfg.Usable)
    (covers : setup.Covers cfg) (sound : Sound w.proc)
    (fresh : b ∉ w.proc.owners n) (unlisted : ¬ e₀.has .iocId b)
    (stored : w.store.get? n = some e₀) {before after : List Commit} {c : Commit}
    (commits : ∀ x ∈ before ++ c :: after, CalmCommit b x)
    (regular : RegularRun client cfg setup w (before ++ c :: after))
    (others : ∀ x ∈ before ++ after, ¬ x.transaction.Names cfg n)
    (named : n ∈ (recordsOf cfg setup c.env c.transaction).keys)
    (noAlias : ∀ z, n ∉ aliasesOf cfg (recordsOf cfg setup c.env c.transaction) z)
    (looked : n ∈ lookedUp client cfg setup c.env c.transaction
      (c.transaction.recordsToDelete.map Key.id) (client.runCommits cfg setup w before).store) :
    (client.commitWithThread cfg setup c.env c.faults c.transaction
      (client.runCommits cfg setup w before)).1 ≠
          .ok () ∧ (client.runCommits cfg setup w (before ++ c :: after)).store.get? n = some e₀ ∨
      TakenOver setup b n e₀ (client.runCommits cfg setup w (before ++ c :: after)) := by
  have split : client.runCommits cfg setup w (before ++ c :: after) =
      client.runCommits cfg setup
        (client.commitStep cfg setup (client.runCommits cfg setup w before) c) after := by
    simp [ChannelFinderAdapter.runCommits]
  have commit := commits c (by simp)
  have early : ∀ x ∈ before, CalmCommit b x := fun x member => commits x (by simp [member])
  have late : ∀ x ∈ after, CalmCommit b x := fun x member => commits x (by simp [member])
  have apart : ∀ x ∈ before, ¬ x.transaction.Names cfg n :=
    fun x member => others x (by simp [member])
  have head : RegularRun client cfg setup w before := regular.take
  have middle : Regular (client.runCommits cfg setup w before).proc c.transaction :=
    regular before c after rfl
  have tail : RegularRun client cfg setup
    (client.commitStep cfg setup (client.runCommits cfg setup w before) c) after :=
    @RegularRun.drop _ _ _ _ [c] _ (RegularRun.drop regular)
  have untouched := @run_unnamed cfg setup w b n e₀ before client
    (fun x member => ⟨(early x member).own, apart x member⟩) unlisted stored
  have stillFresh := run_fresh usable head sound early apart fresh
  obtain rfl := commit.own
  rw [split]
  have step := takenOver_of_named usable covers (head.sound sound) commit.connected
    (commit.ready middle) stillFresh untouched unlisted named noAlias looked
  rw [← commit.calm] at step
  rcases step with ⟨raised, kept⟩ | taken
  · exact Or.inl ⟨raised, run_unnamed (fun x member =>
      ⟨(late x member).own, others x (by simp [member])⟩) unlisted kept⟩
  · exact Or.inr (TakenOver.kept usable covers tail ((head.sound sound).commitStep middle) late
      (fun x member => others x (by simp [member])) taken)

end Run

/-- A channel that reflects its IOC, the last of those that serve it, is taken over by another IOC,
which names it as a record in one of its transactions, and given back when that IOC disconnects: it
says of its IOC what it said before, and its unmanaged properties are the same. Nothing that belongs
to the record comes back. The page of neither query has been too short for the channel. -/
theorem takeover_restored {cfg : CFConfig} {nameMatches : String → String → Bool} {startEnv : Env}
    {cfProperties : List String} {setup : Setup} {registered : List String}
    (started : setupCfProperties cfg startEnv cfProperties = .ok (setup, registered)) {w : World}
    (sound : Sound w.proc) {a b n : String} {info : IOCInfo} {e₀ : CFEntry}
    (holds : holder w.proc.owners n = some a) (known : w.proc.iocs a = some info)
    (stored : w.store.get? n = some e₀) (reflects : Reflects cfg info e₀)
    (unknown : Unknown b w.proc) {before after : List Commit} {c d : Commit}
    (commits : ∀ x ∈ before ++ c :: after, CalmCommit b x)
    (regular : RegularRun (cfg.queries nameMatches) cfg setup w (before ++ c :: after))
    (others : ∀ x ∈ before ++ after, ¬ x.transaction.Names cfg n)
    (named : ∃ r ty, c.transaction.recordsToAdd.get? r = some (n, ty))
    (noAlias : cfg.aliasEnabled = true → ∀ r record, c.transaction.recordsToAdd.get? r =
      some record →
      n ∉ (c.transaction.aliases.get? r).getD [])
    (looked : n ∈ lookedUp (cfg.queries nameMatches) cfg setup c.env c.transaction
      (c.transaction.recordsToDelete.map Key.id)
      ((cfg.queries nameMatches).runCommits cfg setup w before).store)
    (close : d.transaction.IsClose) (own : d.iocid = b) (calm : d.faults = [])
    (paged : ∀ e, ((cfg.queries nameMatches).runCommits cfg setup w
        (before ++ c :: after)).store.get? n = some e → e.has .iocId b →
      n ∈ ((cfg.queries nameMatches).findByIocId d.env
        ((cfg.queries nameMatches).runCommits cfg setup w (before ++ c :: after)).store b).map
          CFChannel.name) :
    ∃ e, ((cfg.queries nameMatches).runCommits cfg setup w
        (before ++ c :: after ++ [d])).store.get? n = some e ∧
      Restored setup e₀ e ∧
      (cfg.Usable → ((cfg.queries nameMatches).commitWithThread cfg setup c.env c.faults
        c.transaction ((cfg.queries nameMatches).runCommits cfg setup w before)).1 = .ok () →
          RecordLevelGone setup e) := by
  have covers := setupCfProperties_covers started
  have fresh : b ∉ w.proc.owners n := (sound.idle_of_unknown unknown n).2
  have unlisted : ¬ e₀.has .iocId b := by
    intro listed
    have same : b = a := ((reflects.listed b).mp listed).trans (sound.keyed a info known)
    rw [same, Unknown, known] at unknown
    cases unknown
  have split : (cfg.queries nameMatches).runCommits cfg setup w (before ++ c :: after ++ [d]) =
      (cfg.queries nameMatches).commitStep cfg setup ((cfg.queries nameMatches).runCommits cfg setup
        w (before ++ c :: after)) d := by
    simp [ChannelFinderAdapter.runCommits]
  by_cases usable : cfg.Usable
  · rcases run_takenOver usable covers sound fresh unlisted stored commits regular others
        ((mem_keys_recordsOf cfg setup c.env c.transaction n).mpr named) (by
          intro z listed
          obtain ⟨r, ty, added, inside⟩ := listed_of_mem_aliasesOf listed
          exact noAlias (enabled_of_alias listed) r _ added inside) looked with
      ⟨raised, kept⟩ | taken
    · -- the disconnect names nothing either
      have last := @run_unnamed cfg setup
        ((cfg.queries nameMatches).runCommits cfg setup w (before ++ c :: after)) b n e₀ [d]
        (cfg.queries nameMatches) (by
          intro x member
          obtain rfl := List.mem_singleton.mp member
          exact ⟨own, close.not_names⟩) unlisted kept
      exact ⟨e₀, split ▸ last, Restored.refl setup e₀, fun _ returned => absurd returned raised⟩
    · have others := @run_others cfg setup w b (before ++ c :: after) (cfg.queries nameMatches)
        fun x member => (commits x member).own
      obtain rfl := own
      obtain ⟨e, final, restored, gone⟩ := taken.disconnect usable covers (regular.sound sound) calm
        close fresh others holds known reflects paged
      exact ⟨e, split ▸ final, restored, fun _ _ => gone⟩
  · have same :=
      @run_stuck cfg setup w (before ++ c :: after ++ [d]) (cfg.queries nameMatches) usable (by
      intro x member
      rcases List.mem_append.mp member with first | last
      · exact (commits x first).calm
      · obtain rfl := List.mem_singleton.mp last
        exact calm)
    exact ⟨e₀, by rw [same]; exact stored, Restored.refl setup e₀, fun able => absurd able usable⟩

def typedConfig : CFConfig where
  recceiverId := "r"
  recordTypeEnabled := true
  iocConnectionInfo := false

/-- What the start of the service caches for it. -/
def typedSetup : Setup where
  managedProperties := ["hostName", "iocName", "iocid", "iocIP", "pvStatus", "time", "recceiverID",
    "recordType"]

theorem typedSetup_started :
    ∃ registered, setupCfProperties typedConfig {} [] = .ok (typedSetup, registered) :=
  ⟨_, rfl⟩

/-- The IOC announces `pv`. -/
def announcing (host : String) : Commit := ⟨{}, [], announce host 5064 "pv"⟩

def typedQueries : ChannelFinderAdapter := typedConfig.queries (· == ·)

/-- IOC `a` has announced `pv`. -/
def announced : World := typedQueries.commitStep typedConfig typedSetup {} (announcing "a")

theorem announced_reflects :
    ∃ e, announced.store.get? "pv" = some e ∧
      ∃ info, announced.proc.iocs "a:5064" = some info ∧ Reflects typedConfig info e := by
  have stored : announced.store.get? "pv" = some ⟨"cfstore",
      createIocProperties "cfstore" "" "r" "a" "5064" "a" "a:5064" ++
        [property .recordType "cfstore" "ai"]⟩ := by decide
  refine ⟨_, stored, _, rfl, ?_⟩
  intro p named _ v
  refine (hasProperty_append _ _ p v).trans (or_iff_left ?_)
  rintro ⟨q, member, name, -⟩
  rw [List.mem_singleton.mp member] at name
  have same : CFPropertyName.recordType = p := CFPropertyName.value_injective name
  exact absurd (same ▸ named) (by decide)

theorem takeover_restored_typed :
    ∃ e₀ e, announced.store.get? "pv" = some e₀ ∧
      (typedQueries.runCommits typedConfig typedSetup announced
        ([] ++ announcing "b" :: [] ++ [⟨{}, [], goodbye "b" 5064⟩])).store.get? "pv" = some e ∧
      Restored typedSetup e₀ e := by
  obtain ⟨registered, started⟩ := typedSetup_started
  obtain ⟨e₀, stored, info, known, reflects⟩ := announced_reflects
  have sound : Sound announced.proc := sound_empty.commitStep (Or.inl ⟨rfl, Or.inl rfl⟩)
  have holds : holder announced.proc.owners "pv" = some "a:5064" := by decide
  have unknown : Unknown "b:5064" announced.proc := rfl
  have commits : ∀ x ∈ [] ++ announcing "b" :: [], CalmCommit "b:5064" x := by
    intro x member
    obtain rfl := List.mem_singleton.mp member
    exact ⟨rfl, rfl, rfl⟩
  have regular : RegularRun (typedConfig.queries (· == ·)) typedConfig typedSetup announced
      ([] ++ announcing "b" :: []) := (RegularRun.nil _ _ _).append (Or.inl ⟨rfl, Or.inl rfl⟩)
  obtain ⟨e, final, restored, -⟩ :=
    takeover_restored started sound holds known stored reflects unknown
    commits regular (by simp) ⟨1, "ai", rfl⟩ (fun enabled => by cases enabled) (by decide)
    (d := ⟨{}, [], goodbye "b" 5064⟩) ⟨goodbye_isDisconnect _ _, rfl, by decide⟩ rfl rfl
    (fun _ _ _ => by decide)
  exact ⟨e₀, e, stored, final, restored⟩

/-- The type of the record is not restored. -/
theorem takeover_loses_recordType :
    Sound announced.proc ∧ holder announced.proc.owners "pv" = some "a:5064" ∧
      Unknown "b:5064" announced.proc ∧
      (announced.store.get? "pv").map (fun e => (e.valueOf "iocid", e.valueOf "pvStatus",
        e.valueOf "recordType")) = some (some "a:5064", some "Active", some "ai") ∧
      ((typedQueries.runCommits typedConfig typedSetup announced
          [announcing "b", ⟨{}, [], goodbye "b" 5064⟩]).store.get? "pv").map (fun e =>
        (e.valueOf "iocid", e.valueOf "pvStatus", e.valueOf "recordType")) =
          some (some "a:5064", some "Active", none) :=
  ⟨sound_empty.commitStep (Or.inl ⟨rfl, Or.inl rfl⟩), by decide, rfl, by decide, by decide⟩

end Recsync.Cf
