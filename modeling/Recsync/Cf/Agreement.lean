import Mathlib.Data.List.Perm.Subperm
import Recsync.Lib.Runs
import Recsync.Cf.Owners

set_option autoImplicit false

namespace Recsync.Cf

open Ownership (holder serve leave)
open Runs (EveryStep)

/-- Memory and ChannelFinder agree: the tracked names are the Active ones, and each is
listed under the last IOC of its list and no other. -/
def Agrees (w : World) : Prop :=
  ∀ n, (w.proc.ids (.name n) ≠ [] ↔ ∃ e, w.store.get? n = some e ∧ e.Active) ∧
    (w.proc.ids (.name n) ≠ [] → ∀ e, w.store.get? n = some e →
      ∀ v, e.has .iocId v ↔ (w.proc.ids (.name n)).getLast? = some v)

/-- The transactions that a connection has committed so far. -/
def sent (done : List Commit) (iocid : String) : List Transaction :=
  (done.filter fun d => decide (d.iocid = iocid)).map Commit.transaction

theorem sent_append (done : List Commit) (c : Commit) (i : String) :
    sent (done ++ [c]) i = sent done i ++ if c.iocid = i then [c.transaction] else [] := by
  unfold sent
  rw [List.filter_append, List.map_append]
  by_cases same : c.iocid = i <;> simp [same]

theorem sent_append_self (done : List Commit) (c : Commit) :
    sent (done ++ [c]) c.iocid = sent done c.iocid ++ [c.transaction] := by
  rw [sent_append, if_pos rfl]

theorem sent_append_of_ne {done : List Commit} {c : Commit} {i : String} (other : i ≠ c.iocid) :
    sent (done ++ [c]) i = sent done i := by
  rw [sent_append, if_neg (Ne.symm other), List.append_nil]

theorem mem_sent_append {done : List Commit} {i : String} {u : Transaction}
    (member : u ∈ sent done i) (c : Commit) : u ∈ sent (done ++ [c]) i := by
  rw [sent_append]
  exact List.mem_append_left _ member

/-- How a connection goes on after the transactions `before`: the first transaction is the
initial one, the empty disconnect is the last, nothing is deleted, and no name is sent a
second time. -/
structure Continues (before : List Transaction) (t : Transaction) : Prop where
  stillOpen : ∀ u ∈ before, u.connected = true
  kind : t.connected = true ∧ (t.initial = true ↔ before = []) ∨ t.IsDisconnect
  noDeletions : t.recordsToDelete = []
  fresh : ∀ n ∈ t.names, ∀ u ∈ before, n ∉ u.names

/-- An interleaving of any number of connections, each with its own iocid. -/
def SessionRun (commits : List Commit) : Prop :=
  ∀ done c rest, commits = done ++ c :: rest → Continues (sent done c.iocid) c.transaction

section Steps

variable {client : ChannelFinderAdapter} {cfg : CFConfig} {setup : Setup} {env : Env}
  {t : Transaction} {w : World}

/-- After a commit of the IOC, every name is served by it and written so, or untouched. -/
def TakenOrKept (i : String) (w w' : World) : Prop :=
  ∀ n, (∃ e, w'.store.get? n = some e ∧ Live i e) ∧ holder w'.proc.owners n = some i ∨
    w'.store.get? n = w.store.get? n ∧ holder w'.proc.owners n = holder w.proc.owners n

/-- A name that nobody serves after a commit was served by nobody before it. -/
theorem TakenOrKept.free {i n : String} {w' : World} (effect : TakenOrKept i w w')
    (free : holder w'.proc.owners n = none) :
    w'.store.get? n = w.store.get? n ∧ holder w.proc.owners n = none := by
  rcases effect n with ⟨-, here⟩ | ⟨kept, unmoved⟩
  · rw [here] at free
    cases free
  · exact ⟨kept, unmoved.symm.trans free⟩

/-- Without records, every listed channel goes back to its last IOC: this one. -/
theorem commit_noRecords_spec (usable : cfg.Usable) (up : w.proc.Up)
    (converts : iocNameConverts (iocInfoOf cfg env t).iocName = true) (tracking : Tracking w.proc)
    (keyed : Keyed w.proc) (connected : t.connected = true)
    (known : t.initial = true ∨ (w.proc.iocs t.iocid).isSome)
    (mine : ∀ cf ∈ client.findByIocId env w.store t.iocid, holder w.proc.owners cf.name =
      some t.iocid)
    (noRecords : recordsOf cfg setup env t = ∅) :
    ∃ s, client.commitWithThread cfg setup env [] t w =
        (.ok (), ⟨afterConnected cfg setup env t w.proc, s⟩) ∧
      TakenOrKept t.iocid w ⟨afterConnected cfg setup env t w.proc, s⟩ := by
  have nothing : touched cfg (recordsOf cfg setup env t) = [] := by rw [noRecords]; rfl
  have same : (afterConnected cfg setup env t w.proc).owners = w.proc.owners := by
    rw [afterConnected_owners known, nothing]
    funext n
    simp [serve]
  have reconciled : reconcileOld cfg setup (afterConnected cfg setup env t w.proc)
      (recordsOf cfg setup env t) (t.recordsToDelete.map Key.id) (iocInfoOf cfg env t)
      (client.findByIocId env w.store t.iocid) =
        .ok ([], (client.findByIocId env w.store t.iocid).map
        (releaseChannel cfg setup (afterConnected cfg setup env t w.proc)
          (iocInfoOf cfg env t))) := by
    rw [noRecords]
    exact reconcileOld_release fun cf _ => tracking.afterConnected.nonempty cf.name
  refine ⟨_, commit_connected usable setup env up converts connected known
    (fun r _ => tracking.idle r) reconciled, ?_⟩
  rw [processNewChannels_nil, List.append_nil]
  intro n
  dsimp only
  rw [same]
  rcases get?_setChannels_cases w.store _ n with ⟨kept, -⟩ | ⟨ch, member, name, written⟩
  · exact Or.inr ⟨kept, rfl⟩
  · obtain ⟨cf, listed, rfl⟩ := List.mem_map.mp member
    rw [releaseChannel_name] at name
    have holds := mine cf listed
    obtain ⟨info, found⟩ := Option.isSome_iff_exists.mp
      (@afterConnected_known cfg setup env t w.proc known)
    have live := releaseChannel_live cfg setup (iocInfoOf cfg env t) (same ▸ holds) found
      (keyed.afterConnected _ _ found)
    exact Or.inl ⟨⟨_, written, live⟩, name ▸ holds⟩

/-- New names are created or moved, and nothing else is written. -/
theorem commit_records_spec (usable : cfg.Usable) (up : w.proc.Up)
    (converts : iocNameConverts (iocInfoOf cfg env t).iocName = true)
    (apart : InfosApart (recordsOf cfg setup env t)) (tracking : Tracking w.proc)
    (connected : t.connected = true)
    (known : t.initial = true ∨ (w.proc.iocs t.iocid).isSome)
    (mine : ∀ cf ∈ client.findByIocId env w.store t.iocid, holder w.proc.owners cf.name =
      some t.iocid)
    (fresh : ∀ n ∈ touched cfg (recordsOf cfg setup env t), t.iocid ∉ w.proc.owners n)
    (records : (recordsOf cfg setup env t).keys ≠ []) :
    ∃ s, client.commitWithThread cfg setup env [] t w =
        (.ok (), ⟨afterConnected cfg setup env t w.proc, s⟩) ∧
      TakenOrKept t.iocid w ⟨afterConnected cfg setup env t w.proc, s⟩ := by
  have unlisted : ∀ cf ∈ client.findByIocId env w.store t.iocid,
      cf.name ∉ (recordsOf cfg setup env t).keys ∧
        Key.name cf.name ∉ t.recordsToDelete.map Key.id := by
    intro cf listed
    refine ⟨fun key => ?_, by simp⟩
    exact fresh cf.name (mem_touched.mpr ⟨cf.name, key, Or.inl rfl⟩)
      (Ownership.holder_mem (mine cf listed))
  have reconciled : reconcileOld cfg setup (afterConnected cfg setup env t w.proc)
      (recordsOf cfg setup env t) (t.recordsToDelete.map Key.id) (iocInfoOf cfg env t)
      (client.findByIocId env w.store t.iocid) = .ok ((recordsOf cfg setup env t).keys, []) :=
    handleChannels_skip cfg setup _ _ _ records unlisted
  refine ⟨_, commit_connected usable setup env up converts connected known
    (fun r _ => tracking.idle r) reconciled, ?_⟩
  rw [List.nil_append]
  obtain ⟨live, names⟩ := processNewChannels_live cfg setup (iocInfoOf cfg env t) apart env
    (recordsOf cfg setup env t).keys
    (client.getExistingChannels env w.store (recordsOf cfg setup env t).keys)
  have written : ∀ n, n ∈ (processNewChannels cfg setup (iocInfoOf cfg env t)
      (recordsOf cfg setup env t) env (recordsOf cfg setup env t).keys
        (client.getExistingChannels env
        w.store (recordsOf cfg setup env t).keys)).map CFChannel.name ↔
      n ∈ touched cfg (recordsOf cfg setup env t) := by
    intro n
    rw [names, mem_touched]
    simp only [List.mem_flatMap, (env.setOrder_perm _).mem_iff, List.mem_cons]
  intro n
  dsimp only
  rw [afterConnected_owners known]
  by_cases served : n ∈ touched cfg (recordsOf cfg setup env t)
  · obtain ⟨ch, member, -, stored⟩ := get?_setChannels_of_mem w.store ((written n).mpr served)
    exact Or.inl ⟨⟨_, stored, live ch member⟩, Ownership.holder_serve served (fresh n served)⟩
  · refine Or.inr ⟨get?_setChannels_of_not_mem w.store ?_,
      Ownership.holder_serve_of_not_mem served⟩
    intro ch member same
    exact served ((written n).mp (List.mem_map.mpr ⟨ch, member, same⟩))

/-- The effect of a connected commit that brings nothing but new names. -/
theorem commit_connected_spec (usable : cfg.Usable) (up : w.proc.Up)
    (converts : iocNameConverts (iocInfoOf cfg env t).iocName = true)
    (apart : InfosApart (recordsOf cfg setup env t)) (tracking : Tracking w.proc)
    (keyed : Keyed w.proc) (connected : t.connected = true)
    (known : t.initial = true ∨ (w.proc.iocs t.iocid).isSome)
    (mine : ∀ cf ∈ client.findByIocId env w.store t.iocid, holder w.proc.owners cf.name =
      some t.iocid)
    (fresh : ∀ n ∈ touched cfg (recordsOf cfg setup env t), t.iocid ∉ w.proc.owners n) :
    ∃ s, client.commitWithThread cfg setup env [] t w =
        (.ok (), ⟨afterConnected cfg setup env t w.proc, s⟩) ∧
      TakenOrKept t.iocid w ⟨afterConnected cfg setup env t w.proc, s⟩ := by
  by_cases empty : (recordsOf cfg setup env t).keys = []
  · have noRecords : recordsOf cfg setup env t = ∅ := by
      rcases found : recordsOf cfg setup env t with ⟨entries, nodup⟩
      rw [found] at empty
      obtain rfl : entries = [] := List.map_eq_nil_iff.mp empty
      rfl
    exact commit_noRecords_spec usable up converts tracking keyed connected known mine noRecords
  · exact commit_records_spec usable up converts apart tracking connected known mine fresh empty

/-- The effect of the disconnect of a registered IOC: every channel that is listed under it
goes to whoever holds the name now, or is marked Inactive. -/
theorem commit_disconnect_spec (usable : cfg.Usable) (up : w.proc.Up)
    (converts : iocNameConverts (iocInfoOf cfg env t).iocName = true)
    (consistent : Consistent w.proc) (keyed : Keyed w.proc) (disconnect : t.IsDisconnect)
    (known : (w.proc.iocs t.iocid).isSome) (whole : client.FindsListed env w.store t.iocid) :
    ∃ s, client.commitWithThread cfg setup env [] t w =
      (.ok (), ⟨afterDisconnect env t w.proc, s⟩) ∧
      ∀ n, (s.get? n = w.store.get? n ∧ ∀ e, w.store.get? n = some e → ¬ e.has .iocId t.iocid) ∨
        ∃ old e, w.store.get? n = some old ∧ old.has .iocId t.iocid ∧ s.get? n = some e ∧
          (∀ j, holder (leave w.proc.owners t.iocid) n = some j → Live j e) ∧
          (holder (leave w.proc.owners t.iocid) n = none →
            ¬ e.Active ∧ ∀ v, e.has .iocId v ↔ old.has .iocId v) := by
  obtain ⟨tracking, counted, absent⟩ := (consistent_iff w.proc).mp consistent
  have owners := @afterDisconnect_owners env t w.proc tracking
  have after : Consistent (afterDisconnect env t w.proc) :=
    (consistent.untrackAll t.iocid (setOrder_nodup env _)
      (setOrder_tracked env fun n member => consistent.tracked member)).1
  refine ⟨_, commit_disconnect usable setup env up disconnect converts known
    (fun n member => consistent.tracked member) tracking.afterDisconnect.nonempty, ?_⟩
  intro n
  rcases get?_setChannels_cases w.store _ n with ⟨kept, unwritten⟩ | ⟨ch, member, name, written⟩
  · refine Or.inl ⟨kept, ?_⟩
    intro e stored listed
    exact unwritten _ (List.mem_map.mpr ⟨_, whole n e stored listed, rfl⟩)
      (releaseChannel_name _ _ _ _ _)
  · obtain ⟨cf, found, rfl⟩ := List.mem_map.mp member
    rw [releaseChannel_name] at name
    subst name
    obtain ⟨stored, listed⟩ := client.findByIocId_listed env w.store t.iocid cf found
    refine Or.inr ⟨_, _, stored, listed, written, ?_, ?_⟩
    · intro j holds
      rw [← owners] at holds
      obtain ⟨info, registered⟩ := Option.isSome_iff_exists.mp
        (after.serving_registered (Ownership.holder_mem holds))
      exact releaseChannel_live cfg setup _ holds registered
        (keyed.afterDisconnect j info registered)
    · intro free
      rw [← owners] at free
      exact releaseChannel_orphan cfg setup _ (by rw [free]; rfl)

end Steps

/-- The invariant of a run after the commits `done` of the whole run `run`. -/
structure Agreement (run done : List Commit) (w : World) : Prop where
  consistent : Consistent w.proc
  up : w.proc.Up
  keyed : Keyed w.proc
  sentBefore : ∀ n i, i ∈ w.proc.owners n → ∃ u ∈ sent done i, n ∈ u.names
  registered : ∀ i, sent done i ≠ [] → (∀ u ∈ sent done i, u.connected = true) →
    (w.proc.iocs i).isSome
  served : ∀ n j, holder w.proc.owners n = some j → ∃ e, w.store.get? n = some e ∧ Live j e
  idle : ∀ n, holder w.proc.owners n = none → ∀ e, w.store.get? n = some e → ¬ e.Active
  /-- a name nobody serves is listed, among the IOCs of the run, only under those that left -/
  listed : ∀ n e, w.store.get? n = some e → ∀ c ∈ run, e.has .iocId c.iocid →
    holder w.proc.owners n = none → ∃ u ∈ sent done c.iocid, u.connected = false
  sentListed : ∀ n e, w.store.get? n = some e → ∀ c ∈ run, e.has .iocId c.iocid →
    ∃ u ∈ sent done c.iocid, n ∈ u.names

namespace Agreement

variable {client : ChannelFinderAdapter} {cfg : CFConfig} {setup : Setup} {run done : List Commit}
  {w : World} {c : Commit}

theorem agrees (inv : Agreement run done w) : Agrees w := by
  intro n
  have present : w.proc.ids (.name n) ≠ [] → ∃ j, holder w.proc.owners n = some j := by
    intro tracked
    exact Option.ne_none_iff_exists'.mp fun free =>
      tracked ((Ownership.holder_eq_none_iff _ n).mp free)
  refine ⟨⟨?_, ?_⟩, ?_⟩
  · intro tracked
    obtain ⟨j, holds⟩ := present tracked
    obtain ⟨e, stored, live⟩ := inv.served n j holds
    exact ⟨e, stored, live.active⟩
  · rintro ⟨e, stored, active⟩ untracked
    exact inv.idle n ((Ownership.holder_eq_none_iff _ n).mpr untracked) e stored active
  · intro tracked e stored v
    obtain ⟨j, holds⟩ := present tracked
    obtain ⟨e', stored', live⟩ := inv.served n j holds
    rw [stored] at stored'
    obtain rfl := Option.some.inj stored'
    change _ ↔ holder w.proc.owners n = some v
    rw [live.listed, holds, Option.some.injEq, eq_comm]

theorem holder_registered (inv : Agreement run done w) {n j : String}
    (holds : holder w.proc.owners n = some j) : (w.proc.iocs j).isSome :=
  inv.consistent.serving_registered (Ownership.holder_mem holds)

/-- Everything that is listed under an open connection is held by it. -/
theorem holder_listed (inv : Agreement run done w) (member : c ∈ run)
    (stillOpen : ∀ u ∈ sent done c.iocid, u.connected = true) {n : String} {e : CFEntry}
    (stored : w.store.get? n = some e) (listed : e.has .iocId c.iocid) :
    holder w.proc.owners n = some c.iocid := by
  cases holds : holder w.proc.owners n with
  | none =>
    obtain ⟨u, inside, gone⟩ := inv.listed n e stored c member listed holds
    rw [stillOpen u inside] at gone
    cases gone
  | some j =>
    obtain ⟨e', stored', live⟩ := inv.served n j holds
    rw [stored] at stored'
    obtain rfl := Option.some.inj stored'
    rw [(live.listed _).mp listed]

theorem start {s : Store} (inactive : ∀ n e, s.get? n = some e → ¬ e.Active)
    (foreign : ∀ n e, s.get? n = some e → ∀ c ∈ run, ¬ e.has .iocId c.iocid) :
    Agreement run [] ⟨{}, s⟩ where
  consistent := consistent_empty
  up := ⟨rfl, rfl⟩
  keyed := by intro i info found; cases found
  sentBefore := by intro n i member; cases member
  registered := by intro i spoken; exact absurd rfl spoken
  served := by intro n j holds; cases holds
  idle := fun n _ e stored => inactive n e stored
  listed := fun n e stored c member listed => absurd listed (foreign n e stored c member)
  sentListed := fun n e stored c member listed => absurd listed (foreign n e stored c member)

theorem sentBefore_append (inv : Agreement run done w) (c : Commit) {n i : String}
    (serving : i ∈ w.proc.owners n) : ∃ u ∈ sent (done ++ [c]) i, n ∈ u.names := by
  obtain ⟨u, inside, named⟩ := inv.sentBefore n i serving
  exact ⟨u, mem_sent_append inside c, named⟩

theorem sentListed_append (inv : Agreement run done w) (c : Commit) {n : String} {e : CFEntry}
    (stored : w.store.get? n = some e) {d : Commit} (inside : d ∈ run)
      (listed : e.has .iocId d.iocid) :
    ∃ u ∈ sent (done ++ [c]) d.iocid, n ∈ u.names := by
  obtain ⟨u, before, named⟩ := inv.sentListed n e stored d inside listed
  exact ⟨u, mem_sent_append before c, named⟩

theorem listed_append (inv : Agreement run done w) (c : Commit) {n : String} {e : CFEntry}
    (stored : w.store.get? n = some e) {d : Commit} (inside : d ∈ run)
      (listed : e.has .iocId d.iocid)
    (free : holder w.proc.owners n = none) :
    ∃ u ∈ sent (done ++ [c]) d.iocid, u.connected = false := by
  obtain ⟨u, before, gone⟩ := inv.listed n e stored d inside listed free
  exact ⟨u, mem_sent_append before c, gone⟩

/-- A connection serves none of the names that it is about to send. -/
theorem not_serving (inv : Agreement run done w)
    (continues : Continues (sent done c.iocid) c.transaction) {n : String}
    (named : n ∈ c.transaction.names) : c.iocid ∉ w.proc.owners n := by
  intro serving
  obtain ⟨u, inside, before⟩ := inv.sentBefore n _ serving
  exact continues.fresh n named u inside before

/-- The first transaction of a connection finds nothing of it, a later one its registration. -/
theorem first_or_registered (inv : Agreement run done w)
    (continues : Continues (sent done c.iocid) c.transaction)
    (first : c.transaction.initial = true ↔ sent done c.iocid = []) :
    c.transaction.initial = true ∧ w.proc.channels c.iocid = ∅ ∨
      c.transaction.initial = false ∧ (w.proc.iocs c.iocid).isSome := by
  obtain ⟨tracking, -, -⟩ := (consistent_iff w.proc).mp inv.consistent
  by_cases empty : sent done c.iocid = []
  · refine Or.inl ⟨first.mpr empty, Py.Set.eq_empty_of_forall ?_⟩
    intro n serving
    obtain ⟨u, inside, -⟩ := inv.sentBefore n _ ((tracking.linked n _).mpr serving)
    rw [empty] at inside
    cases inside
  · exact Or.inr ⟨by simpa [empty] using first, inv.registered _ empty continues.stillOpen⟩

theorem commitStep_connected (inv : Agreement run done w) (usable : cfg.Usable)
    (apart : setup.Apart) (member : c ∈ run)
    (continues : Continues (sent done c.iocid) c.transaction) (calm : c.faults = [])
    (converts : iocNameConverts (iocInfoOf cfg c.env c.transaction).iocName = true)
    (open_ : c.transaction.connected = true)
    (known : c.transaction.initial = true ∨ (w.proc.iocs c.transaction.iocid).isSome) :
    ∃ s, client.commitStep cfg setup w c = ⟨afterConnected cfg setup c.env c.transaction w.proc,
      s⟩ ∧ TakenOrKept c.iocid w ⟨afterConnected cfg setup c.env c.transaction w.proc, s⟩ := by
  obtain ⟨tracking, -, -⟩ := (consistent_iff w.proc).mp inv.consistent
  obtain ⟨s, ran, effect⟩ := commit_connected_spec usable inv.up converts
    (recordsOf_apart cfg c.env c.transaction apart) tracking inv.keyed open_ known
    (fun cf found => by
      obtain ⟨stored, listed⟩ := client.findByIocId_listed _ _ _ cf found
      exact inv.holder_listed member continues.stillOpen stored listed)
    (fun n touch => inv.not_serving continues
      (touched_subset_names cfg setup c.env c.transaction touch))
  exact ⟨s, by rw [ChannelFinderAdapter.commitStep, calm, ran], effect⟩

/-- A connection has sent every name that its commit adds to the ones it serves. -/
theorem sentBefore_connected (inv : Agreement run done w)
    (known : c.transaction.initial = true ∨ (w.proc.iocs c.transaction.iocid).isSome)
    {n i : String}
    (serving : i ∈ (afterConnected cfg setup c.env c.transaction w.proc).owners n) :
    ∃ u ∈ sent (done ++ [c]) i, n ∈ u.names := by
  rw [afterConnected_owners known, serve] at serving
  split at serving
  · rename_i touch
    rcases Ownership.mem_arrive.mp serving with rfl | before
    · refine ⟨c.transaction, ?_, touched_subset_names cfg setup c.env c.transaction touch⟩
      rw [show c.transaction.iocid = c.iocid from rfl, sent_append_self]
      simp
    · exact inv.sentBefore_append c before
  · exact inv.sentBefore_append c serving

theorem connected (inv : Agreement run done w) (usable : cfg.Usable) (apart : setup.Apart)
    (member : c ∈ run) (continues : Continues (sent done c.iocid) c.transaction)
    (calm : c.faults = [])
    (converts : iocNameConverts (iocInfoOf cfg c.env c.transaction).iocName = true)
    (open_ : c.transaction.connected = true)
    (first : c.transaction.initial = true ↔ sent done c.iocid = []) :
    Agreement run (done ++ [c]) (client.commitStep cfg setup w c) := by
  obtain ⟨tracking, -, -⟩ := (consistent_iff w.proc).mp inv.consistent
  have ready := inv.first_or_registered continues first
  have known : c.transaction.initial = true ∨ (w.proc.iocs c.transaction.iocid).isSome :=
    ready.imp And.left And.right
  obtain ⟨s, step, effect⟩ := inv.commitStep_connected usable apart member continues calm
    converts open_ known
  obtain ⟨keys, q, update, consistent, -⟩ := updateIocInfos_consistent cfg setup c.env
    c.transaction inv.consistent (Or.inl ⟨open_, continues.noDeletions, ready⟩)
  rw [updateIocInfos_connected cfg c.env _ open_ known (fun r _ => tracking.idle r)] at update
  obtain ⟨-, rfl⟩ := EStateM.Result.ok.inj update
  rw [step]
  refine ⟨consistent, ((inv.up.registerInitial _ _ _).trackAll _ _).lookUpIds _,
    inv.keyed.afterConnected, fun n i serving => inv.sentBefore_connected known serving,
    ?_, ?_, ?_, ?_, ?_⟩
  · intro i spoken stillOpen
    by_cases same : i = c.iocid
    · subst same
      exact afterConnected_known known
    · rw [sent_append_of_ne same] at spoken stillOpen
      exact afterConnected_isSome (inv.registered i spoken stillOpen)
  · intro n j holds
    rcases effect n with ⟨⟨e, stored, live⟩, here⟩ | ⟨kept, unmoved⟩
    · rw [here] at holds
      exact ⟨e, stored, Option.some.inj holds ▸ live⟩
    · rw [kept]
      exact inv.served n j (unmoved.symm.trans holds)
  · intro n free e stored
    obtain ⟨kept, before⟩ := effect.free free
    exact inv.idle n before e (kept.symm.trans stored)
  · intro n e stored d inside listed free
    obtain ⟨kept, before⟩ := effect.free free
    exact inv.listed_append c (kept.symm.trans stored) inside listed before
  · intro n e stored d inside listed
    rcases effect n with ⟨⟨e', stored', live⟩, here⟩ | ⟨kept, -⟩
    · obtain rfl := Option.some.inj (stored.symm.trans stored')
      rw [(live.listed _).mp listed]
      exact inv.sentBefore_connected known (Ownership.holder_mem here)
    · exact inv.sentListed_append c (kept.symm.trans stored) inside listed

/-- The disconnect of an IOC that is not registered changes nothing. -/
theorem commit_disconnect_unknown {env : Env} {t : Transaction} (disconnect : t.IsDisconnect)
    (up : w.proc.Up) (converts : iocNameConverts (iocInfoOf cfg env t).iocName = true)
    (unknown : w.proc.iocs t.iocid = none) :
    client.commitWithThread cfg setup env [] t w = (.ok (), w) := by
  simp [ChannelFinderAdapter.commitWithThread, up.running, converts, disconnect.gone, unknown]

/-- Once the disconnect of an IOC is among the commits, only other IOCs are still open. -/
theorem open_after_disconnect (inv : Agreement run done w) (disconnect : c.transaction.IsDisconnect)
    {i : String} (spoken : sent (done ++ [c]) i ≠ [])
    (stillOpen : ∀ u ∈ sent (done ++ [c]) i, u.connected = true) :
    i ≠ c.iocid ∧ (w.proc.iocs i).isSome := by
  have other : i ≠ c.iocid := by
    rintro rfl
    have gone := stillOpen c.transaction (by rw [sent_append_self]; simp)
    rw [disconnect.gone] at gone
    cases gone
  rw [sent_append_of_ne other] at spoken stillOpen
  exact ⟨other, inv.registered i spoken stillOpen⟩

/-- A name that is not listed under the leaving IOC has another holder, or none. -/
theorem holder_leave_unlisted (inv : Agreement run done w) {i n : String}
    (elsewhere : ∀ e, w.store.get? n = some e → ¬ e.has .iocId i) :
    holder (leave w.proc.owners i) n = holder w.proc.owners n := by
  cases holds : holder w.proc.owners n with
  | none =>
    rw [Ownership.holder_eq_none_iff] at holds ⊢
    rw [leave, holds, List.erase_nil]
  | some j =>
    obtain ⟨e, stored, live⟩ := inv.served n j holds
    refine Ownership.holder_leave_of_ne holds ?_
    rintro rfl
    exact elsewhere e stored ((live.listed _).mpr rfl)

/-- The entry of a name that an IOC holds has one iocid. -/
theorem listed_unique (inv : Agreement run done w) {n j : String}
    (holds : holder w.proc.owners n = some j) {e : CFEntry} (stored : w.store.get? n = some e)
    {i k : String} (first : e.has .iocId i) (second : e.has .iocId k) : i = k := by
  obtain ⟨e', stored', live⟩ := inv.served n j holds
  rw [stored] at stored'
  obtain rfl := Option.some.inj stored'
  exact ((live.listed _).mp first).trans ((live.listed _).mp second).symm

/-- The disconnect of a registered IOC takes its names from it. -/
theorem disconnected_known (inv : Agreement run done w) (usable : cfg.Usable) (calm : c.faults = [])
    (converts : iocNameConverts (iocInfoOf cfg c.env c.transaction).iocName = true)
    (disconnect : c.transaction.IsDisconnect) (known : (w.proc.iocs c.transaction.iocid).isSome)
    (whole : client.FindsListed c.env w.store c.iocid) :
    Agreement run (done ++ [c]) (client.commitStep cfg setup w c) := by
  obtain ⟨tracking, -, -⟩ := (consistent_iff w.proc).mp inv.consistent
  obtain ⟨s, ran, effect⟩ := commit_disconnect_spec usable inv.up converts
    inv.consistent inv.keyed disconnect known whole
  have step : client.commitStep cfg setup w c = ⟨afterDisconnect c.env c.transaction w.proc, s⟩ :=
    by
    rw [ChannelFinderAdapter.commitStep, calm, ran]
  have owners := @afterDisconnect_owners c.env c.transaction w.proc tracking
  have consistent : Consistent (afterDisconnect c.env c.transaction w.proc) :=
    (inv.consistent.untrackAll _ (setOrder_nodup c.env _)
      (setOrder_tracked c.env fun n inside => inv.consistent.tracked inside)).1
  rw [step]
  refine ⟨consistent, inv.up.untrackAll _ _, inv.keyed.afterDisconnect, ?_, ?_, ?_, ?_, ?_, ?_⟩
  · intro n i serving
    rw [owners] at serving
    exact inv.sentBefore_append c (List.mem_of_mem_erase serving)
  · intro i spoken stillOpen
    obtain ⟨other, registered⟩ := inv.open_after_disconnect disconnect spoken stillOpen
    exact (afterDisconnect_iocs_of_ne other).symm ▸ registered
  · intro n j holds
    rw [owners] at holds
    rcases effect n with ⟨kept, elsewhere⟩ | ⟨old, e, -, -, stored, live, -⟩
    · rw [kept]
      exact inv.served n j ((inv.holder_leave_unlisted elsewhere).symm.trans holds)
    · exact ⟨e, stored, live j holds⟩
  · intro n free e stored
    rw [owners] at free
    rcases effect n with ⟨kept, elsewhere⟩ | ⟨old, e', -, -, stored', -, orphan⟩
    · exact inv.idle n ((inv.holder_leave_unlisted elsewhere).symm.trans free) e
        (kept.symm.trans stored)
    · rw [stored] at stored'
      obtain rfl := Option.some.inj stored'
      exact (orphan free).1
  · intro n e stored d inside listed free
    rw [owners] at free
    rcases effect n with ⟨kept, elsewhere⟩ | ⟨old, e', before, mine, stored', -, orphan⟩
    · exact inv.listed_append c (kept.symm.trans stored) inside listed
        ((inv.holder_leave_unlisted elsewhere).symm.trans free)
    · rw [stored] at stored'
      obtain rfl := Option.some.inj stored'
      have listedBefore := ((orphan free).2 d.iocid).mp listed
      cases holds : holder w.proc.owners n with
      | none => exact inv.listed_append c before inside listedBefore holds
      | some j =>
        have same : d.iocid = c.iocid := inv.listed_unique holds before listedBefore mine
        rw [same]
        exact ⟨c.transaction, by rw [sent_append_self]; simp, disconnect.gone⟩
  · intro n e stored d inside listed
    rcases effect n with ⟨kept, -⟩ | ⟨old, e', before, -, stored', live, orphan⟩
    · exact inv.sentListed_append c (kept.symm.trans stored) inside listed
    · obtain rfl := Option.some.inj (stored.symm.trans stored')
      cases holds : holder (leave w.proc.owners c.transaction.iocid) n with
      | none => exact inv.sentListed_append c before inside (((orphan holds).2 _).mp listed)
      | some j =>
        rw [((live j holds).listed _).mp listed]
        exact inv.sentBefore_append c (List.mem_of_mem_erase (Ownership.holder_mem holds))

theorem disconnected_unknown (inv : Agreement run done w) (calm : c.faults = [])
    (converts : iocNameConverts (iocInfoOf cfg c.env c.transaction).iocName = true)
    (disconnect : c.transaction.IsDisconnect) (unknown : w.proc.iocs c.transaction.iocid = none) :
    Agreement run (done ++ [c]) (client.commitStep cfg setup w c) := by
  have step : client.commitStep cfg setup w c = w := by
    rw [ChannelFinderAdapter.commitStep, calm, commit_disconnect_unknown disconnect inv.up converts
      unknown]
  rw [step]
  refine ⟨inv.consistent, inv.up, inv.keyed, fun n i => inv.sentBefore_append c,
    fun i spoken stillOpen => (inv.open_after_disconnect disconnect spoken stillOpen).2,
    inv.served, inv.idle, ?_, ?_⟩
  · intro n e stored d inside listed free
    exact inv.listed_append c stored inside listed free
  · intro n e stored d inside listed
    exact inv.sentListed_append c stored inside listed

theorem disconnected (inv : Agreement run done w) (usable : cfg.Usable) (calm : c.faults = [])
    (converts : iocNameConverts (iocInfoOf cfg c.env c.transaction).iocName = true)
    (disconnect : c.transaction.IsDisconnect)
    (whole : client.FindsListed c.env w.store c.iocid) :
    Agreement run (done ++ [c]) (client.commitStep cfg setup w c) := by
  by_cases known : (w.proc.iocs c.transaction.iocid).isSome
  · exact inv.disconnected_known usable calm converts disconnect known whole
  · exact inv.disconnected_unknown calm converts disconnect (by simpa using known)

end Agreement

theorem runCommits_append (client : ChannelFinderAdapter) (cfg : CFConfig) (setup : Setup)
    (w : World) (done : List Commit) (c : Commit) :
    client.runCommits cfg setup w (done ++ [c]) =
      client.commitStep cfg setup (client.runCommits cfg setup w done) c := by
  simp [ChannelFinderAdapter.runCommits]

/-- In every state of the run, the query for an IOC of it returns all that is listed. -/
def ChannelFinderAdapter.Covers (client : ChannelFinderAdapter) (run : List Commit) : Prop :=
  ∀ done w, Agreement run done w → done ⊆ run → ∀ c ∈ run,
    client.FindsListed c.env w.store c.iocid

theorem documented_covers (run : List Commit) : documented.Covers run :=
  fun _ w _ _ c _ => documented_findsListed c.env w.store c.iocid

/-- Pages with room for the names that an IOC sends are enough. -/
theorem queries_covers {cfg : CFConfig} {nameMatches : String → String → Bool} {run : List Commit}
    (few : ∀ c ∈ run, ∃ names : List String, names.length ≤ cfg.cfQueryLimit ∧
      ∀ u ∈ sent run c.iocid, u.names ⊆ names) : (cfg.queries nameMatches).Covers run := by
  intro done w inv inside c member
  obtain ⟨names, room, every⟩ := few c member
  apply PyCFClientAdapter.findsListed_of_page
  have part : (PyCFClientAdapter.listed w.store c.iocid).map CFChannel.name ⊆ names := by
    intro n listed
    obtain ⟨ch, found, rfl⟩ := List.mem_map.mp listed
    obtain ⟨stored, has⟩ := PyCFClientAdapter.mem_listed.mp found
    obtain ⟨u, before, named⟩ := inv.sentListed ch.name ch.toCFEntry stored c member has
    have later : sent done c.iocid ⊆ sent run c.iocid :=
      List.map_subset _ (List.filter_subset _ inside)
    exact every u (later before) named
  have size := ((PyCFClientAdapter.listed_nodup w.store c.iocid).subperm part).length_le
  rw [List.length_map] at size
  have most : cfg.cfQueryLimit = (cfg.adapter nameMatches).sizeLimit := rfl
  omega

theorem agreement_run {client : ChannelFinderAdapter} {cfg : CFConfig} (usable : cfg.Usable)
    {setup : Setup} (apart : setup.Apart) {run : List Commit} (session : SessionRun run)
    (calm : ∀ c ∈ run, c.faults = [])
    (converts : ∀ c ∈ run, iocNameConverts (iocInfoOf cfg c.env c.transaction).iocName = true)
    {w : World} (start : Agreement run [] w) (whole : client.Covers run) {done : List Commit}
    (reached : done <+: run) :
    Agreement run done (client.runCommits cfg setup w done) := by
  refine (EveryStep.maintains (I := fun done => done ⊆ run ∧
    Agreement run done (client.runCommits cfg setup w done)) session
    ⟨List.nil_subset run, start⟩ ?_ reached).2
  intro before c member ⟨inside, inv⟩ continues
  refine ⟨List.append_subset.mpr ⟨inside, by simpa using member⟩, ?_⟩
  rw [runCommits_append]
  rcases continues.kind with ⟨connected, first⟩ | disconnect
  · exact inv.connected usable apart member continues (calm c member) (converts c member)
      connected first
  · exact inv.disconnected usable (calm c member) (converts c member) disconnect
      (whole before _ inv inside c member)

/-- Memory and ChannelFinder agree after every commit of every interleaving of sessions,
as long as the size limit is positive, a push may make an attempt, and no IOC has a name
that `int` rejects. The last IOC of a list is always registered. -/
theorem commits_keep_agreement {cfg : CFConfig} (usable : cfg.Usable) (apart : cfg.NamesApart)
    {startEnv : Env} {cfProperties : List String} {setup : Setup} {registered : List String}
    (started : setupCfProperties cfg startEnv cfProperties = .ok (setup, registered))
    {run : List Commit} (session : SessionRun run) (calm : ∀ c ∈ run, c.faults = [])
    (converts : ∀ c ∈ run, iocNameConverts (iocInfoOf cfg c.env c.transaction).iocName = true)
    {s : Store} (inactive : ∀ n e, s.get? n = some e → ¬ e.Active)
    (foreign : ∀ n e, s.get? n = some e → ∀ c ∈ run, ¬ e.has .iocId c.iocid)
    {done : List Commit} (reached : done <+: run) :
    Agrees (documented.runCommits cfg setup ⟨{}, s⟩ done) ∧
      ∀ n last, ((documented.runCommits cfg setup ⟨{}, s⟩ done).proc.ids (.name n)).getLast? =
        some last → ((documented.runCommits cfg setup ⟨{}, s⟩ done).proc.iocs last).isSome := by
  have inv := agreement_run usable (setupCfProperties_apart apart started) session calm converts
    (Agreement.start inactive foreign) (documented_covers run) reached
  exact ⟨inv.agrees, fun _ _ holds => inv.holder_registered holds⟩

theorem SessionRun.nil : SessionRun [] := EveryStep.nil _

theorem SessionRun.append {done : List Commit} (session : SessionRun done) {c : Commit}
    (continues : Continues (sent done c.iocid) c.transaction) : SessionRun (done ++ [c]) :=
  EveryStep.append (P := fun done c => Continues (sent done c.iocid) c.transaction) session
    continues

/-- Two IOCs that serve one record, and the second of them leaving again. -/
def sharedRecord : List Commit :=
  [⟨{}, [], announce "a" 5064 "pv"⟩, ⟨{}, [], announce "b" 5064 "pv"⟩, ⟨{}, [], goodbye "b" 5064⟩]

theorem sharedRecord_session : SessionRun sharedRecord := by
  have first : SessionRun [⟨{}, [], announce "a" 5064 "pv"⟩] :=
    SessionRun.nil.append ⟨by decide, Or.inl ⟨rfl, by decide⟩, rfl, by decide⟩
  have second : SessionRun [⟨{}, [], announce "a" 5064 "pv"⟩, ⟨{}, [], announce "b" 5064 "pv"⟩] :=
    first.append ⟨by decide, Or.inl ⟨rfl, by decide⟩, rfl, by decide⟩
  exact second.append ⟨by decide, Or.inr (goodbye_isDisconnect _ _), rfl, by decide⟩

theorem namesApart_of_plain {cfg : CFConfig} (noTags : cfg.infoTags = "")
    (noVars : cfg.environmentVariables = "") : cfg.NamesApart := by
  intro configured parsed name member
  have tags : infoTagNames cfg = [] := by
    unfold infoTagNames
    rw [noTags]
    decide
  simp only [parseEnvVars, noVars, if_true, Except.ok.injEq] at parsed
  subst parsed
  rw [configuredNames, tags] at member
  cases member

theorem commits_keep_agreement_sharedRecord :
    ∃ setup registered, setupCfProperties { recceiverId := "r" } {} [] = .ok (setup, registered) ∧
      Agrees (documented.runCommits { recceiverId := "r" } setup {} sharedRecord) := by
  have started : setupCfProperties { recceiverId := "r" } {} [] = .ok (_, _) := rfl
  refine ⟨_, _, started, ?_⟩
  exact (commits_keep_agreement ⟨by decide, by decide⟩ (namesApart_of_plain rfl rfl) started
    sharedRecord_session (by decide) (by decide) (s := ∅) (by simp) (by simp)
    (List.prefix_refl _)).1

/-- With a negative size limit `range` is empty and no channel is ever written. -/
theorem agreement_fails_negative_limit :
    ∃ setup registered,
      setupCfProperties { recceiverId := "r", cfQueryLimit := -1 } {} [] = .ok (setup, registered) ∧
      CFConfig.NamesApart { recceiverId := "r", cfQueryLimit := -1 } ∧
      SessionRun [⟨{}, [], announce "a" 5064 "pv"⟩] ∧
      ¬ Agrees (documented.runCommits { recceiverId := "r", cfQueryLimit := -1 } setup {}
        [⟨{}, [], announce "a" 5064 "pv"⟩]) := by
  refine ⟨_, _, rfl, namesApart_of_plain rfl rfl,
    SessionRun.nil.append ⟨by decide, Or.inl ⟨rfl, by decide⟩, rfl, by decide⟩, ?_⟩
  intro agrees
  obtain ⟨e, stored, -⟩ := (agrees "pv").1.mp (by decide)
  exact absurd (Option.isSome_iff_exists.mpr ⟨e, stored⟩) (by decide)

end Recsync.Cf
