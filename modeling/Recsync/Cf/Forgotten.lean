import Recsync.Cf.Agreement
import Recsync.Cf.Frame

set_option autoImplicit false

/- What the processor remembers of an IOC after its disconnect. -/
namespace Recsync.Cf

open Runs (EveryStep)

/-- No counter is above the number of channels. An initial transaction starts it at zero again,
whatever the IOC has. -/
def Undercounted (p : Processor) : Prop :=
  ∀ i info, p.iocs i = some info → info.channelcount ≤ (p.channels i).size

namespace Undercounted

variable {p : Processor}

theorem track (under : Undercounted p) (tracking : Tracking p) {i : String} {info : IOCInfo}
    (known : p.iocs i = some info) (n : String) : Undercounted (p.track i n info) := by
  intro j entry found
  rw [Processor.iocs_track] at found
  rw [Processor.channels_track]
  split at found
  · rename_i same
    have size := under i info known
    rw [if_pos same, ← Option.some.inj found]
    by_cases member : i ∈ p.ids (.name n)
    · rw [Py.Set.add_of_mem ((tracking.linked n i).mp member)]
      simpa [member] using size
    · rw [Py.Set.size_add (fun inside => member ((tracking.linked n i).mpr inside))]
      simpa [member] using size
  · rename_i other
    rw [if_neg other]
    exact under j entry found

theorem untrack (under : Undercounted p) {i n : String} (member : n ∈ p.channels i) :
    Undercounted (p.untrack i n) := by
  have smaller := Py.Set.size_discard member
  intro j entry found
  rw [Processor.iocs_untrack] at found
  rw [Processor.channels_untrack]
  split at found
  · rename_i same
    rw [if_pos same]
    obtain ⟨info, known, after⟩ := Option.bind_eq_some_iff.mp found
    have size := under i info known
    unfold Processor.countDown at after
    split at after
    · cases after
    · rw [← Option.some.inj after]
      dsimp only
      omega
  · rename_i other
    rw [if_neg other]
    exact under j entry found

theorem setIoc (under : Undercounted p) {info : IOCInfo} (fresh : info.channelcount = 0)
    (i : String) : Undercounted (p.setIoc i (some info)) := by
  intro j entry found
  rw [Processor.iocs_setIoc] at found
  rw [Processor.channels_setIoc]
  split at found
  · rw [← Option.some.inj found, fresh]
    exact Int.natCast_nonneg _
  · exact under j entry found

theorem afterConnected (under : Undercounted p) (tracking : Tracking p) (cfg : CFConfig)
    (setup : Setup) (env : Env) (t : Transaction) :
    Undercounted (afterConnected cfg setup env t p) := by
  have started : Tracking (registerInitial cfg env t p) ∧
      Undercounted (registerInitial cfg env t p) := by
    unfold registerInitial
    split
    · exact ⟨tracking.setIoc _ _, under.setIoc rfl _⟩
    · exact ⟨tracking, under⟩
  have step (q : Processor) (info : IOCInfo) (name : String) (known : q.iocs t.iocid = some info)
      (both : Tracking q ∧ Undercounted q) :
      Tracking (q.track t.iocid name info) ∧ Undercounted (q.track t.iocid name info) :=
    ⟨both.1.track t.iocid name info, both.2.track both.1 known name⟩
  have tracked := Processor.trackAll_induction (motive := fun q => Tracking q ∧ Undercounted q)
    step (touched cfg (recordsOf cfg setup env t)) started
  intro i info found
  rw [Cf.afterConnected, Processor.iocs_lookUpIds] at found
  rw [Cf.afterConnected, Processor.channels_lookUpIds]
  exact tracked.2 i info found

theorem untrackAll (under : Undercounted p) (i : String) {names : List String}
    (nodup : names.Nodup) (members : ∀ n ∈ names, n ∈ p.channels i) :
    Undercounted (p.untrackAll i names) := by
  induction names generalizing p with
  | nil => exact under
  | cons name rest ih =>
    obtain ⟨fresh, nodup⟩ := List.nodup_cons.mp nodup
    rw [List.forall_mem_cons] at members
    apply ih (under.untrack members.1) nodup
    intro n later
    have different : n ≠ name := fun same => fresh (same ▸ later)
    rw [Processor.channels_untrack, if_pos rfl, Py.Set.mem_discard]
    exact ⟨different, members.2 n later⟩

theorem removeChannels (under : Undercounted p) (env : Env) (i : String) :
    Undercounted (p.untrackAll i (env.setOrder (p.channels i).elems)) :=
  under.untrackAll i (setOrder_nodup env _) fun _ member => (mem_setOrder env).mp member

theorem afterEvict (under : Undercounted p) (env : Env) (i : String) :
    Undercounted (afterEvict env i p) := by
  have done := under.removeChannels env i
  intro j info found
  rw [Cf.afterEvict, Processor.iocs_setChannels, Processor.iocs_setIoc] at found
  rw [Cf.afterEvict, Processor.channels_setChannels]
  split at found
  · cases found
  · rename_i other
    rw [if_neg other]
    exact done j info found

end Undercounted

/-- The counter reaches zero with the last of the channels or before it. -/
theorem iocs_untrackAll_self {p : Processor} {i : String} {names : List String}
    (occupied : names ≠ []) (enough : ∀ info, p.iocs i = some info →
      info.channelcount ≤ names.length) : (p.untrackAll i names).iocs i = none := by
  induction names generalizing p with
  | nil => exact absurd rfl occupied
  | cons name rest ih =>
    change ((p.untrack i name).untrackAll i rest).iocs i = none
    have gone (q : Processor) (unknown : q.iocs i = none) :
      (q.untrackAll i rest).iocs i = none := by
      clear ih enough occupied
      induction rest generalizing q with
      | nil => exact unknown
      | cons other rest ih =>
        apply ih
        rw [Processor.iocs_untrack, if_pos rfl, unknown]
        rfl
    by_cases last : (p.untrack i name).iocs i = none
    · exact gone _ last
    · obtain ⟨entry, found⟩ := Option.ne_none_iff_exists'.mp last
      have counted := found
      rw [Processor.iocs_untrack, if_pos rfl] at counted
      obtain ⟨info, known, after⟩ := Option.bind_eq_some_iff.mp counted
      have size := enough info known
      unfold Processor.countDown at after
      split at after
      · cases after
      · rename_i positive
        have count : entry.channelcount = info.channelcount - 1 := by
          rw [← Option.some.inj after]
        rw [List.length_cons] at size
        apply ih
        · rintro rfl
          simp at size
          omega
        · intro again same
          obtain rfl : entry = again := Option.some.inj (found.symm.trans same)
          omega

section Steps

variable {cfg : CFConfig} {setup : Setup} {w : World} {c : Commit}

theorem finishCommit_gone {env : Env} {t : Transaction} (gone : t.connected = false) (p : Processor)
    (pushed : Except Py.Error Bool × Store) : (finishCommit env t p pushed).2.proc = p := by
  rcases pushed with ⟨e | done, s⟩
  · rfl
  · cases done with
    | true => rfl
    | false => simp [finishCommit, gone]

/-- A disconnect only does its bookkeeping, and that only where the IOC is registered. -/
theorem disconnect_proc (sound : Sound w.proc) (close : c.transaction.IsClose) :
    (documented.commitStep cfg setup w c).proc =
      if (w.proc.iocs c.iocid).isSome then afterDisconnect c.env c.transaction w.proc
      else w.proc := by
  have converts := close.converts cfg c.env
  have gone := close.gone
  by_cases known : (w.proc.iocs c.iocid).isSome
  · have update := updateIocInfos_disconnect cfg c.env (iocInfoOf cfg c.env c.transaction)
      close.toIsDisconnect fun n member => (sound.tracking.linked n _).mpr member
    rw [← recordsOf_disconnect cfg setup c.env close.toIsDisconnect] at update
    rw [if_pos known, ChannelFinderAdapter.commitStep,
      commit_of_update sound.up converts (Or.inr known) update]
    exact finishCommit_gone gone _ _
  · have unknown : w.proc.iocs c.transaction.iocid = none :=
      Option.not_isSome_iff_eq_none.mp known
    rw [if_neg known]
    simp [ChannelFinderAdapter.commitStep, ChannelFinderAdapter.commitWithThread, sound.up.running,
      converts, gone, unknown]

/-- A connected commit leaves the processor alone, does its bookkeeping, or evicts its IOC after
it. -/
theorem connected_proc (sound : Sound w.proc) (connected : c.transaction.connected = true)
    (ready : Ready w.proc c.transaction) :
    (documented.commitStep cfg setup w c).proc = w.proc ∨
      (documented.commitStep cfg setup w c).proc =
        afterConnected cfg setup c.env c.transaction w.proc ∨
      (documented.commitStep cfg setup w c).proc =
        afterEvict c.env c.iocid (afterConnected cfg setup c.env c.transaction w.proc) := by
  have update := @updateIocInfos_regular cfg setup c.env c.transaction w.proc sound.tracking
    connected ready
  have updated := @Sound.afterConnected cfg setup c.env c.transaction w.proc sound
  rcases commit_proc_cases cfg setup c.env c.faults c.transaction w with same | same | ⟨-, same⟩
  · exact Or.inl same
  · rw [Py.Program.after, update] at same
    exact Or.inr (Or.inl same)
  · rw [Py.Program.after, Py.Program.after, update] at same
    dsimp only at same
    rw [evictIoc_eq_afterEvict c.env updated.tracking] at same
    exact Or.inr (Or.inr same)

theorem returned_proc (sound : Sound w.proc) (connected : c.transaction.connected = true)
    (ready : Ready w.proc c.transaction)
    (returned : (documented.commitWithThread cfg setup c.env c.faults c.transaction w).1 = .ok ()) :
    (documented.commitStep cfg setup w c).proc =
      afterConnected cfg setup c.env c.transaction w.proc := by
  have update := @updateIocInfos_regular cfg setup c.env c.transaction w.proc sound.tracking
    connected ready
  have converts : iocNameConverts (iocInfoOf cfg c.env c.transaction).iocName = true := by
    by_contra stuck
    simp [ChannelFinderAdapter.commitWithThread, sound.up.running, stuck] at returned
  rw [ChannelFinderAdapter.commitStep]
  rw [commit_of_update sound.up converts (Or.inl connected) update] at returned ⊢
  generalize documented.pushToCf cfg setup c.env _ _ _ _ c.faults 0 w.store = pushed at returned ⊢
  rcases pushed with ⟨e | done, s⟩
  · cases returned
  · cases done with
    | true => rfl
    | false =>
      simp only [finishCommit, connected, if_true] at returned
      split at returned <;> cases returned

end Steps

/-- Nothing of the IOC is left in the maps. -/
structure Forgotten (i : String) (p : Processor) : Prop where
  iocs : p.iocs i = none
  ids : ∀ k, i ∉ p.ids k
  channels : ∀ n, n ∉ p.channels i

theorem Sound.forgotten {p : Processor} (sound : Sound p) {i : String} (unknown : p.iocs i = none)
    (none : ∀ n, n ∉ p.channels i) : Forgotten i p := by
  refine ⟨unknown, ?_, none⟩
  intro k member
  cases k with
  | name n => exact none n ((sound.tracking.linked n i).mp member)
  | id r =>
    rw [sound.tracking.idle r] at member
    cases member

/-- The step is no leftover of an evicted connection, and an IOC that is registered when it
disconnects has a channel. -/
structure Careful (p : Processor) (t : Transaction) : Prop where
  regular : t.connected = true ∧ Ready p t ∨ t.IsClose
  channels : t.connected = false → (p.iocs t.iocid).isSome → p.channels t.iocid ≠ ∅

theorem Careful.toRegular {p : Processor} {t : Transaction} (careful : Careful p t) : Regular p t :=
  careful.regular.imp id Transaction.IsClose.toIsDisconnect

def CarefulRun (cfg : CFConfig) (setup : Setup) (w : World) (run : List Commit) : Prop :=
  EveryStep (fun done c => Careful (documented.runCommits cfg setup w done).proc c.transaction) run

def Returns (cfg : CFConfig) (setup : Setup) (w : World) (c : Commit) : Prop :=
  (documented.commitWithThread cfg setup c.env c.faults c.transaction w).1 = .ok ()

/-- Every commit of the IOC while it was connected has returned. -/
def AllReturn (cfg : CFConfig) (setup : Setup) (w : World) (run : List Commit) (i : String) :
    Prop :=
  EveryStep (fun done c => c.iocid = i → c.transaction.connected = true →
    Returns cfg setup (documented.runCommits cfg setup w done) c) run

/-- An initial transaction of the IOC was committed and no disconnect followed. -/
def ConnectedIn (cfg : CFConfig) (setup : Setup) (w : World) (run : List Commit) (i : String) :
    Prop :=
  ∃ before c after, run = before ++ c :: after ∧ c.iocid = i ∧ c.transaction.initial = true ∧
    Returns cfg setup (documented.runCommits cfg setup w before) c ∧
    ∀ d ∈ after, d.iocid = i → d.transaction.connected = true

section Runs

variable {cfg : CFConfig} {setup : Setup} {w : World} {c : Commit}

theorem undercounted_commitStep (sound : Sound w.proc) (under : Undercounted w.proc)
    (careful : Careful w.proc c.transaction) :
    Undercounted (documented.commitStep cfg setup w c).proc := by
  rcases careful.regular with ⟨connected, ready⟩ | close
  · have updated := under.afterConnected sound.tracking cfg setup c.env c.transaction
    rcases @connected_proc cfg setup w c sound connected ready with same | same | same
    · rw [same]
      exact under
    · rw [same]
      exact updated
    · rw [same]
      exact updated.afterEvict c.env c.iocid
  · rw [disconnect_proc sound close]
    split
    · exact under.removeChannels c.env c.iocid
    · exact under

/-- A careful disconnect leaves nothing of its IOC. -/
theorem forgotten_commitStep (sound : Sound w.proc) (under : Undercounted w.proc)
    (careful : Careful w.proc c.transaction) (gone : c.transaction.connected = false) :
    Forgotten c.iocid (documented.commitStep cfg setup w c).proc := by
  have close : c.transaction.IsClose := by
    rcases careful.regular with ⟨connected, -⟩ | close
    · rw [gone] at connected
      cases connected
    · exact close
  rw [disconnect_proc sound close]
  by_cases known : (w.proc.iocs c.iocid).isSome
  · rw [if_pos known]
    have occupied := careful.channels gone known
    apply (@Sound.afterDisconnect c.env c.transaction w.proc sound).forgotten
    · apply iocs_untrackAll_self
      · intro none
        apply occupied
        apply Py.Set.eq_empty_of_forall
        intro n member
        have listed := (mem_setOrder c.env).mpr member
        rw [none] at listed
        cases listed
      · intro info found
        rw [(c.env.setOrder_perm _).length_eq]
        exact under c.iocid info found
    · intro n member
      change n ∈ (w.proc.untrackAll c.iocid (c.env.setOrder
        (w.proc.channels c.iocid).elems)).channels c.iocid at member
      rw [Processor.channels_untrackAll_self] at member
      exact Py.Set.not_mem_empty n member
  · rw [if_neg known]
    have unknown : w.proc.iocs c.iocid = none := by simpa using known
    apply sound.forgotten unknown
    intro n member
    exact known (sound.registered c.iocid n member)

theorem iocs_commitStep_of_ne {i : String} (other : i ≠ c.iocid) :
    (documented.commitStep cfg setup w c).proc.iocs i = w.proc.iocs i :=
  (commit_others documented cfg setup c.env c.faults c.transaction w).iocs i other

theorem registered_of_returned (sound : Sound w.proc)
    (connected : c.transaction.connected = true) (ready : Ready w.proc c.transaction)
    (returned : Returns cfg setup w c) :
    ((documented.commitStep cfg setup w c).proc.iocs c.iocid).isSome ↔
      c.transaction.initial = true ∨ (w.proc.iocs c.iocid).isSome := by
  rw [returned_proc sound connected ready returned, afterConnected, Processor.iocs_lookUpIds,
    Processor.iocs_trackAll_isSome]
  constructor
  · intro known
    unfold registerInitial at known
    split at known
    · rename_i initial
      exact Or.inl initial
    · exact Or.inr known
  · exact registerInitial_known

theorem connectedIn_snoc_of_ne {run : List Commit} {i : String} (other : c.iocid ≠ i) :
    ConnectedIn cfg setup w (run ++ [c]) i ↔ ConnectedIn cfg setup w run i := by
  constructor
  · rintro ⟨before, d, after, split, own, initial, returned, still⟩
    rcases List.eq_nil_or_concat after with rfl | ⟨front, last, rfl⟩
    · obtain ⟨-, same⟩ := List.append_inj' split rfl
      obtain rfl : c = d := by simpa using same
      exact absurd own other
    · have shorter : run ++ [c] = (before ++ d :: front) ++ [last] := by simpa using split
      exact ⟨before, d, front, (List.append_inj' shorter rfl).1, own, initial, returned,
        fun e member => still e (by simp [member])⟩
  · rintro ⟨before, d, after, rfl, own, initial, returned, still⟩
    refine ⟨before, d, after ++ [c], by simp, own, initial, returned, ?_⟩
    intro e member same
    rcases List.mem_append.mp member with early | last
    · exact still e early same
    · rw [List.mem_singleton.mp last] at same
      exact absurd same other

theorem connectedIn_snoc {run : List Commit} (connected : c.transaction.connected = true)
    (returned : Returns cfg setup (documented.runCommits cfg setup w run) c) :
    ConnectedIn cfg setup w (run ++ [c]) c.iocid ↔
      c.transaction.initial = true ∨ ConnectedIn cfg setup w run c.iocid := by
  constructor
  · rintro ⟨before, d, after, split, own, initial, returned, still⟩
    rcases List.eq_nil_or_concat after with rfl | ⟨front, last, rfl⟩
    · obtain ⟨-, same⟩ := List.append_inj' split rfl
      obtain rfl : c = d := by simpa using same
      exact Or.inl initial
    · have shorter : run ++ [c] = (before ++ d :: front) ++ [last] := by simpa using split
      exact Or.inr ⟨before, d, front, (List.append_inj' shorter rfl).1, own, initial, returned,
        fun e member => still e (by simp [member])⟩
  · rintro (initial | ⟨before, d, after, rfl, own, initial, earlier, still⟩)
    · exact ⟨run, c, [], rfl, rfl, initial, returned, by simp⟩
    · refine ⟨before, d, after ++ [c], by simp, own, initial, earlier, ?_⟩
      intro e member same
      rcases List.mem_append.mp member with early | last
      · exact still e early same
      · rw [List.mem_singleton.mp last]
        exact connected

/-- A disconnect ends the connection. -/
theorem not_connectedIn_snoc {run : List Commit} (gone : c.transaction.IsClose) :
    ¬ ConnectedIn cfg setup w (run ++ [c]) c.iocid := by
  rintro ⟨before, d, after, split, own, initial, -, still⟩
  rcases List.eq_nil_or_concat after with rfl | ⟨front, last, rfl⟩
  · obtain ⟨-, same⟩ := List.append_inj' split rfl
    obtain rfl : c = d := by simpa using same
    rw [gone.notInitial] at initial
    cases initial
  · have shorter : run ++ [c] = (before ++ d :: front) ++ [last] := by simpa using split
    obtain ⟨-, same⟩ := List.append_inj' shorter rfl
    obtain rfl : c = last := by simpa using same
    have open' := still c (by simp) rfl
    rw [gone.gone] at open'
    cases open'

/-- What holds after the commits that were made so far. -/
structure Remembers (cfg : CFConfig) (setup : Setup) (w : World) (done : List Commit) : Prop where
  sound : Sound (documented.runCommits cfg setup w done).proc
  under : Undercounted (documented.runCommits cfg setup w done).proc
  registered : ∀ i, AllReturn cfg setup w done i →
    (((documented.runCommits cfg setup w done).proc.iocs i).isSome ↔ ConnectedIn cfg setup w done i)

theorem remembers_step {done : List Commit} (before : Remembers cfg setup w done)
    (careful : Careful (documented.runCommits cfg setup w done).proc c.transaction) :
    Remembers cfg setup w (done ++ [c]) := by
  have sound := before.sound
  constructor
  · rw [runCommits_append]
    exact sound.commitStep careful.toRegular
  · rw [runCommits_append]
    exact undercounted_commitStep sound before.under careful
  · intro i all
    have earlier := before.registered i (EveryStep.take all)
    rw [runCommits_append]
    by_cases same : c.iocid = i
    · subst same
      rcases careful.regular with ⟨connected, ready⟩ | close
      · have returned := all done c [] rfl rfl connected
        rw [registered_of_returned sound connected ready returned, earlier,
          connectedIn_snoc connected returned]
      · have forgotten := @forgotten_commitStep cfg setup _ c sound before.under
          careful close.gone
        rw [forgotten.iocs]
        exact iff_of_false (by simp) (not_connectedIn_snoc close)
    · rw [iocs_commitStep_of_ne (Ne.symm same), earlier, connectedIn_snoc_of_ne same]

theorem remembers_start (s : Store) : Remembers cfg setup ⟨{}, s⟩ [] := by
  refine ⟨sound_empty, ?_, ?_⟩
  · intro i info found
    cases found
  · intro i _
    refine iff_of_false (by simp [ChannelFinderAdapter.runCommits]) ?_
    rintro ⟨before, d, after, split, -⟩
    simp at split

end Runs

/-- In every careful run the disconnect of an IOC leaves nothing of it in memory, and the IOCs whose
commits have all returned are registered exactly while they are connected. -/
theorem disconnected_forgotten {cfg : CFConfig} {setup : Setup} {s : Store} {run : List Commit}
    (careful : CarefulRun cfg setup ⟨{}, s⟩ run) :
    (∀ done c rest, run = done ++ c :: rest → c.transaction.connected = false →
        Forgotten c.iocid (documented.runCommits cfg setup ⟨{}, s⟩ (done ++ [c])).proc) ∧
      ∀ done, done <+: run → ∀ i, AllReturn cfg setup ⟨{}, s⟩ done i →
        (((documented.runCommits cfg setup ⟨{}, s⟩ done).proc.iocs i).isSome ↔
          ConnectedIn cfg setup ⟨{}, s⟩ done i) := by
  have reached {done : List Commit} (inside : done <+: run) :
      Remembers cfg setup ⟨{}, s⟩ done :=
    EveryStep.maintains careful (remembers_start s) (fun done c _ before step =>
      remembers_step before step) inside
  constructor
  · intro done c rest split gone
    have before := reached ⟨c :: rest, split.symm⟩
    rw [runCommits_append]
    exact forgotten_commitStep before.sound before.under (careful done c rest split) gone
  · intro done inside
    exact (reached inside).registered

/-- An IOC with a record comes and goes. -/
theorem disconnected_forgotten_announce :
    Forgotten (goodbye "a" 5064).iocid
      (documented.runCommits { recceiverId := "r" } {} {}
        ([⟨{}, [], announce "a" 5064 "pv"⟩] ++ [⟨{}, [], goodbye "a" 5064⟩])).proc := by
  have first : CarefulRun { recceiverId := "r" } {} {} [⟨{}, [], announce "a" 5064 "pv"⟩] :=
    EveryStep.append (EveryStep.nil _) ⟨Or.inl ⟨rfl, Or.inl rfl⟩, fun gone =>
      absurd gone (by decide)⟩
  have careful : CarefulRun { recceiverId := "r" } {} {}
      ([⟨{}, [], announce "a" 5064 "pv"⟩] ++ [⟨{}, [], goodbye "a" 5064⟩]) := by
    refine EveryStep.append first ⟨Or.inr goodbye_isClose, fun _ _ none => ?_⟩
    have tracked : "pv" ∈ (documented.runCommits { recceiverId := "r" } {} {}
        [⟨{}, [], announce "a" 5064 "pv"⟩]).proc.channels (goodbye "a" 5064).iocid :=
      Py.Set.mem_iff.mpr (by decide)
    rw [none] at tracked
    exact Py.Set.not_mem_empty _ tracked
  exact (disconnected_forgotten careful).1 _ ⟨{}, [], goodbye "a" 5064⟩ [] rfl rfl

/-- An IOC that hides all its records. -/
def hidden : Commit := ⟨{}, [], { host := "a", port := 5064, initial := true }⟩

/-- It stays registered after its disconnect. -/
theorem hidden_not_forgotten :
    Returns { recceiverId := "r" } {} {} hidden ∧
      ¬ Forgotten (goodbye "a" 5064).iocid
        (documented.runCommits { recceiverId := "r" } {} {} [hidden,
          ⟨{}, [], goodbye "a" 5064⟩]).proc := by
  refine ⟨rfl, fun forgotten => ?_⟩
  have still : ((documented.runCommits { recceiverId := "r" } {} {}
      [hidden, ⟨{}, [], goodbye "a" 5064⟩]).proc.iocs (goodbye "a" 5064).iocid).isSome := by decide
  rw [forgotten.iocs] at still
  cases still

end Recsync.Cf
