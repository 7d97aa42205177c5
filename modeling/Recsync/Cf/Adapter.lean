import Recsync.Cf.Frame
import Recsync.Cf.Retry

set_option autoImplicit false

/- What the page of `find_by_ioc_id` means for a disconnect. -/
namespace Recsync.Cf

open Ownership (holder)
open Py (Error)

/-- Every channel that was Active under the iocid is Inactive, or Active under another IOC that
is connected and serves it. -/
def Relinquished (iocid : String) (before : Store) (after : World) : Prop :=
  ∀ n e, before.get? n = some e → e.has .iocId iocid → e.Active →
    ∃ e', after.store.get? n = some e' ∧
      (¬ e'.Active ∧ e'.has .pvStatus PVStatus.inactive.value ∨
        ∃ j, j ≠ iocid ∧ (after.proc.iocs j).isSome ∧ j ∈ after.proc.ids (.name n) ∧ Live j e')

section Relinquish

variable {cfg : CFConfig} {setup : Setup} {env : Env} {t : Transaction} {w : World}

theorem relinquished_of_released (sound : Sound w.proc) {s : Store}
    (released : ∀ n, s.get? n = (w.store.get? n).map
      (releaseEntry cfg setup (afterDisconnect env t w.proc) (iocInfoOf cfg env t) n)) :
    Relinquished t.iocid w.store ⟨afterDisconnect env t w.proc, s⟩ := by
  have after := @Sound.afterDisconnect env t w.proc sound
  intro n e stored own _
  have now := released n
  rw [stored, Option.map_some, releaseEntry, iocInfoOf_id, if_pos own] at now
  refine ⟨_, now, ?_⟩
  cases last : (holder (afterDisconnect env t w.proc).owners n).bind
      (afterDisconnect env t w.proc).iocs with
  | none =>
    exact Or.inl ⟨(@releaseChannel_orphan cfg setup _ _ { e with name := n } last).1,
      @releaseChannel_inactive cfg setup _ _ { e with name := n } last⟩
  | some info =>
    obtain ⟨j, holds, registered⟩ := Option.bind_eq_some_iff.mp last
    have live := @releaseChannel_live cfg setup _ (iocInfoOf cfg env t) { e with name := n } j info
      holds registered (after.keyed j info registered)
    have serves : j ∈ (afterDisconnect env t w.proc).ids (.name n) := List.mem_of_getLast? holds
    have holdsBefore := holds
    rw [@afterDisconnect_owners env t w.proc sound.tracking] at holdsBefore
    exact Or.inr ⟨j, Ownership.holder_leave_ne (sound.tracking.nodup n) holdsBefore,
      by simp [registered], serves, live⟩

theorem not_relinquished {iocid n : String} {before : Store} {after : World}
    (active : ∃ e ∈ before.get? n, e.has .iocId iocid ∧ e.Active)
    (same : after.store.get? n = before.get? n) : ¬ Relinquished iocid before after := by
  intro relinquished
  obtain ⟨e, stored, own, active⟩ := active
  obtain ⟨e', found, left⟩ := relinquished n e stored own active
  rw [same, stored] at found
  obtain rfl := Option.some.inj found
  rcases left with ⟨inactive, -⟩ | ⟨j, other, -, -, live⟩
  · exact inactive active
  · exact other ((live.listed iocid).mp own).symm

end Relinquish

def answersLast (last : CFChannel) : Env where
  replyOrder l := l.filter (fun ch => ch != last) ++ l.filter (fun ch => !(ch != last))
  replyOrder_perm := List.filter_append_perm _

/-- A page that does not hold everything may miss any channel. -/
theorem findByIocId_misses {adapter : PyCFClientAdapter} {s : Store} {iocid : String}
    (short : adapter.sizeLimit < (PyCFClientAdapter.listed s iocid).length)
    (positive : 0 < adapter.sizeLimit) {last : CFChannel}
    (mem : last ∈ PyCFClientAdapter.listed s iocid) :
    ∀ ch ∈ adapter.findByIocId (answersLast last) s iocid, ch.name ≠ last.name := by
  have names := PyCFClientAdapter.listed_nodup s iocid
  have others : ((PyCFClientAdapter.listed s iocid).filter fun ch => ch != last).length =
      (PyCFClientAdapter.listed s iocid).length - 1 := by
    rw [← (names.of_map CFChannel.name).erase_eq_filter, List.length_erase_of_mem mem]
  intro ch member same
  have page : ch ∈ (PyCFClientAdapter.listed s iocid).filter fun ch => ch != last := by
    unfold PyCFClientAdapter.findByIocId PyCFClientAdapter.find at member
    rw [if_pos positive] at member
    have front : adapter.sizeLimit.toNat ≤
        ((PyCFClientAdapter.listed s iocid).filter fun ch => ch != last).length := by omega
    apply List.mem_of_mem_take
    rw [← List.take_append_of_le_length front]
    exact member
  obtain ⟨inside, other⟩ := List.mem_filter.mp page
  have equal : ch = last := List.inj_on_of_nodup_map names inside mem same
  simp [equal] at other

theorem finishCommit_ok {env : Env} {t : Transaction} {p : Processor}
    {pushed : Except Error Bool × Store} (gone : t.connected = false)
    (done : (finishCommit env t p pushed).1 = .ok ()) : pushed.1 = .ok true := by
  rcases pushed with ⟨e | success, s⟩
  · cases done
  · cases success with
    | true => rfl
    | false => simp [finishCommit, gone] at done

section Commit

variable {cfg : CFConfig} {setup : Setup} {env : Env} {t : Transaction} {w : World}
  {adapter : PyCFClientAdapter}

/-- Without faults the disconnect of a registered IOC releases the page that it gets. -/
theorem adapter_disconnect_calm (usable : cfg.Usable) (sound : Sound w.proc) (close : t.IsClose)
    (known : (w.proc.iocs t.iocid).isSome) :
    adapter.queries.commitWithThread cfg setup env [] t w =
      (.ok (), ⟨afterDisconnect env t w.proc,
        setChannels w.store ((adapter.findByIocId env w.store t.iocid).map
          (releaseChannel cfg setup (afterDisconnect env t w.proc) (iocInfoOf cfg env t)))⟩) := by
  have after := @Sound.afterDisconnect env t w.proc sound
  exact commit_disconnect usable setup env sound.up close.toIsDisconnect
    (close.converts cfg env) known
    (fun n member => (sound.tracking.linked n _).mpr member) after.tracking.nonempty

/-- A page that holds everything is enough, whatever fails on the way. -/
theorem adapter_disconnect_whole (usable : cfg.Usable) (sound : Sound w.proc) (close : t.IsClose)
    (known : (w.proc.iocs t.iocid).isSome)
    (enough : (PyCFClientAdapter.listed w.store t.iocid).length ≤ adapter.sizeLimit)
    {faults : List Fault}
    (done : (adapter.queries.commitWithThread cfg setup env faults t w).1 = .ok ()) :
    Relinquished t.iocid w.store (adapter.queries.commitWithThread cfg setup env faults t w).2 := by
  have update := updateIocInfos_disconnect cfg env (iocInfoOf cfg env t) close.toIsDisconnect
    fun n member => (sound.tracking.linked n _).mpr member
  have noRecords := recordsOf_disconnect cfg setup env close.toIsDisconnect
  rw [← noRecords] at update
  have ran := @commit_of_update adapter.queries cfg setup env faults t w
    ((env.setOrder (w.proc.channels t.iocid).elems).map Key.name) (afterDisconnect env t w.proc)
    sound.up (close.converts cfg env) (Or.inr known) update
  rw [noRecords] at ran
  rw [ran] at done ⊢
  have success := finishCommit_ok close.gone done
  generalize attempts : adapter.queries.pushToCf cfg setup env (afterDisconnect env t w.proc) ∅
    ((env.setOrder (w.proc.channels t.iocid).elems).map Key.name) (iocInfoOf cfg env t) faults 0
    w.store = pushed at success done ⊢
  obtain ⟨result, s⟩ := pushed
  obtain rfl : result = .ok true := success
  have whole : ∀ now, PartlyReleased cfg setup (afterDisconnect env t w.proc) (iocInfoOf cfg env t)
      w.store now → adapter.queries.FindsListed env now (iocInfoOf cfg env t).id :=
    fun now partly =>
      @PartlyReleased.findsListed adapter cfg setup env _ (iocInfoOf cfg env t) _ now
      enough partly
  obtain ⟨-, -, released⟩ := PartlyReleased.push usable.limit whole (fun n => Or.inl rfl)
    (Or.inl rfl) attempts
  exact relinquished_of_released sound released

end Commit

/-- A disconnect relinquishes what its IOC had, in whatever order the service answers and
whichever requests fail, exactly when one page of the query holds all of it. -/
theorem disconnect_complete_iff {cfg : CFConfig} (usable : cfg.Usable) (setup : Setup)
    (nameMatches : String → String → Bool) {w : World} (sound : Sound w.proc) {t : Transaction}
    (close : t.IsClose) :
    (∀ env faults,
      ((cfg.adapter nameMatches).queries.commitWithThread cfg setup env faults t w).1 = .ok () →
        Relinquished t.iocid w.store
          ((cfg.adapter nameMatches).queries.commitWithThread cfg setup env faults t w).2) ↔
      (w.proc.iocs t.iocid).isSome ∧
          (PyCFClientAdapter.listed w.store t.iocid).length ≤ cfg.cfQueryLimit ∨
        ∀ ch ∈ PyCFClientAdapter.listed w.store t.iocid, ¬ ch.toCFEntry.Active := by
  constructor
  · intro complete
    by_contra neither
    obtain ⟨notWhole, some⟩ := not_or.mp neither
    obtain ⟨last, mem, active⟩ : ∃ ch ∈ PyCFClientAdapter.listed w.store t.iocid,
        ch.toCFEntry.Active := by
      simpa using some
    obtain ⟨stored, own⟩ := PyCFClientAdapter.mem_listed.mp mem
    by_cases known : (w.proc.iocs t.iocid).isSome
    · have short : cfg.cfQueryLimit < (PyCFClientAdapter.listed w.store t.iocid).length := by
        have notEnough := not_and.mp notWhole known
        omega
      have ran := @adapter_disconnect_calm cfg setup (answersLast last) t w
        (cfg.adapter nameMatches) usable sound close known
      refine not_relinquished ⟨_, stored, own, active⟩ ?_
        (complete (answersLast last) [] (by rw [ran]))
      rw [ran]
      apply get?_setChannels_of_not_mem
      intro ch member
      obtain ⟨cf, found, rfl⟩ := List.mem_map.mp member
      rw [releaseChannel_name]
      exact findByIocId_misses short usable.limit mem cf found
    · have unknown : w.proc.iocs t.iocid = none := by simpa using known
      have ran : (cfg.adapter nameMatches).queries.commitWithThread cfg setup {} [] t w =
          (.ok (), w) := by
        simp [ChannelFinderAdapter.commitWithThread, sound.up.running, close.converts cfg {},
          close.gone, unknown]
      exact not_relinquished ⟨_, stored, own, active⟩ (by rw [ran]) (complete {} [] (by rw [ran]))
  · rintro (⟨known, enough⟩ | nothing) env faults done
    · exact adapter_disconnect_whole usable sound close known enough done
    · intro n e stored own active
      exact absurd active
        (nothing { e with name := n } (PyCFClientAdapter.mem_listed.mpr ⟨stored, own⟩))

/-- The world after the upload of two records. -/
def uploaded (cfg : CFConfig) (setup : Setup) : World :=
  (cfg.adapter (· == ·)).queries.runCommits cfg setup {} [{ tornAnnounce with faults := [] }]

theorem uploaded_sound (cfg : CFConfig) (setup : Setup) : Sound (uploaded cfg setup).proc :=
  ((RegularRun.nil cfg setup {}).append (c := { tornAnnounce with faults := [] })
    (Or.inl ⟨rfl, Or.inl rfl⟩)).sound sound_empty

/-- The disconnect of the IOC that uploaded them. -/
def closed (cfg : CFConfig) (setup : Setup) (env : Env) (faults : List Fault) :
    Except Error Unit × World :=
  (cfg.adapter (· == ·)).queries.commitWithThread cfg setup env faults
    (goodbye "a" 5064) (uploaded cfg setup)

/-- Pages of two channels are enough for an IOC with two. -/
theorem disconnect_complete_iff_uploaded :
    (closed (pagesOf 2) {} {} []).1 = .ok () ∧
      Relinquished (goodbye "a" 5064).iocid (uploaded (pagesOf 2) {}).store
        (closed (pagesOf 2) {} {} []).2 := by
  have usable : (pagesOf 2).Usable := ⟨by decide, by decide⟩
  have returned : (closed (pagesOf 2) {} {} []).1 = .ok () := by decide
  have complete := (disconnect_complete_iff usable {} (· == ·)
    (uploaded_sound (pagesOf 2) {}) goodbye_isClose).mpr (Or.inl ⟨by decide, by decide⟩)
  exact ⟨returned, complete {} [] returned⟩

/-- With pages of one channel the second one of the IOC stays Active under it. -/
theorem disconnect_misses_second :
    ∃ setup registered, setupCfProperties (pagesOf 1) {} [] = .ok (setup, registered) ∧
      Sound (uploaded (pagesOf 1) setup).proc ∧ (closed (pagesOf 1) setup {} []).1 = .ok () ∧
      ¬ Relinquished (goodbye "a" 5064).iocid (uploaded (pagesOf 1) setup).store
        (closed (pagesOf 1) setup {} []).2 := by
  refine ⟨_, _, rfl, uploaded_sound _ _, by decide, ?_⟩
  exact not_relinquished (n := "pv2") (by decide) (by decide)

end Recsync.Cf
