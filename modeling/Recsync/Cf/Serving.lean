import Recsync.Lib.Visits
import Recsync.Cf.Agreement

set_option autoImplicit false

/- ChannelFinder and the processor show who serves which names, and since when. -/
namespace Recsync.Cf

open Ownership (Visit holder leave serve visits)
open Runs (EveryStep)

section Run

variable (cfg : CFConfig) (setup : Setup)

/-- What a commit says: its IOC serves the records and aliases of the transaction, or is gone. -/
def Commit.visit (c : Commit) : Visit String String :=
  if c.transaction.connected then
    .serves c.iocid (touched cfg (recordsOf cfg setup c.env c.transaction))
  else .leaves c.iocid

variable {client : ChannelFinderAdapter} {cfg setup} {run done : List Commit} {w : World}
    {c : Commit}

/-- In a run of sessions nobody comes back. -/
theorem SessionRun.once (session : SessionRun run) :
    Ownership.Once (run.map (Commit.visit cfg setup)) := by
  intro before v rest split i names serves gone
  obtain ⟨done, later, rfl, rfl, other⟩ := List.map_eq_append_iff.mp split
  obtain ⟨c, others, rfl, rfl, -⟩ := List.map_eq_cons_iff.mp other
  obtain ⟨d, member, left⟩ := List.mem_map.mp gone
  unfold Commit.visit at serves left
  split at serves
  · split at left
    · cases left
    · next closed =>
      obtain ⟨rfl, -⟩ := Visit.serves.inj serves
      have same := Visit.leaves.inj left
      have sentBefore : d.transaction ∈ sent done c.iocid :=
        List.mem_map_of_mem (List.mem_filter.mpr ⟨member, by simpa using same⟩)
      exact closed ((session done c others rfl).stillOpen _ sentBefore)
  · cases serves

/-- A commit does to the memory of the processor what it says. -/
theorem Agreement.visited (inv : Agreement run done w) (usable : cfg.Usable) (apart : setup.Apart)
    (whole : client.FindsListed c.env w.store c.iocid) (member : c ∈ run)
      (continues : Continues (sent done c.iocid) c.transaction)
    (calm : c.faults = [])
    (converts : iocNameConverts (iocInfoOf cfg c.env c.transaction).iocName = true) :
    (client.commitStep cfg setup w c).proc.owners =
      Ownership.visit w.proc.owners (c.visit cfg setup) := by
  obtain ⟨tracking, -, -⟩ := (consistent_iff w.proc).mp inv.consistent
  rcases continues.kind with ⟨connected, first⟩ | disconnect
  · have known : c.transaction.initial = true ∨ (w.proc.iocs c.transaction.iocid).isSome :=
      (inv.first_or_registered continues first).imp And.left And.right
    obtain ⟨s, step, -⟩ :=
      inv.commitStep_connected usable apart member continues calm converts connected known
    rw [step, Commit.visit, if_pos connected]
    exact afterConnected_owners known
  · rw [Commit.visit, if_neg (by simp [disconnect.gone])]
    cases known : w.proc.iocs c.transaction.iocid with
    | some info =>
      obtain ⟨s, ran, -⟩ := commit_disconnect_spec usable inv.up converts inv.consistent inv.keyed
        disconnect (by simp [known]) whole
      rw [ChannelFinderAdapter.commitStep, calm, ran]
      exact afterDisconnect_owners tracking
    | none =>
      rw [ChannelFinderAdapter.commitStep, calm,
        Agreement.commit_disconnect_unknown disconnect inv.up converts known]
      -- an IOC that is not registered serves nothing
      funext n
      refine (List.erase_of_not_mem ?_).symm
      intro serving
      have registered := inv.consistent.serving_registered serving
      rw [show c.iocid = c.transaction.iocid from rfl, known] at registered
      cases registered

theorem Agreement.next (inv : Agreement run done w) (usable : cfg.Usable) (apart : setup.Apart)
    (whole : client.FindsListed c.env w.store c.iocid) (member : c ∈ run)
      (continues : Continues (sent done c.iocid) c.transaction)
    (calm : c.faults = [])
    (converts : iocNameConverts (iocInfoOf cfg c.env c.transaction).iocName = true) :
    Agreement run (done ++ [c]) (client.commitStep cfg setup w c) := by
  rcases continues.kind with ⟨connected, first⟩ | disconnect
  · exact inv.connected usable apart member continues calm converts connected first
  · exact inv.disconnected usable calm converts disconnect whole

/-- The names and who serves them, after a part of a run of sessions. -/
theorem owners_run (usable : cfg.Usable) (apart : setup.Apart) (session : SessionRun run)
    (calm : ∀ c ∈ run, c.faults = [])
    (converts : ∀ c ∈ run, iocNameConverts (iocInfoOf cfg c.env c.transaction).iocName = true)
    {s : Store} (start : Agreement run [] ⟨{}, s⟩) (whole : client.Covers run)
    (reached : done <+: run) :
    Agreement run done (client.runCommits cfg setup ⟨{}, s⟩ done) ∧
      (client.runCommits cfg setup ⟨{}, s⟩ done).proc.owners =
        visits (done.map (Commit.visit cfg setup)) := by
  refine (EveryStep.maintains (I := fun done => done ⊆ run ∧
    Agreement run done (client.runCommits cfg setup ⟨{}, s⟩ done) ∧
    (client.runCommits cfg setup ⟨{}, s⟩ done).proc.owners =
      visits (done.map (Commit.visit cfg setup))) session ⟨List.nil_subset run, start, rfl⟩ ?_
    reached).2
  intro before c member ⟨inside, inv, owners⟩ continues
  have found := whole before _ inv inside c member
  rw [runCommits_append, List.map_append, List.map_singleton, Ownership.visits_concat, ← owners]
  exact ⟨List.append_subset.mpr ⟨inside, by simpa using member⟩,
    inv.next usable apart found member continues (calm c member) (converts c member),
    inv.visited usable apart found member continues (calm c member) (converts c member)⟩

/-- ChannelFinder has a name Active exactly when somebody serves it, and listed under whoever
came last of those who serve it. -/
theorem Agreement.shows (inv : Agreement run done w) {o : Ownership.Owners String String}
    (owners : w.proc.owners = o) (n : String) :
    ((∃ e, w.store.get? n = some e ∧ e.Active) ↔ ∃ i, i ∈ o n) ∧
      ∀ e, w.store.get? n = some e → e.Active → ∃ j, holder o n = some j ∧ Live j e := by
  subst owners
  have live (e : CFEntry) (stored : w.store.get? n = some e) (active : e.Active) :
      ∃ j, holder w.proc.owners n = some j ∧ Live j e := by
    cases holds : holder w.proc.owners n with
    | none => exact absurd active (inv.idle n holds e stored)
    | some j =>
      obtain ⟨e', stored', live⟩ := inv.served n j holds
      obtain rfl := Option.some.inj (stored.symm.trans stored')
      exact ⟨j, rfl, live⟩
  refine ⟨⟨?_, ?_⟩, live⟩
  · rintro ⟨e, stored, active⟩
    obtain ⟨j, holds, -⟩ := live e stored active
    exact ⟨j, Ownership.holder_mem holds⟩
  · rintro ⟨i, serving⟩
    cases holds : holder w.proc.owners n with
    | none =>
      rw [(Ownership.holder_eq_none_iff _ n).mp holds] at serving
      cases serving
    | some j =>
      obtain ⟨e, stored, live⟩ := inv.served n j holds
      exact ⟨e, stored, live.active⟩

end Run

end Recsync.Cf
