import Recsync.Cf.Marks
import Recsync.System.Directory

set_option autoImplicit false

/- The recceiver goes down at any moment, and comes up again after a sweep. -/
namespace Recsync.System

open Cf Recast

/-- What the lives of the recceiver have left in ChannelFinder, and the addresses that were in use.
A life ends at any moment of a run; then a sweep, at the stop or at the next start, comes to its
end. -/
inductive Lives (nameMatches : String → String → Bool) (limits : SessionConfig) (cfg : CFConfig)
    (setup : Setup) : (String → Prop) → Store → Prop where
  | none {used : String → Prop} {s : Store}
      (inactive : ∀ n e, s.get? n = some e → ¬ e.Active)
      (listed : ∀ n e, s.get? n = some e → ∀ v, e.has .iocId v → used v) :
      Lives nameMatches limits cfg setup used s
  | one {used : String → Prop} {s : Store} (before : Lives nameMatches limits cfg setup used s)
      {sites : Nat → Site} (addresses : Function.Injective fun i => (sites i).iocid)
      (named : ∀ i, iocNameConverts
        (uploadIoc cfg (sites i).upload (sites i).host (sites i).port "").iocName = true)
      (fresh : ∀ i, ¬ used (sites i).iocid)
      (few : ∀ i, (sites i).names.length ≤ cfg.cfQueryLimit) (events : List FleetEvent)
      {p : Processor} {requests : List SweepEvent} {after : World × Task}
      (sweep : cleanThread (cfg.queries nameMatches) cfg setup requests
        ⟨p, ((Fleet.start sites ⟨{}, s⟩).run (cfg.queries nameMatches) limits cfg setup sites
          events).server.world.store⟩ = after)
      (through : after.2.Through) :
      Lives nameMatches limits cfg setup (fun v => used v ∨ ∃ i, v = (sites i).iocid) after.1.store

namespace Lives

variable {nameMatches : String → String → Bool} {limits : SessionConfig} {cfg : CFConfig}
  {setup : Setup} {used : String → Prop} {s : Store}

/-- Nothing is Active between two lives, and what is listed has an address that was in use. -/
theorem between (usable : cfg.Usable) (apart : setup.Apart)
    (lives : Lives nameMatches limits cfg setup used s) :
    (∀ n e, s.get? n = some e → ¬ e.Active) ∧
      ∀ n e, s.get? n = some e → ∀ v, e.has .iocId v → used v := by
  induction lives with
  | none inactive listed => exact ⟨inactive, listed⟩
  | @one used s before sites addresses named fresh few events p requests after sweep through ih =>
    obtain ⟨inactive, listed⟩ := ih
    have foreign (n : String) (e : CFEntry) (stored : s.get? n = some e) (i : Nat) :
        ¬ e.has .iocId (sites i).iocid := fun has => fresh i (listed n e stored _ has)
    obtain ⟨done, committed⟩ :=
      @Fleet.run_committed limits cfg setup sites s nameMatches addresses named inactive foreign few
        events
    have start : LeftBehind cfg (fun v => used v ∨ ∃ i, v = (sites i).iocid) s :=
      ⟨fun n e stored active => absurd active (inactive n e stored),
        fun n e stored v has => Or.inl (listed n e stored v has)⟩
    have left := leftBehind_run usable apart committed.session committed.calm committed.converts
      committed.start committed.whole start ?_
    · rw [← committed.world] at left
      subst sweep
      have drained := cleanThread_drained through
      exact ⟨left.inactive drained, left.addresses drained⟩
    · intro c member
      obtain ⟨i, address⟩ := committed.kept.commit_address committed.transactions member
      exact Or.inr ⟨i, address⟩

end Lives

/-- A recceiver that goes down at any moment and is swept, any number of times, with no client that
has more names than a page has room for: the next life finds nothing Active, and lists the names of
its own clients. -/
theorem restarted_lists {nameMatches : String → String → Bool} {limits : SessionConfig}
    {cfg : CFConfig} (usable : cfg.Usable)
    (apart : cfg.NamesApart) {startEnv : Env} {cfProperties : List String} {setup : Setup}
    {registered : List String}
    (started : setupCfProperties cfg startEnv cfProperties = .ok (setup, registered))
    {used : String → Prop} {s : Store} (lives : Lives nameMatches limits cfg setup used s)
    {sites : Nat → Site} (addresses : Function.Injective fun i => (sites i).iocid)
    (named : ∀ i, iocNameConverts
      (uploadIoc cfg (sites i).upload (sites i).host (sites i).port "").iocName = true)
    (fresh : ∀ i, ¬ used (sites i).iocid) (few : ∀ i, (sites i).names.length ≤ cfg.cfQueryLimit)
    (events : List FleetEvent) :
    (∀ n e, s.get? n = some e → ¬ e.Active) ∧
      Directory cfg sites
        ((Fleet.start sites ⟨{}, s⟩).run (cfg.queries nameMatches) limits cfg setup sites
          events) := by
  have separate := setupCfProperties_apart apart started
  obtain ⟨inactive, listed⟩ := lives.between usable separate
  have foreign (n : String) (e : CFEntry) (stored : s.get? n = some e) (i : Nat) :
      ¬ e.has .iocId (sites i).iocid := fun has => fresh i (listed n e stored _ has)
  obtain ⟨done, committed⟩ :=
    @Fleet.run_committed limits cfg setup sites s nameMatches addresses named inactive foreign few
      events
  exact ⟨inactive, committed.directory usable separate addresses⟩

/-- The same clients, with other ports. -/
def backSite (i : Nat) : Site := { pumpSite i with port := 40002, small := by decide }

theorem backSite_fresh (i j : Nat) : (backSite i).iocid ≠ (pumpSite j).iocid := by
  intro same
  have ends := congrArg (fun v => v.toList.getLast?) same
  have back : (':' :: Nat.toDigits 10 40002).getLast? = some '2' := by decide
  have pump : (':' :: Nat.toDigits 10 40001).getLast? = some '1' := by decide
  simp [Site.iocid, iocidOf, backSite, pumpSite, back, pump] at ends

theorem backSite_addresses : Function.Injective fun i => (backSite i).iocid := by
  intro i j same
  have lengths := congrArg String.length same
  simpa [Site.iocid, iocidOf, backSite, pumpSite] using lengths

theorem backSite_named (i : Nat) : iocNameConverts (uploadIoc (pagesOf 10000)
    (backSite i).upload (backSite i).host (backSite i).port "").iocName = true := by
  show iocNameConverts (orElse (pumpDatabase.upload.clientInfos.get? "IOCNAME")
    (toString 40002)) = true
  decide +kernel

/-- A sweep whose first update fails, with the service stopped. -/
def bumpySweep : List SweepEvent :=
  [.request (.answers {}), .stops, .request (.raises (fun _ => []) List.nil_subset (fun _ => [])
    List.nil_subset), .request (.answers {}), .request (.answers {}), .request (.answers {})]

/-- A client uploads its database, the server goes down and the sweep meets a failure. -/
theorem lives_lostUpload :
    ∃ setup registered, setupCfProperties (pagesOf 10000) {} [] = .ok (setup, registered) ∧
      ∃ used s, Lives (· == ·) {} (pagesOf 10000) setup used s ∧
        ∀ i, ¬ used (backSite i).iocid := by
  refine ⟨_, _, rfl, _, _, @Lives.one (· == ·) {} (pagesOf 10000) _ (fun _ => False) {}
    (.none (by simp) (by simp)) pumpSite pumpSite_addresses pumpSite_named (fun _ => id)
    pumpSite_few lostUpload {} bumpySweep _ rfl (by decide +kernel), ?_⟩
  rintro i (none | ⟨j, same⟩)
  · exact none
  · exact backSite_fresh i j same

theorem restarted_lists_back :
    ∃ setup s, (∀ n e, s.get? n = some e → ¬ e.Active) ∧
      Directory (pagesOf 10000) backSite
        ((Fleet.start backSite ⟨{}, s⟩).run ((pagesOf 10000).queries (· == ·)) {} (pagesOf 10000)
          setup backSite lostUpload) := by
  obtain ⟨setup, registered, started, used, s, lives, fresh⟩ := lives_lostUpload
  exact ⟨setup, s,
    restarted_lists ⟨by decide, by decide⟩ (namesApart_of_plain rfl rfl) started lives
    backSite_addresses backSite_named fresh pumpSite_few lostUpload⟩

end Recsync.System
