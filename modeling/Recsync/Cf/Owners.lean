import Recsync.Cf.Commit
import Recsync.Cf.Records

set_option autoImplicit false

namespace Recsync.Cf

open Ownership (holder serve leave)

/-- Every IOC is registered under its own iocid. -/
def Keyed (p : Processor) : Prop := ∀ i info, p.iocs i = some info → info.id = i

namespace Keyed

theorem setIoc {p : Processor} (keyed : Keyed p) {i : String} {info : IOCInfo}
    (own : info.id = i) : Keyed (p.setIoc i (some info)) := by
  intro j entry found
  rw [Processor.iocs_setIoc] at found
  split at found
  · rename_i same
    rw [← Option.some.inj found, own, same]
  · exact keyed j entry found

theorem setIoc_none {p : Processor} (keyed : Keyed p) (i : String) : Keyed (p.setIoc i none) := by
  intro j entry found
  rw [Processor.iocs_setIoc] at found
  split at found
  · cases found
  · exact keyed j entry found

theorem trackAll {p : Processor} (keyed : Keyed p) (i : String) (names : List String) :
    Keyed (p.trackAll i names) := by
  refine Processor.trackAll_induction ?_ names keyed
  intro q info name known before j entry found
  rw [Processor.iocs_track] at found
  split at found
  · rename_i same
    rw [← Option.some.inj found, same]
    exact before i info known
  · exact before j entry found

theorem untrackAll {p : Processor} (keyed : Keyed p) (i : String) (names : List String) :
    Keyed (p.untrackAll i names) := by
  induction names generalizing p with
  | nil => exact keyed
  | cons name rest ih =>
    apply ih
    intro j entry found
    rw [Processor.iocs_untrack] at found
    split at found
    · rename_i same
      obtain ⟨info, known, counted⟩ := Option.bind_eq_some_iff.mp found
      unfold Processor.countDown at counted
      split at counted
      · cases counted
      · rw [← Option.some.inj counted, same]
        exact keyed i info known
    · exact keyed j entry found

end Keyed

namespace Processor

@[simp] theorem iocs_lookUpIds (p : Processor) (records : List Nat) :
    (p.lookUpIds records).iocs = p.iocs := by
  induction records generalizing p with
  | nil => rfl
  | cons r rest ih => exact ih _

@[simp] theorem channels_lookUpIds (p : Processor) (records : List Nat) (i : String) :
    (p.lookUpIds records).channels i = p.channels i := by
  induction records generalizing p with
  | nil => rfl
  | cons r rest ih => exact ih _

@[simp] theorem channelIocIds_lookUpIds (p : Processor) (records : List Nat) (n : String) :
    (p.lookUpIds records).channelIocIds (.name n) = p.channelIocIds (.name n) := by
  induction records generalizing p with
  | nil => rfl
  | cons r rest ih =>
    refine (ih _).trans ?_
    rw [channelIocIds_setIds, if_neg (by simp)]

@[simp] theorem owners_lookUpIds (p : Processor) (records : List Nat) :
    (p.lookUpIds records).owners = p.owners := by
  funext n
  simp [owners, ids]

theorem iocs_trackAll_isSome (p : Processor) (i j : String) (names : List String) :
    ((p.trackAll i names).iocs j).isSome = (p.iocs j).isSome := by
  refine trackAll_induction (motive := fun q => (q.iocs j).isSome = (p.iocs j).isSome) ?_ names rfl
  intro q info name known before
  rw [iocs_track]
  split
  · rename_i same
    rw [← before, same, known]
    rfl
  · exact before

theorem iocs_untrackAll_of_ne (p : Processor) {i j : String} (other : j ≠ i)
    (names : List String) : (p.untrackAll i names).iocs j = p.iocs j := by
  induction names generalizing p with
  | nil => rfl
  | cons name rest ih =>
    refine (ih _).trans ?_
    rw [iocs_untrack, if_neg other]

theorem owners_trackAll {p : Processor} {i : String} (known : (p.iocs i).isSome)
    (names : List String) : (p.trackAll i names).owners = serve p.owners i names := by
  funext n
  simp only [owners, serve, ids_trackAll known, List.mem_map, Key.name.injEq, exists_eq_right]

end Processor

theorem registerInitial_known {cfg : CFConfig} {env : Env} {t : Transaction} {p : Processor}
    (known : t.initial = true ∨ (p.iocs t.iocid).isSome) :
    ((registerInitial cfg env t p).iocs t.iocid).isSome := by
  unfold registerInitial
  split
  · simp
  · rename_i later
    exact known.resolve_left later

theorem registerInitial_isSome {cfg : CFConfig} {env : Env} {t : Transaction} {p : Processor}
    {j : String} (known : (p.iocs j).isSome) : ((registerInitial cfg env t p).iocs j).isSome := by
  unfold registerInitial
  split
  · rw [Processor.iocs_setIoc]
    split
    · rfl
    · exact known
  · exact known

@[simp] theorem registerInitial_owners (cfg : CFConfig) (env : Env) (t : Transaction)
    (p : Processor) : (registerInitial cfg env t p).owners = p.owners := by
  unfold registerInitial
  split <;> rfl

theorem Keyed.registerInitial {p : Processor} (keyed : Keyed p) (cfg : CFConfig) (env : Env)
    (t : Transaction) : Keyed (registerInitial cfg env t p) := by
  unfold Cf.registerInitial
  split
  · exact keyed.setIoc rfl
  · exact keyed

theorem Tracking.registerInitial {p : Processor} (tracking : Tracking p) (cfg : CFConfig)
    (env : Env) (t : Transaction) : Tracking (registerInitial cfg env t p) := by
  unfold Cf.registerInitial
  split
  · exact tracking.setIoc _ _
  · exact tracking

/-- Removing all the channels of an IOC makes it leave every name. -/
theorem untrackAll_owners {p : Processor} (tracking : Tracking p) (env : Env) (i : String) :
    (p.untrackAll i (env.setOrder (p.channels i).elems)).owners = leave p.owners i := by
  funext n
  simp only [Processor.owners, leave]
  rw [Processor.ids_untrackAll p i (setOrder_nodup env _)]
  split
  · rfl
  · rename_i absent
    have outside : i ∉ p.ids (.name n) := by
      intro member
      apply absent
      exact List.mem_map.mpr ⟨n, (mem_setOrder env).mpr ((tracking.linked n _).mp member), rfl⟩
    rw [List.erase_of_not_mem outside]

section After

variable {cfg : CFConfig} {setup : Setup} {env : Env} {t : Transaction} {p : Processor}

theorem Keyed.afterConnected (keyed : Keyed p) : Keyed (afterConnected cfg setup env t p) := by
  have tracked := (keyed.registerInitial cfg env t).trackAll t.iocid
    (touched cfg (recordsOf cfg setup env t))
  simpa [Keyed, Cf.afterConnected] using tracked

theorem Tracking.afterConnected (tracking : Tracking p) :
    Tracking (afterConnected cfg setup env t p) :=
  ((tracking.registerInitial cfg env t).trackAll _ _).lookUpIds _

theorem afterConnected_isSome {j : String} (known : (p.iocs j).isSome) :
    ((afterConnected cfg setup env t p).iocs j).isSome := by
  rw [afterConnected, Processor.iocs_lookUpIds, Processor.iocs_trackAll_isSome]
  exact registerInitial_isSome known

theorem afterConnected_known (known : t.initial = true ∨ (p.iocs t.iocid).isSome) :
    ((afterConnected cfg setup env t p).iocs t.iocid).isSome := by
  rw [afterConnected, Processor.iocs_lookUpIds, Processor.iocs_trackAll_isSome]
  exact registerInitial_known known

/-- A connected transaction makes its IOC serve the touched names. -/
theorem afterConnected_owners (known : t.initial = true ∨ (p.iocs t.iocid).isSome) :
    (afterConnected cfg setup env t p).owners =
      serve p.owners t.iocid (touched cfg (recordsOf cfg setup env t)) := by
  rw [afterConnected, Processor.owners_lookUpIds,
    Processor.owners_trackAll (registerInitial_known known), registerInitial_owners]

theorem Keyed.afterDisconnect (keyed : Keyed p) : Keyed (afterDisconnect env t p) :=
  keyed.untrackAll _ _

theorem Tracking.afterDisconnect (tracking : Tracking p) : Tracking (afterDisconnect env t p) :=
  tracking.untrackAll _ _

theorem afterDisconnect_iocs_of_ne {j : String} (other : j ≠ t.iocid) :
    (afterDisconnect env t p).iocs j = p.iocs j :=
  Processor.iocs_untrackAll_of_ne p other _

/-- A disconnect makes its IOC leave every name. -/
theorem afterDisconnect_owners (tracking : Tracking p) :
    (afterDisconnect env t p).owners = leave p.owners t.iocid :=
  untrackAll_owners tracking env t.iocid

end After

end Recsync.Cf
