import Recsync.Cf.Owners

set_option autoImplicit false

namespace Recsync.Cf

open Py (Program)

/-- All that a commit can do to the maps: nothing, the bookkeeping as far as it got, or the
bookkeeping and an eviction. -/
theorem commit_proc_cases {client : ChannelFinderAdapter} (cfg : CFConfig) (setup : Setup)
    (env : Env) (faults : List Fault) (t : Transaction) (w : World) :
    (client.commitWithThread cfg setup env faults t w).2.proc = w.proc ∨
    (client.commitWithThread cfg setup env faults t w).2.proc =
      (updateIocInfos cfg env t (iocInfoOf cfg env t) (recordsOf cfg setup env t)).after w.proc ∨
    t.connected = true ∧ (client.commitWithThread cfg setup env faults t w).2.proc =
      (evictIoc env t.iocid).after
        ((updateIocInfos cfg env t (iocInfoOf cfg env t) (recordsOf cfg setup env t)).after
          w.proc) := by
  unfold ChannelFinderAdapter.commitWithThread
  dsimp only
  split
  · exact Or.inl rfl
  split
  · exact Or.inl rfl
  split
  · exact Or.inl rfl
  unfold Program.after
  cases updateIocInfos cfg env t (iocInfoOf cfg env t) (recordsOf cfg setup env t) w.proc with
  | error e p => exact Or.inr (Or.inl rfl)
  | ok del p =>
    dsimp only
    rcases client.pushToCf cfg setup env p (recordsOf cfg setup env t) del (iocInfoOf cfg env t)
      faults 0 w.store with ⟨e | done, s⟩
    · exact Or.inr (Or.inl rfl)
    · cases done with
      | true => exact Or.inr (Or.inl rfl)
      | false =>
        simp only [finishCommit]
        by_cases connected : t.connected = true
        · refine Or.inr (Or.inr ⟨connected, ?_⟩)
          rw [if_pos connected]
          cases evictIoc env t.iocid p <;> rfl
        · rw [if_neg connected]
          exact Or.inr (Or.inl rfl)

/-- What the bookkeeping and the eviction keep, a commit keeps. -/
theorem commit_maintains {client : ChannelFinderAdapter} {I : Processor → Prop} {cfg : CFConfig}
    {setup : Setup} {c : Commit}
    (update : Program.Maintains I (updateIocInfos cfg c.env c.transaction
      (iocInfoOf cfg c.env c.transaction) (recordsOf cfg setup c.env c.transaction)))
    (evict : c.transaction.connected = true →
      Program.Maintains I (evictIoc c.env c.transaction.iocid))
    {w : World} (start : I w.proc) : I (client.commitStep cfg setup w c).proc := by
  rcases commit_proc_cases cfg setup c.env c.faults c.transaction w with
    same | updated | ⟨connected, evicted⟩
  · rw [ChannelFinderAdapter.commitStep, same]
    exact start
  · rw [ChannelFinderAdapter.commitStep, updated]
    exact update w.proc start
  · rw [ChannelFinderAdapter.commitStep, evicted]
    exact evict connected _ (update w.proc start)

theorem run_maintains {client : ChannelFinderAdapter} {I : Processor → Prop} {cfg : CFConfig}
    {setup : Setup} {run : List Commit}
    (step : ∀ c ∈ run, ∀ w : World, I w.proc → I (client.commitStep cfg setup w c).proc)
    {w : World} (start : I w.proc) : I (client.runCommits cfg setup w run).proc := by
  induction run generalizing w with
  | nil => exact start
  | cons c rest ih =>
    exact ih (fun d member => step d (by simp [member])) (step c (by simp) w start)

section Elementary

variable {I : Processor → Prop}

/-- What the elementary steps of the bookkeeping of one IOC keep. -/
structure KeptBySteps (I : Processor → Prop) (iocid : String) : Prop where
  register : ∀ n, Program.Maintains I (registerChannel iocid n)
  remove : ∀ k, Program.Maintains I (removeChannel k iocid)
  lookUp : ∀ p k, I p → I (p.setIds k (some (p.ids k)))

theorem KeptBySteps.registerRecords {iocid : String} (kept : KeptBySteps I iocid) (cfg : CFConfig)
    (records : Py.Dict String RecordInfo) :
    Program.Maintains I (registerRecords cfg iocid records) := by
  refine Program.Maintains.forM fun e _ => (kept.register e.1).bind fun _ => ?_
  split
  · exact Program.Maintains.forM fun a _ => kept.register a
  · exact Program.Maintains.pure _

theorem KeptBySteps.deleteRecord {iocid : String} (kept : KeptBySteps I iocid) (cfg : CFConfig)
    (records : Py.Dict String RecordInfo) (k : Key) :
    Program.Maintains I (deleteRecord cfg iocid records k) := by
  refine Program.Maintains.bind (fun p start => kept.lookUp p k start) fun _ =>
    Program.Maintains.bind (fun p start => start) fun q => ?_
  split
  · refine (kept.remove k).bind fun _ => ?_
    split
    · cases k with
      | name n => exact Program.Maintains.forM fun a _ => kept.remove (.name a)
      | id r => exact Program.Maintains.pure _
    · exact Program.Maintains.pure _
  · exact Program.Maintains.pure _

/-- What the elementary steps and the registration of the IOC keep, `update_ioc_infos` keeps. -/
theorem KeptBySteps.updateIocInfos {t : Transaction} (kept : KeptBySteps I t.iocid)
    (cfg : CFConfig) (env : Env)
    (initial : t.initial = true → ∀ p, I p → I (p.setIoc t.iocid (some (iocInfoOf cfg env t))))
    (records : Py.Dict String RecordInfo) :
    Program.Maintains I (updateIocInfos cfg env t (iocInfoOf cfg env t) records) := by
  have first : Program.Maintains I
      (if t.initial = true then modify fun p => p.setIoc (iocInfoOf cfg env t).id
        (some (iocInfoOf cfg env t)) else pure ⟨⟩) := by
    split
    · rename_i isFirst
      exact initial isFirst
    · exact Program.Maintains.pure _
  have rest : ∀ p : Processor, Program.Maintains I (do
      Cf.registerRecords cfg (iocInfoOf cfg env t).id records
      (keysToDelete env t (iocInfoOf cfg env t).id p).forM
        (Cf.deleteRecord cfg (iocInfoOf cfg env t).id records)
      return keysToDelete env t (iocInfoOf cfg env t).id p) := fun p =>
    (kept.registerRecords cfg records).bind fun _ =>
      (Program.Maintains.forM fun k _ => kept.deleteRecord cfg records k).bind fun _ =>
        Program.Maintains.pure _
  have whole := first.bind fun _ =>
    (show Program.Maintains I (get : Program Processor Processor) from
      fun p start => start).bind rest
  unfold Cf.updateIocInfos
  by_cases isFirst : t.initial = true
  · simpa only [isFirst, if_true] using whole
  · simpa only [isFirst, Bool.false_eq_true, if_false, pure_bind] using whole

theorem KeptBySteps.evictIoc {iocid : String} (kept : KeptBySteps I iocid) (env : Env)
    (forget : ∀ p, I p → I ((p.setIoc iocid none).setChannels iocid none)) :
    Program.Maintains I (evictIoc env iocid) :=
  Program.Maintains.bind (fun _ start => start) fun _ =>
    (Program.Maintains.forM fun n _ => kept.remove (.name n)).bind fun _ => forget

end Elementary

section Unknown

variable (i : String)

/-- The IOC is not a key of `iocs`. -/
def Unknown (p : Processor) : Prop := p.iocs i = none

variable {i}

@[simp] theorem unknown_setChannels (p : Processor) (j : String) (names : Option (Py.Set String)) :
    Unknown i (p.setChannels j names) ↔ Unknown i p := Iff.rfl

@[simp] theorem unknown_setIds (p : Processor) (k : Key) (l : Option (List String)) :
    Unknown i (p.setIds k l) ↔ Unknown i p := Iff.rfl

theorem Unknown.setIoc {p : Processor} (unknown : Unknown i p) {j : String} {info : IOCInfo}
    (known : p.iocs j = some info) (entry : Option IOCInfo) : Unknown i (p.setIoc j entry) := by
  have other : i ≠ j := by
    rintro rfl
    rw [Unknown, known] at unknown
    cases unknown
  rw [Unknown, Processor.iocs_setIoc, if_neg other]
  exact unknown

theorem registerChannel_unknown (j n : String) :
    Program.Maintains (Unknown i) (registerChannel j n) := by
  intro p unknown
  unfold registerChannel Program.after
  by_cases tracked : j ∈ p.ids (.name n)
  · simp only [tracked, if_true]
    exact unknown
  · cases known : p.iocs j with
    | none => simpa [tracked, known] using unknown
    | some info =>
      have next := unknown.setIoc known
        (some { info with channelcount := info.channelcount + 1 })
      simp only [tracked, known, if_false, Processor.iocs_setIds]
      exact next

theorem removeChannel_unknown (k : Key) (j : String) :
    Program.Maintains (Unknown i) (removeChannel k j) := by
  intro p unknown
  unfold removeChannel Program.after
  by_cases tracked : j ∉ p.ids k
  · simpa [tracked] using unknown
  · simp only [tracked, if_false, Processor.iocs_setChannels, Processor.iocs_setIds]
    cases known : p.iocs j with
    | none => exact unknown
    | some info =>
      have next := unknown.setIoc known
        (if info.channelcount - 1 ≤ 0 then none
          else some { info with channelcount := info.channelcount - 1 })
      simp only
      split <;> exact next

theorem unknown_kept (j : String) : KeptBySteps (Unknown i) j :=
  ⟨registerChannel_unknown j, fun k => removeChannel_unknown k j, fun _ _ unknown => unknown⟩

theorem updateIocInfos_unknown (cfg : CFConfig) (env : Env) {t : Transaction}
    (later : t.iocid = i → t.initial = false) (records : Py.Dict String RecordInfo) :
    Program.Maintains (Unknown i) (updateIocInfos cfg env t (iocInfoOf cfg env t) records) := by
  refine (unknown_kept t.iocid).updateIocInfos cfg env ?_ records
  intro first p unknown
  have other : i ≠ t.iocid := by
    intro same
    rw [later same.symm] at first
    cases first
  rw [Unknown, Processor.iocs_setIoc, if_neg other]
  exact unknown

theorem evictIoc_unknown (env : Env) (j : String) :
    Program.Maintains (Unknown i) (evictIoc env j) := by
  refine (unknown_kept j).evictIoc env ?_
  intro q unknown
  rw [Unknown, Processor.iocs_setChannels, Processor.iocs_setIoc]
  split
  · rfl
  · exact unknown

/-- An eviction that comes to its end leaves its IOC unknown. -/
theorem evictIoc_forgets {env : Env} {p q : Processor} (ran : evictIoc env i p = .ok ⟨⟩ q) :
    Unknown i q := by
  rw [evictIoc, Program.get_bind] at ran
  obtain ⟨_, removed, -, last⟩ := Program.of_bind_ok ran
  obtain rfl := (EStateM.Result.ok.inj last).2
  simp [Unknown]

theorem commitStep_unknown {client : ChannelFinderAdapter} {cfg : CFConfig} {setup : Setup}
    {c : Commit} (later : c.iocid = i → c.transaction.initial = false) {w : World}
    (unknown : Unknown i w.proc) : Unknown i (client.commitStep cfg setup w c).proc :=
  commit_maintains (updateIocInfos_unknown cfg c.env later _)
    (fun _ => evictIoc_unknown c.env _) unknown

end Unknown

/-- The connected commit is given up and its eviction comes to its end. -/
def givenUp (client : ChannelFinderAdapter) (cfg : CFConfig) (setup : Setup) (c : Commit)
    (w : World) : Bool :=
  let t := c.transaction
  let ioc := iocInfoOf cfg c.env t
  let records := recordsOf cfg setup c.env t
  t.connected && w.proc.running && iocNameConverts ioc.iocName &&
    match updateIocInfos cfg c.env t ioc records w.proc with
    | .error _ _ => false
    | .ok del p =>
      (client.pushToCf cfg setup c.env p records del ioc c.faults 0 w.store).1 matches .ok false &&
        (evictIoc c.env t.iocid p matches .ok _ _)

theorem givenUp_unknown {client : ChannelFinderAdapter} {cfg : CFConfig} {setup : Setup}
    {c : Commit} {w : World}
    (given : givenUp client cfg setup c w = true) :
      Unknown c.iocid (client.commitStep cfg setup w c).proc := by
  simp only [givenUp, Bool.and_eq_true] at given
  obtain ⟨⟨⟨connected, running⟩, converts⟩, ended⟩ := given
  unfold ChannelFinderAdapter.commitStep ChannelFinderAdapter.commitWithThread
  simp only [connected, running, converts, not_true_eq_false, if_false, Bool.true_eq_false,
    false_and]
  cases updated : updateIocInfos cfg c.env c.transaction (iocInfoOf cfg c.env c.transaction)
      (recordsOf cfg setup c.env c.transaction) w.proc with
  | error e p => simp [updated] at ended
  | ok del p =>
    simp only [updated] at ended ⊢
    rcases pushed : client.pushToCf cfg setup c.env p (recordsOf cfg setup c.env c.transaction) del
        (iocInfoOf cfg c.env c.transaction) c.faults 0 w.store with ⟨e | done, s⟩
    · simp [pushed] at ended
    · cases done with
      | true => simp [pushed] at ended
      | false =>
        simp only [pushed, Bool.true_and] at ended
        cases evicted : evictIoc c.env c.transaction.iocid p with
        | error e q => simp [evicted] at ended
        | ok _ q =>
          simp only [finishCommit, connected, if_true, evicted]
          exact evictIoc_forgets evicted

/-- The IOC is back after the commit: it returned, the IOC is registered, and every record
of the commit is tracked in both maps and Active. -/
structure Recovered (client : ChannelFinderAdapter) (cfg : CFConfig) (setup : Setup) (c : Commit)
    (w : World) : Prop where
  returns : (client.commitWithThread cfg setup c.env c.faults c.transaction w).1 = .ok ()
  registered : ((client.commitStep cfg setup w c).proc.iocs c.iocid).isSome
  tracked : ∀ n ∈ (recordsOf cfg setup c.env c.transaction).keys,
    c.iocid ∈ (client.commitStep cfg setup w c).proc.ids (.name n) ∧
      n ∈ (client.commitStep cfg setup w c).proc.channels c.iocid
  active : ∀ n ∈ (recordsOf cfg setup c.env c.transaction).keys,
    ∃ e, (client.commitStep cfg setup w c).store.get? n = some e ∧ e.Active

/-- No later transaction of an evicted connection brings its IOC back: the session marks
only its first transaction as initial, and nothing else registers an IOC. -/
theorem evicted_never_recovers {client : ChannelFinderAdapter} {cfg : CFConfig} {setup : Setup}
    {w : World} {evicted : Commit}
    (given : givenUp client cfg setup evicted w = true) {between : List Commit}
    (later : ∀ c ∈ between, c.iocid = evicted.iocid → c.transaction.initial = false)
    {c : Commit} (same : c.iocid = evicted.iocid) (notInitial : c.transaction.initial = false) :
    ¬ Recovered client cfg setup c
      (client.runCommits cfg setup (client.commitStep cfg setup w evicted) between) := by
  intro recovered
  have before : Unknown evicted.iocid
      (client.runCommits cfg setup (client.commitStep cfg setup w evicted) between).proc :=
    run_maintains (fun d member _ unknown => commitStep_unknown (later d member) unknown)
      (givenUp_unknown given)
  have after : Unknown evicted.iocid (client.commitStep cfg setup (client.runCommits cfg setup
      (client.commitStep cfg setup w evicted) between) c).proc :=
    commitStep_unknown (fun _ => notInitial) before
  have known := recovered.registered
  rw [same, after] at known
  cases known

/-- A first commit that meets a fault, where one attempt is all a push gets. -/
def lostAnnounce : Commit := ⟨{}, [.findByIocId], announce "a" 5064 "pv"⟩

/-- A record that the same connection adds afterwards. -/
def secondRecord : Commit :=
  ⟨{}, [], { host := "a", port := 5064, recordsToAdd :=
    (∅ : Py.Dict Nat (String × String)).set 2 ("pv2", "ai") }⟩

theorem evicted_never_recovers_secondRecord :
    givenUp documented { recceiverId := "r", pushMaxRetries := 1 } {} lostAnnounce {} = true ∧
      ¬ Recovered documented { recceiverId := "r", pushMaxRetries := 1 } {} secondRecord
        (documented.runCommits { recceiverId := "r", pushMaxRetries := 1 } {}
          (documented.commitStep { recceiverId := "r", pushMaxRetries := 1 } {} {} lostAnnounce)
            []) :=
  ⟨by decide, evicted_never_recovers (by decide) (by simp) rfl rfl⟩

/-- The next commit of the evicted IOC raises `KeyError`. -/
theorem recovery_fails_secondRecord :
    givenUp documented { recceiverId := "r", pushMaxRetries := 1 } {} lostAnnounce {} = true ∧
      secondRecord.transaction.connected = true ∧
      (recordsOf { recceiverId := "r", pushMaxRetries := 1 } {} {} secondRecord.transaction).keys =
        ["pv2"] ∧
      (documented.commitWithThread { recceiverId := "r", pushMaxRetries := 1 } {} {} []
        secondRecord.transaction (documented.commitStep { recceiverId := "r", pushMaxRetries := 1 }
          {} {} lostAnnounce)).1 matches .error .keyError ∧
      ¬ Recovered documented { recceiverId := "r", pushMaxRetries := 1 } {} secondRecord
        (documented.commitStep { recceiverId := "r", pushMaxRetries := 1 } {} {} lostAnnounce) := by
  have raises : (documented.commitWithThread { recceiverId := "r", pushMaxRetries := 1 } {} {} []
      secondRecord.transaction (documented.commitStep { recceiverId := "r", pushMaxRetries := 1 }
        {} {} lostAnnounce)).1 matches .error .keyError := by decide
  refine ⟨by decide, rfl, by decide, raises, ?_⟩
  intro recovered
  have returned := recovered.returns
  revert raises
  rw [show secondRecord.env = {} from rfl, show secondRecord.faults = [] from rfl] at returned
  rw [returned]
  decide

end Recsync.Cf
