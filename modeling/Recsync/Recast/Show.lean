import Mathlib.Data.List.Induction
import Recsync.Recast.Session

set_option autoImplicit false

/- The processor that shows the transactions in the log: `ShowProcessor` of `processors.py`. -/
namespace Recsync.Recast.Show

/-- A line of the log, with its level. -/
inductive Line where
  | debug (text : String)
  | info (text : String)
  deriving DecidableEq, Repr

section Generator

variable (name : String) (transaction : Transaction)

/-- What `_commit` logs before the first record. -/
def header : List Line :=
  [Line.debug ("# Show processor '" ++ name ++ "' commit"),
    Line.info ("# From " ++ transaction.host ++ ":" ++ toString transaction.port)] ++
  (if transaction.connected then [] else [Line.info "#  connection lost"]) ++
  transaction.clientInfos.entries.map fun item =>
    Line.info (" epicsEnvSet('" ++ item.1 ++ "','" ++ item.2 ++ "')")

def recordLines (record : Nat × String × String) : List Line :=
  [Line.info (" record(" ++ record.2.2 ++ ", \"" ++ record.2.1 ++ "\") \x7b")] ++
  ((transaction.aliases.get? record.1).getD []).map (fun a => Line.info ("  alias(\"" ++ a ++ "\")")) ++
  ((transaction.recordInfosToAdd.get? record.1).getD ∅).entries.map (fun item =>
    Line.info ("  info(" ++ item.1 ++ ",\"" ++ item.2 ++ "\")")) ++
  [Line.info " \x7d"]

/-- What the generator logs each time that it is called; after each record it yields. -/
def units : List (List Line) :=
  (transaction.recordsToAdd.entries.map (recordLines transaction) ++ [[Line.info "# End"]]).modifyHead
    (header name transaction ++ ·)

end Generator

/-- The task of a commit, with what is left of its generator. -/
structure Task where
  number : Nat
  transaction : Transaction
  left : List (List Line)

inductive Fired where
  | done
  | cancelled
  deriving DecidableEq, Repr

/-- The processor, with its commits by their numbers. -/
structure ShowProcessor where
  name : String
  /-- the task of the commit that has the lock -/
  running : Option Task := none
  /-- the commits that wait for the lock -/
  waiting : List (Nat × Transaction) := []
  log : List Line := []
  /-- the Deferreds of `commit` that have fired -/
  fired : List (Nat × Fired) := []
  commits : Nat := 0

namespace ShowProcessor

/-- `with_lock`, for the commit that got the lock. -/
def withLock (s : ShowProcessor) (w : Nat × Transaction) : ShowProcessor :=
  { s with running := some ⟨w.1, w.2, units s.name w.2⟩ }

/-- `release` of the lock. -/
def release (s : ShowProcessor) : ShowProcessor :=
  match s.waiting with
  | [] => { s with running := none }
  | w :: rest => { s with waiting := rest }.withLock w

/-- The task of the commit that has the lock is over; `release_lock` comes before its Deferred. -/
def settle (s : ShowProcessor) (number : Nat) (how : Fired) : ShowProcessor :=
  { s.release with fired := s.fired ++ [(number, how)] }

def commit (s : ShowProcessor) (transaction : Transaction) : ShowProcessor :=
  let next := { s with commits := s.commits + 1 }
  match s.running with
  | none => next.withLock (s.commits, transaction)
  | some _ => { next with waiting := s.waiting ++ [(s.commits, transaction)] }

/-- The cooperator calls the generator of the task once. -/
def tick (s : ShowProcessor) : ShowProcessor :=
  match s.running with
  | none => s
  | some task =>
    match task.left with
    | [] => s.settle task.number .done
    | [last] => { s with log := s.log ++ last }.settle task.number .done
    | lines :: left => { s with log := s.log ++ lines, running := some { task with left } }

/-- `cancel` of the Deferred that `commit` has returned. -/
def cancel (s : ShowProcessor) (number : Nat) : ShowProcessor :=
  if s.running.any (fun task => decide (task.number = number)) then s.settle number .cancelled
  else if s.waiting.any (fun w => decide (w.1 = number)) then
    { s with
      waiting := s.waiting.filter fun w => decide (w.1 ≠ number)
      fired := s.fired ++ [(number, .cancelled)] }
  else s

end ShowProcessor

inductive ShowEvent where
  | commit (transaction : Transaction)
  | tick
  | cancel (number : Nat)

namespace ShowProcessor

def step (s : ShowProcessor) : ShowEvent → ShowProcessor
  | .commit transaction => s.commit transaction
  | .tick => s.tick
  | .cancel number => s.cancel number

def run (s : ShowProcessor) (events : List ShowEvent) : ShowProcessor := events.foldl step s

end ShowProcessor

/-- A commit that got the lock, and how often its generator was called. -/
structure Cut where
  number : Nat
  transaction : Transaction
  calls : Nat

def Cut.lines (name : String) (c : Cut) : List Line := ((units name c.transaction).take c.calls).flatten

def Task.shown (name : String) (task : Task) : Cut :=
  ⟨task.number, task.transaction, (units name task.transaction).length⟩

/-- Nothing is missing in the log. -/
def Cut.Whole (name : String) (c : Cut) : Prop := c.calls = (units name c.transaction).length

namespace ShowProcessor

/-- The commits whose Deferreds have not fired, the one with the lock first. -/
def pending (s : ShowProcessor) : List Nat :=
  (s.running.map Task.number).toList ++ s.waiting.map Prod.fst

def current (s : ShowProcessor) : Option Cut := s.running.map fun task =>
  ⟨task.number, task.transaction, (units s.name task.transaction).length - task.left.length⟩

/-- The state after the commits `commits`, of which those in `past` had the lock before. -/
structure Traced (commits : List Transaction) (past : List Cut) (s : ShowProcessor) : Prop where
  log : s.log = (past ++ s.current.toList).flatMap (Cut.lines s.name)
  order : ((past ++ s.current.toList).map Cut.number ++ s.waiting.map Prod.fst).Pairwise (· < ·)
  ended : ∀ c ∈ past, (c.number, Fired.done) ∈ s.fired ∧ c.Whole s.name ∨
    (c.number, Fired.cancelled) ∈ s.fired ∧ c.calls < (units s.name c.transaction).length
  left : ∀ task, s.running = some task → task.left <:+ units s.name task.transaction ∧ task.left ≠ []
  cuts : ∀ c ∈ past ++ s.current.toList, commits[c.number]? = some c.transaction
  waiting : ∀ w ∈ s.waiting, commits[w.1]? = some w.2
  free : s.running = none → s.waiting = []
  places : (s.fired.map Prod.fst ++ s.pending).Perm (List.range s.commits)
  commits : commits.length = s.commits

end ShowProcessor

section Units

variable (name : String) (transaction : Transaction)

/-- The generator is called once at least. -/
theorem units_ne_nil : units name transaction ≠ [] := by
  have filled : transaction.recordsToAdd.entries.map (recordLines transaction) ++
      [[.info "# End"]] ≠ [] := by simp
  obtain ⟨first, rest, split⟩ := List.exists_cons_of_ne_nil filled
  rw [units, split]
  exact List.cons_ne_nil _ _

end Units

namespace ShowProcessor

variable {s : ShowProcessor} {commits : List Transaction} {past : List Cut}

theorem Traced.start (name : String) : Traced [] [] { name } where
  log := rfl
  order := .nil
  ended c member := absurd member List.not_mem_nil
  left task here := by cases here
  cuts c member := absurd member List.not_mem_nil
  waiting w member := absurd member List.not_mem_nil
  free _ := rfl
  places := .nil
  commits := rfl

/-- What has been logged when a commit gets the lock is what was logged before. -/
theorem lines_zero (name : String) (number : Nat) (transaction : Transaction) :
    Cut.lines name ⟨number, transaction, 0⟩ = [] := by
  simp [Cut.lines]

theorem ended_append {name : String} {fired : List (Nat × Fired)} {c : Cut} (other : Nat × Fired)
    (ended : (c.number, Fired.done) ∈ fired ∧ c.Whole name ∨
      (c.number, Fired.cancelled) ∈ fired ∧ c.calls < (units name c.transaction).length) :
    (c.number, Fired.done) ∈ fired ++ [other] ∧ c.Whole name ∨
      (c.number, Fired.cancelled) ∈ fired ++ [other] ∧ c.calls < (units name c.transaction).length := by
  rcases ended with ⟨done, whole⟩ | ⟨cancelled, part⟩
  · exact Or.inl ⟨List.mem_append_left _ done, whole⟩
  · exact Or.inr ⟨List.mem_append_left _ cancelled, part⟩

/-- The commit that had the lock has ended as the cut `c`; the next one has the lock. -/
theorem Traced.settle {c : Cut} {how : Fired}
    (log : s.log = (past ++ [c]).flatMap (Cut.lines s.name))
    (order : ((past ++ [c]).map Cut.number ++ s.waiting.map Prod.fst).Pairwise (· < ·))
    (ended : ∀ d ∈ past, (d.number, Fired.done) ∈ s.fired ∧ d.Whole s.name ∨
      (d.number, Fired.cancelled) ∈ s.fired ∧ d.calls < (units s.name d.transaction).length)
    (ends : how = .done ∧ c.Whole s.name ∨
      how = .cancelled ∧ c.calls < (units s.name c.transaction).length)
    (cuts : ∀ d ∈ past ++ [c], commits[d.number]? = some d.transaction)
    (waiting : ∀ w ∈ s.waiting, commits[w.1]? = some w.2)
    (places : (s.fired.map Prod.fst ++ c.number :: s.waiting.map Prod.fst).Perm (List.range s.commits))
    (count : commits.length = s.commits) :
    Traced commits (past ++ [c]) (s.settle c.number how) := by
  have allEnded (fired : List (Nat × Fired)) (same : fired = s.fired ++ [(c.number, how)]) :
      ∀ d ∈ past ++ [c], (d.number, Fired.done) ∈ fired ∧ d.Whole s.name ∨
        (d.number, Fired.cancelled) ∈ fired ∧ d.calls < (units s.name d.transaction).length := by
    intro d member
    rw [same]
    rcases List.mem_append.mp member with old | new
    · exact ended_append _ (ended d old)
    · obtain rfl := List.mem_singleton.mp new
      rcases ends with ⟨rfl, whole⟩ | ⟨rfl, part⟩
      · exact Or.inl ⟨List.mem_append_right _ List.mem_cons_self, whole⟩
      · exact Or.inr ⟨List.mem_append_right _ List.mem_cons_self, part⟩
  cases queue : s.waiting with
  | nil =>
    have next : s.settle c.number how =
        { s with running := none, fired := s.fired ++ [(c.number, how)] } := by
      simp only [ShowProcessor.settle, release, queue]
    rw [next]
    rw [queue] at order places
    exact {
      log := by simpa [current] using log
      order := by simpa [current, queue] using order
      ended := allEnded _ rfl
      left := by simp
      cuts := by simpa [current] using cuts
      waiting := by simp [queue]
      free := fun _ => queue
      places := by simpa [pending, queue] using places
      commits := count }
  | cons w rest =>
    have next : s.settle c.number how = { s with
        waiting := rest
        running := some ⟨w.1, w.2, units s.name w.2⟩
        fired := s.fired ++ [(c.number, how)] } := by
      simp only [ShowProcessor.settle, release, queue, withLock]
    rw [next]
    rw [queue] at order waiting places
    rw [List.forall_mem_cons] at waiting
    exact {
      log := by simpa [current, lines_zero] using log
      order := by simpa [current] using order
      ended := allEnded _ rfl
      left := by
        intro task here
        obtain rfl := Option.some.inj here
        exact ⟨List.suffix_rfl, units_ne_nil s.name w.2⟩
      cuts := by
        rw [List.forall_mem_append]
        exact ⟨cuts, List.forall_mem_singleton.mpr waiting.1⟩
      waiting := waiting.2
      free := fun none => by cases none
      places := by simpa [pending] using places
      commits := count }

/-- The numbers in use are those of the commits so far. -/
theorem Traced.bounded (traced : Traced commits past s) :
    ∀ n ∈ (past ++ s.current.toList).map Cut.number ++ s.waiting.map Prod.fst, n < s.commits := by
  rw [← traced.commits]
  intro n member
  rcases List.mem_append.mp member with cut | waits
  · obtain ⟨c, inside, rfl⟩ := List.mem_map.mp cut
    exact (List.getElem?_eq_some_iff.mp (traced.cuts c inside)).1
  · obtain ⟨w, inside, rfl⟩ := List.mem_map.mp waits
    exact (List.getElem?_eq_some_iff.mp (traced.waiting w inside)).1

theorem get_concat {k : Nat} {transaction other : Transaction}
    (old : commits[k]? = some transaction) : (commits ++ [other])[k]? = some transaction := by
  rw [List.getElem?_append_left (List.getElem?_eq_some_iff.mp old).1]
  exact old

theorem Traced.commit (traced : Traced commits past s) (transaction : Transaction) :
    Traced (commits ++ [transaction]) past (s.commit transaction) := by
  have bounded := traced.bounded
  have order := List.pairwise_append.mpr ⟨traced.order, List.pairwise_singleton (· < ·) s.commits, by
    intro n member m last
    rw [List.mem_singleton.mp last]
    exact bounded n member⟩
  have last : (commits ++ [transaction])[s.commits]? = some transaction := by
    rw [← traced.commits, List.getElem?_concat_length]
  have places : (s.fired.map Prod.fst ++ (s.pending ++ [s.commits])).Perm (List.range (s.commits + 1)) := by
    rw [List.range_succ, ← List.append_assoc]
    exact traced.places.append_right _
  have count : (commits ++ [transaction]).length = s.commits + 1 := by simp [traced.commits]
  cases running : s.running with
  | none =>
    have queue := traced.free running
    have next : s.commit transaction = { s with
        running := some ⟨s.commits, transaction, units s.name transaction⟩
        commits := s.commits + 1 } := by
      simp only [ShowProcessor.commit, running, withLock]
    have log := traced.log
    have cuts := traced.cuts
    rw [next]
    simp only [current, pending, running, queue, Option.map_none, Option.toList_none, List.append_nil,
      List.nil_append, List.map_nil] at log order cuts places
    exact {
      log := by simpa [current, lines_zero] using log
      order := by simpa [current, queue] using order
      ended := traced.ended
      left := by
        intro task here
        obtain rfl := Option.some.inj here
        exact ⟨List.suffix_rfl, units_ne_nil s.name transaction⟩
      cuts := by
        rw [List.forall_mem_append]
        exact ⟨fun c old => get_concat (cuts c old), List.forall_mem_singleton.mpr last⟩
      waiting := by simp [queue]
      free := fun none => by cases none
      places := by simpa [pending, queue] using places
      commits := count }
  | some task =>
    have next : s.commit transaction = { s with
        waiting := s.waiting ++ [(s.commits, transaction)]
        commits := s.commits + 1 } := by
      simp only [ShowProcessor.commit, running]
    rw [next]
    exact {
      log := traced.log
      order := by simpa [current] using order
      ended := traced.ended
      left := traced.left
      cuts := fun c member => get_concat (traced.cuts c member)
      waiting := by
        rw [List.forall_mem_append]
        exact ⟨fun w old => get_concat (traced.waiting w old), List.forall_mem_singleton.mpr last⟩
      free := fun none => absurd (running.symm.trans none) (by simp)
      places := by simpa [pending] using places
      commits := count }

/-- The cut of the commit that has the lock. -/
theorem current_of_running {task : Task} (running : s.running = some task) : s.current =
    some ⟨task.number, task.transaction, (units s.name task.transaction).length - task.left.length⟩ := by
  rw [current, running, Option.map_some]

section Running

variable (traced : Traced commits past s) {task : Task} (running : s.running = some task)
include traced running

theorem Traced.some_left : 0 < task.left.length ∧
    task.left.length ≤ (units s.name task.transaction).length := by
  obtain ⟨suffix, filled⟩ := traced.left task running
  exact ⟨List.length_pos_iff.mpr filled, suffix.length_le⟩

theorem Traced.running_places : (s.fired.map Prod.fst ++ task.number :: s.waiting.map Prod.fst).Perm
    (List.range s.commits) := by
  have places := traced.places
  rw [pending, running] at places
  exact places

theorem Traced.next_lines {lines : List Line} {left : List (List Line)} (split : task.left = lines :: left) :
    (units s.name task.transaction).take ((units s.name task.transaction).length - left.length) =
      (units s.name task.transaction).take
        ((units s.name task.transaction).length - task.left.length) ++ [lines] := by
  obtain ⟨front, whole⟩ := (traced.left task running).1
  have first : (units s.name task.transaction).length - task.left.length = front.length := by
    rw [← whole, List.length_append]
    omega
  have second : (units s.name task.transaction).length - left.length = front.length + 1 := by
    rw [← whole, List.length_append, split, List.length_cons]
    omega
  have all : front.take (front.length + 1) = front := List.take_of_length_le (Nat.le_succ _)
  rw [first, second, ← whole, List.take_left, split]
  simp [List.take_append, all]

theorem Traced.cancelRunning : Traced commits (past ++ s.current.toList)
    (s.settle task.number .cancelled) := by
  have here := current_of_running running
  obtain ⟨some, bound⟩ := traced.some_left running
  have log := traced.log
  have order := traced.order
  have cuts := traced.cuts
  rw [here] at log order cuts ⊢
  have part : (units s.name task.transaction).length - task.left.length <
      (units s.name task.transaction).length := by omega
  exact Traced.settle log order traced.ended (Or.inr ⟨rfl, part⟩) cuts traced.waiting
    (traced.running_places running) traced.commits

theorem Traced.yields {lines : List Line} {left : List (List Line)} (split : task.left = lines :: left)
    (more : left ≠ []) :
    Traced commits past { s with log := s.log ++ lines, running := some { task with left } } := by
  have here := current_of_running running
  have log := traced.log
  have order := traced.order
  have cuts := traced.cuts
  have suffix := (traced.left task running).1
  have places := traced.running_places running
  rw [here] at log order cuts
  have last := cuts _ (List.mem_append_right _ (List.mem_singleton_self _))
  exact {
    log := by
      have next := traced.next_lines running split
      show s.log ++ lines = _
      rw [log]
      simp [current, Cut.lines, next]
    order := by simpa [current] using order
    ended := traced.ended
    left := by
      intro task' same
      obtain rfl := Option.some.inj same
      rw [split] at suffix
      exact ⟨(List.suffix_cons lines left).trans suffix, more⟩
    cuts := by
      rw [List.forall_mem_append]
      exact ⟨fun c old => cuts c (List.mem_append_left _ old), List.forall_mem_singleton.mpr last⟩
    waiting := traced.waiting
    free := fun none => by cases none
    places
    commits := traced.commits }

theorem Traced.ends {last : List Line} (split : task.left = [last]) :
    Traced commits (past ++ [task.shown s.name])
      ({ s with log := s.log ++ last }.settle task.number .done) := by
  have here := current_of_running running
  have log := traced.log
  have order := traced.order
  have cuts := traced.cuts
  rw [here] at log order cuts
  have whole : s.log ++ last = (past ++ [task.shown s.name]).flatMap (Cut.lines s.name) := by
    have next := traced.next_lines running split
    rw [List.length_nil, Nat.sub_zero] at next
    rw [log]
    simp [Cut.lines, Task.shown, next]
  have same := cuts _ (List.mem_append_right _ (List.mem_singleton_self _))
  refine @Traced.settle { s with log := s.log ++ last } commits past (task.shown s.name) .done whole ?_
    traced.ended (Or.inl ⟨rfl, rfl⟩) ?_ traced.waiting (traced.running_places running) traced.commits
  · simpa [Task.shown] using order
  · intro c member
    rcases List.mem_append.mp member with old | new
    · exact cuts c (List.mem_append_left _ old)
    · rw [List.mem_singleton.mp new]
      exact same

end Running

theorem Traced.tick (traced : Traced commits past s) : ∃ past', Traced commits past' s.tick := by
  cases running : s.running with
  | none => exact ⟨past, by simpa only [ShowProcessor.tick, running] using traced⟩
  | some task =>
    cases split : task.left with
    | nil => exact absurd split (traced.left task running).2
    | cons lines left =>
      cases left with
      | nil =>
        refine ⟨past ++ [task.shown s.name], ?_⟩
        simp only [ShowProcessor.tick, running, split]
        exact traced.ends running split
      | cons lines' left =>
        refine ⟨past, ?_⟩
        simp only [ShowProcessor.tick, running, split]
        exact traced.yields running split (List.cons_ne_nil _ _)

theorem Traced.cancelWaiting (traced : Traced commits past s) {number : Nat}
    (waits : number ∈ s.waiting.map Prod.fst) : Traced commits past { s with
      waiting := s.waiting.filter fun w => decide (w.1 ≠ number)
      fired := s.fired ++ [(number, .cancelled)] } := by
  have others : (s.waiting.filter fun w => decide (w.1 ≠ number)).map Prod.fst =
      (s.waiting.map Prod.fst).erase number := by
    have distinct : (s.waiting.map Prod.fst).Nodup :=
      (List.pairwise_append.mp traced.order).2.1.imp Nat.ne_of_lt
    rw [distinct.erase_eq_filter, List.filter_map]
    congr 1
    apply List.filter_congr
    intro w _
    by_cases same : w.1 = number <;> simp [same]
  exact {
    log := traced.log
    order := by
      have fewer : List.Sublist ((s.waiting.filter fun w => decide (w.1 ≠ number)).map Prod.fst)
          (s.waiting.map Prod.fst) := (List.filter_sublist).map _
      exact traced.order.sublist ((List.Sublist.refl _).append fewer)
    ended := fun c member => ended_append _ (traced.ended c member)
    left := traced.left
    cuts := traced.cuts
    waiting := fun w member => traced.waiting w (List.mem_of_mem_filter member)
    free := fun none => by rw [traced.free none]; rfl
    places := by
      refine List.Perm.trans ?_ traced.places
      have moved := (List.perm_cons_erase waits).symm
      simp only [pending, others, List.map_append, List.map_cons, List.map_nil, List.append_assoc,
        List.singleton_append]
      apply List.Perm.append_left
      refine List.Perm.trans ?_ (moved.append_left _)
      exact (List.perm_middle).symm
    commits := traced.commits }

theorem Traced.cancel (traced : Traced commits past s) (number : Nat) :
    ∃ past', Traced commits past' (s.cancel number) := by
  rw [ShowProcessor.cancel]
  split
  · next holds =>
    obtain ⟨task, running, same⟩ := (Option.any_eq_true _ _).mp holds
    obtain rfl := of_decide_eq_true same
    exact ⟨_, traced.cancelRunning running⟩
  · split
    · next waits =>
      obtain ⟨w, member, same⟩ := List.any_eq_true.mp waits
      have there : number ∈ s.waiting.map Prod.fst :=
        List.mem_map.mpr ⟨w, member, of_decide_eq_true same⟩
      exact ⟨past, traced.cancelWaiting there⟩
    · exact ⟨past, traced⟩

def committed (events : List ShowEvent) : List Transaction :=
  events.filterMap fun
    | .commit transaction => some transaction
    | _ => none

theorem Traced.run (name : String) (events : List ShowEvent) :
    ∃ past, Traced (committed events) past (({ name } : ShowProcessor).run events) := by
  induction events using List.reverseRecOn with
  | nil => exact ⟨[], .start name⟩
  | append_singleton events e ih =>
    obtain ⟨past, traced⟩ := ih
    rw [ShowProcessor.run, List.foldl_concat, committed, List.filterMap_append]
    cases e with
    | commit transaction => exact ⟨past, traced.commit transaction⟩
    | tick =>
      obtain ⟨past', next⟩ := traced.tick
      exact ⟨past', by simpa [committed, ShowProcessor.run, step] using next⟩
    | cancel number =>
      obtain ⟨past', next⟩ := traced.cancel number
      exact ⟨past', by simpa [committed, ShowProcessor.run, step] using next⟩

/-- What is still to be logged, by the calls of the generators. -/
def due (s : ShowProcessor) : List (List Line) :=
  ((s.running.map Task.left).getD []) ++ s.waiting.flatMap fun w => units s.name w.2

theorem release_due (s : ShowProcessor) :
    s.release.due = s.waiting.flatMap (fun w => units s.name w.2) ∧ s.release.log = s.log ∧
      s.release.pending = s.waiting.map Prod.fst := by
  rw [release]
  split
  · next queue => simp [due, pending, queue]
  · next w rest queue => simp [due, pending, withLock, queue]

/-- How the Deferreds fire when no commit is cancelled any more. -/
def firing (s : ShowProcessor) : List (Nat × Fired) := s.fired ++ s.pending.map fun n => (n, .done)

/-- A call of the generator does a part of what is due. -/
theorem Traced.tick_due (traced : Traced commits past s) {task : Task} (running : s.running = some task) :
    ∃ lines, s.due = lines :: s.tick.due ∧ s.tick.log = s.log ++ lines ∧ s.tick.firing = s.firing := by
  have pend : s.pending = task.number :: s.waiting.map Prod.fst := by
    rw [pending, running]
    rfl
  cases split : task.left with
  | nil => exact absurd split (traced.left task running).2
  | cons lines left =>
    refine ⟨lines, ?_⟩
    cases left with
    | nil =>
      obtain ⟨rest, log, next⟩ := release_due { s with log := s.log ++ lines }
      have tick : s.tick = { s with log := s.log ++ lines }.settle task.number .done := by
        simp only [ShowProcessor.tick, running, split]
      refine ⟨?_, ?_, ?_⟩
      · rw [due, running, Option.map_some, Option.getD_some, split, tick]
        exact congrArg (lines :: ·) rest.symm
      · rw [tick]
        exact log
      · rw [firing, firing, pend, tick]
        show s.fired ++ [(task.number, .done)] ++ (release _).pending.map _ = _
        rw [next]
        simp
    | cons lines' left =>
      have tick : s.tick = { s with
          log := s.log ++ lines
          running := some { task with left := lines' :: left } } := by
        simp only [ShowProcessor.tick, running, split]
      refine ⟨?_, ?_, ?_⟩
      · rw [tick, due, running, Option.map_some, Option.getD_some, split]
        rfl
      · rw [tick]
      · rw [firing, firing, pend, tick]
        rfl

theorem Traced.idle (traced : Traced commits past s) (nothing : s.due = []) :
    s.running = none ∧ s.waiting = [] := by
  cases running : s.running with
  | none => exact ⟨rfl, traced.free running⟩
  | some task =>
    obtain ⟨lines, split, -⟩ := traced.tick_due running
    rw [split] at nothing
    cases nothing

/-- The cooperator carries out what is due. -/
theorem Traced.drains (traced : Traced commits past s) :
    let s' := s.run (List.replicate s.due.length .tick)
    s'.running = none ∧ s'.waiting = [] ∧ s'.log = s.log ++ s.due.flatten ∧ s'.fired = s.firing := by
  induction size : s.due generalizing s past with
  | nil =>
    obtain ⟨free, empty⟩ := traced.idle size
    refine ⟨free, empty, (List.append_nil _).symm, ?_⟩
    show s.fired = s.firing
    simp [firing, pending, free, empty]
  | cons lines rest ih =>
    cases running : s.running with
    | none => simp [due, running, traced.free running] at size
    | some task =>
      obtain ⟨lines', split, log, firing⟩ := traced.tick_due running
      rw [split, List.cons.injEq] at size
      obtain ⟨rfl, later⟩ := size
      obtain ⟨past', next⟩ := traced.tick
      obtain ⟨free, empty, all, fired⟩ := ih next later
      refine ⟨free, empty, ?_, fired.trans firing⟩
      rw [List.length_cons, List.replicate_succ, ShowProcessor.run, List.foldl_cons]
      refine all.trans ?_
      rw [log, List.flatten_cons, List.append_assoc]

end ShowProcessor

/-- In every run of commits, calls of the cooperator and cancellations: the log is that of one
commit after the other in the order in which they came, whole for those that are done and cut off
where they were cancelled; each commit has fired once, or has the lock, or waits for it, and the
lock is free only with nobody waiting; and the cooperator carries out what is due in so many calls,
after which every commit has fired. -/
theorem show_serial (name : String) (events : List ShowEvent) :
    let s := ({ name } : ShowProcessor).run events
    let s' := s.run (List.replicate s.due.length .tick)
    (∃ past, s.Traced (ShowProcessor.committed events) past) ∧
      (s'.running = none ∧ s'.waiting = [] ∧ s'.log = s.log ++ s.due.flatten ∧ s'.fired = s.firing) ∧
      (s'.fired.map Prod.fst).Perm (List.range (ShowProcessor.committed events).length) := by
  intro s s'
  obtain ⟨past, traced⟩ := ShowProcessor.Traced.run name events
  have drains := traced.drains
  refine ⟨⟨past, traced⟩, drains, ?_⟩
  rw [drains.2.2.2, traced.commits, ShowProcessor.firing, List.map_append, List.map_map]
  simpa [Function.comp_def] using traced.places

end Recsync.Recast.Show
