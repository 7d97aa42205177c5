import Mathlib.Data.List.Nodup
import Mathlib.Logic.Function.Basic

set_option autoImplicit false

namespace Recsync.Recast

variable {ι : Type} [DecidableEq ι]

/-- `CastFactory` with the `CastReceiver` objects it has built. The lists `accepted`, `lost`,
`greeted` and `resumed` record what happened to the connections, in order. -/
structure Server (ι : Type) where
  nActive : Int := 0
  wait : List ι := []
  /-- the flag `active` of each receiver -/
  active : ι → Bool := fun _ => false
  /-- the transport delivers no data -/
  paused : ι → Bool := fun _ => false
  accepted : List ι := []
  lost : List ι := []
  /-- the connections that were sent the server greeting -/
  greeted : List ι := []
  /-- the connections on which `resumeProducing` was called -/
  resumed : List ι := []

/-- `CastReceiver.connectionMade`. -/
def connectionMade (c : ι) (s : Server ι) : Server ι :=
  if s.active c then { s with greeted := s.greeted ++ [c] }
  else { s with paused := Function.update s.paused c true }

/-- `CastFactory.isDone`. -/
def isDone (c : ι) (active : Bool) (s : Server ι) : Server ι :=
  if !active then
    if c ∈ s.wait then { s with wait := s.wait.erase c } else s
  else
    match s.wait with
    | waiting :: rest =>
      connectionMade waiting
        { s with
          wait := rest
          active := Function.update s.active waiting true
          paused := Function.update s.paused waiting false
          resumed := s.resumed ++ [waiting] }
    | [] => { s with nActive := s.nActive - 1 }

/-- `CastFactory.buildProtocol`. -/
def buildProtocol (maxActive : Nat) (c : ι) (s : Server ι) : Server ι :=
  let active := decide (s.nActive < maxActive)
  let s := { s with
    active := Function.update s.active c active
    paused := Function.update s.paused c false
    accepted := s.accepted ++ [c] }
  if active then { s with nActive := s.nActive + 1 } else { s with wait := s.wait ++ [c] }

/-- `CastReceiver.recvDone`, as far as it concerns the upload slots. -/
def recvDone (c : ι) (s : Server ι) : Server ι :=
  let s := isDone c (s.active c) s
  { s with active := Function.update s.active c false }

/-- `CastReceiver.connectionLost`, as far as it concerns the upload slots. -/
def connectionLost (c : ι) (s : Server ι) : Server ι :=
  let s := isDone c (s.active c) s
  { s with lost := s.lost ++ [c] }

inductive Event (ι : Type) where
  | accept (c : ι)
  | done (c : ι)
  | lose (c : ι)

def Server.Live (s : Server ι) (c : ι) : Prop := c ∈ s.accepted ∧ c ∉ s.lost

/-- Each connection is a new object, a paused transport delivers no messages, and a connection
is lost at most once. -/
def Enabled (s : Server ι) : Event ι → Prop
  | .accept c => c ∉ s.accepted
  | .done c => s.Live c ∧ s.paused c = false
  | .lose c => s.Live c

def step (maxActive : Nat) (s : Server ι) : Event ι → Server ι
  | .accept c => connectionMade c (buildProtocol maxActive c s)
  | .done c => recvDone c s
  | .lose c => connectionLost c s

/-- The states that runs of events lead to. -/
inductive Reachable (maxActive : Nat) : Server ι → Prop where
  | start : Reachable maxActive {}
  | next {s : Server ι} (e : Event ι) : Reachable maxActive s → Enabled s e →
      Reachable maxActive (step maxActive s e)

/-- The number of live connections whose flag is set. -/
def Server.activeCount (s : Server ι) : Nat :=
  s.accepted.countP fun c => decide (c ∉ s.lost) && s.active c

/-- Clearing a predicate at one element of a list without duplicates. -/
theorem countP_clear {l : List ι} (nodup : l.Nodup) {c : ι} (member : c ∈ l) {p q : ι → Bool}
    (before : p c = true) (after : q c = false) (same : ∀ x, x ≠ c → q x = p x) :
    l.countP q + 1 = l.countP p := by
  induction l with
  | nil => cases member
  | cons x rest ih =>
    obtain ⟨fresh, distinct⟩ := List.nodup_cons.mp nodup
    by_cases here : x = c
    · subst here
      have others : rest.countP q = rest.countP p := by
        apply List.countP_congr
        intro y inside
        rw [same y fun equal => fresh (equal ▸ inside)]
      rw [List.countP_cons_of_pos before, List.countP_cons_of_neg (by simp [after]), others]
    · have inside : c ∈ rest := by
        rcases List.mem_cons.mp member with equal | inside
        · exact absurd equal.symm here
        · exact inside
      have tail := ih distinct inside
      rw [List.countP_cons, List.countP_cons, same x here]
      omega

/-- The invariant of the upload slots. -/
structure Accounted (maxActive : Nat) (s : Server ι) : Prop where
  acceptedNodup : s.accepted.Nodup
  order : (s.resumed ++ s.wait).Sublist s.accepted
  waiting : ∀ c, c ∈ s.wait ↔ s.Live c ∧ c ∉ s.greeted
  idle : ∀ c ∈ s.wait, s.active c = false
  paused : ∀ c, s.Live c → (s.paused c = true ↔ c ∈ s.wait)
  known : s.greeted ⊆ s.accepted ∧ s.lost ⊆ s.accepted
  counted : s.nActive = s.activeCount
  bounded : s.nActive ≤ maxActive
  full : s.wait ≠ [] → s.nActive = maxActive

theorem Accounted.start (maxActive : Nat) : Accounted maxActive ({} : Server ι) where
  acceptedNodup := List.nodup_nil
  order := List.Sublist.refl []
  waiting := by intro c; simp [Server.Live]
  idle := by intro c member; cases member
  paused := by intro c live; cases live.1
  known := ⟨fun _ => id, fun _ => id⟩
  counted := rfl
  bounded := by simp
  full := by intro someone; exact absurd rfl someone

/-- Those who wait stand in the order in which they were accepted. -/
theorem Accounted.wait_order {maxActive : Nat} {s : Server ι} (ok : Accounted maxActive s) :
    s.wait.Sublist s.accepted :=
  (List.sublist_append_right s.resumed s.wait).trans ok.order

theorem Accounted.wait_nodup {maxActive : Nat} {s : Server ι} (ok : Accounted maxActive s) :
    s.wait.Nodup :=
  ok.wait_order.nodup ok.acceptedNodup

section Accept

variable {maxActive : Nat} {s : Server ι} {c : ι}

theorem Accounted.accept_nodup (ok : Accounted maxActive s) (fresh : c ∉ s.accepted) :
    (s.accepted ++ [c]).Nodup := by
  apply List.nodup_append.mpr
  refine ⟨ok.acceptedNodup, by simp, ?_⟩
  intro a member b last equal
  rw [List.mem_singleton.mp last] at equal
  exact fresh (equal ▸ member)

/-- The flag of a new connection is all that it adds to the count. -/
theorem Accounted.accept_activeCount (ok : Accounted maxActive s) (fresh : c ∉ s.accepted)
    (flag : Bool) :
    (s.accepted ++ [c]).countP (fun d => decide (d ∉ s.lost) &&
      Function.update s.active c flag d) = s.activeCount + if flag then 1 else 0 := by
  have newcomer : c ∉ s.lost := fun lost => fresh (ok.known.2 lost)
  have others : s.accepted.countP (fun d => decide (d ∉ s.lost) &&
      Function.update s.active c flag d) = s.activeCount := by
    apply List.countP_congr
    intro d member
    have different : d ≠ c := fun same => fresh (same ▸ member)
    rw [Function.update_of_ne different]
  rw [List.countP_append, others, List.countP_singleton]
  simp [newcomer]

/-- A connection that finds a free slot is activated at once; nobody waits then. -/
theorem Accounted.acceptActive (ok : Accounted maxActive s) (fresh : c ∉ s.accepted)
    (free : s.nActive < maxActive) :
    Accounted maxActive { s with
      nActive := s.nActive + 1
      active := Function.update s.active c true
      paused := Function.update s.paused c false
      accepted := s.accepted ++ [c]
      greeted := s.greeted ++ [c] } := by
  have nobody : s.wait = [] := by
    by_contra someone
    have := ok.full someone
    omega
  refine ⟨?_, ?_, ?_, ?_, ?_, ⟨?_, ?_⟩, ?_, ?_, ?_⟩
  · exact ok.accept_nodup fresh
  · exact ok.order.trans (List.sublist_append_left _ _)
  · intro d
    have before := ok.waiting d
    rw [nobody] at before ⊢
    simp only [Server.Live, List.not_mem_nil, false_iff, List.mem_append, List.mem_singleton] at before ⊢
    tauto
  · intro d member
    rw [show d ∈ s.wait ↔ d ∈ ([] : List ι) by rw [nobody]] at member
    cases member
  · intro d live
    change Function.update s.paused c false d = true ↔ d ∈ s.wait
    by_cases same : d = c
    · simp [same, nobody]
    · rw [Function.update_of_ne same]
      refine ok.paused d ⟨?_, live.2⟩
      have inside : d ∈ s.accepted ++ [c] := live.1
      simpa [same] using inside
  · intro d member
    rcases List.mem_append.mp member with before | last
    · exact List.mem_append_left _ (ok.known.1 before)
    · exact List.mem_append_right _ last
  · exact fun d member => List.mem_append_left _ (ok.known.2 member)
  · have more := ok.accept_activeCount fresh true
    have count := ok.counted
    simp only [Server.activeCount, if_true] at more count ⊢
    omega
  · change s.nActive + 1 ≤ maxActive
    omega
  · intro someone
    exact absurd nobody someone

/-- A connection that finds no free slot is paused and waits. -/
theorem Accounted.acceptWaiting (ok : Accounted maxActive s) (fresh : c ∉ s.accepted)
    (none : ¬ s.nActive < maxActive) :
    Accounted maxActive { s with
      wait := s.wait ++ [c]
      active := Function.update s.active c false
      paused := Function.update (Function.update s.paused c false) c true
      accepted := s.accepted ++ [c] } := by
  have newcomer : c ∉ s.lost := fun lost => fresh (ok.known.2 lost)
  have ungreeted : c ∉ s.greeted := fun greeted => fresh (ok.known.1 greeted)
  have absent : c ∉ s.wait := fun waits => fresh ((ok.waiting c).mp waits).1.1
  refine ⟨?_, ?_, ?_, ?_, ?_, ⟨?_, ?_⟩, ?_, ok.bounded, ?_⟩
  · exact ok.accept_nodup fresh
  · rw [← List.append_assoc]
    exact ok.order.append (List.Sublist.refl [c])
  · intro d
    have before := ok.waiting d
    simp only [Server.Live, List.mem_append, List.mem_singleton] at before ⊢
    by_cases same : d = c
    · subst same
      simp [newcomer, ungreeted]
    · simp [same, before]
  · intro d member
    change Function.update s.active c false d = false
    by_cases same : d = c
    · simp [same]
    · rw [Function.update_of_ne same]
      exact ok.idle d (by simpa [same] using member)
  · intro d live
    change Function.update (Function.update s.paused c false) c true d = true ↔ d ∈ s.wait ++ [c]
    by_cases same : d = c
    · simp [same]
    · rw [Function.update_of_ne same, Function.update_of_ne same]
      have inside : d ∈ s.accepted ++ [c] := live.1
      have before := ok.paused d ⟨by simpa [same] using inside, live.2⟩
      simp [before, same]
  · exact fun d member => List.mem_append_left _ (ok.known.1 member)
  · exact fun d member => List.mem_append_left _ (ok.known.2 member)
  · have same := ok.accept_activeCount fresh false
    have count := ok.counted
    simp only [Server.activeCount, Bool.false_eq_true, if_false] at same count ⊢
    omega
  · intro _
    have := ok.bounded
    change s.nActive = maxActive
    omega

theorem Accounted.accept (ok : Accounted maxActive s) (fresh : c ∉ s.accepted) :
    Accounted maxActive (step maxActive s (.accept c)) := by
  by_cases free : s.nActive < maxActive
  · have ran : step maxActive s (.accept c) = { s with
        nActive := s.nActive + 1
        active := Function.update s.active c true
        paused := Function.update s.paused c false
        accepted := s.accepted ++ [c]
        greeted := s.greeted ++ [c] } := by
      simp [step, buildProtocol, connectionMade, free]
    rw [ran]
    exact ok.acceptActive fresh free
  · have ran : step maxActive s (.accept c) = { s with
        wait := s.wait ++ [c]
        active := Function.update s.active c false
        paused := Function.update (Function.update s.paused c false) c true
        accepted := s.accepted ++ [c] } := by
      simp [step, buildProtocol, connectionMade, free]
    rw [ran]
    exact ok.acceptWaiting fresh free

end Accept

section Leave

variable {maxActive : Nat} {s : Server ι} {c : ι} {active' : ι → Bool} {lost' : List ι}

/-- The connection `c` stops to count: its flag is cleared or its transport is lost. -/
structure Retired (s : Server ι) (active : ι → Bool) (c : ι) (active' : ι → Bool)
    (lost' : List ι) : Prop where
  elsewhere : ∀ d, d ≠ c → active' d = active d ∧ (d ∈ lost' ↔ d ∈ s.lost)
  gone : active' c = false ∨ c ∈ lost'
  kept : s.lost ⊆ lost'
  known : lost' ⊆ s.accepted

theorem Retired.cleared (ok : Accounted maxActive s) (active : ι → Bool) :
    Retired s active c (Function.update active c false) s.lost where
  elsewhere := fun _ other => ⟨Function.update_of_ne other _ _, Iff.rfl⟩
  gone := .inl (Function.update_self _ _ _)
  kept := fun _ => id
  known := ok.known.2

theorem Retired.lost (ok : Accounted maxActive s) (live : s.Live c) (active : ι → Bool) :
    Retired s active c active (s.lost ++ [c]) where
  elsewhere := by intro d other; simp [other]
  gone := .inr (by simp)
  kept := fun _ => List.mem_append_left _
  known := by
    intro d member
    rcases List.mem_append.mp member with before | last
    · exact ok.known.2 before
    · rw [List.mem_singleton.mp last]
      exact live.1

theorem Accounted.waiting_retired (ok : Accounted maxActive s) {active : ι → Bool}
    (retired : Retired s active c active' lost') (absent : c ∉ s.wait) (d : ι) :
    d ∈ s.wait ↔ (d ∈ s.accepted ∧ d ∉ lost') ∧ d ∉ s.greeted := by
  rw [ok.waiting d]
  by_cases same : d = c
  · subst same
    have out := mt (ok.waiting d).mpr absent
    constructor
    · intro inside
      exact absurd inside out
    · rintro ⟨⟨accepted, stays⟩, silent⟩
      exact ⟨⟨accepted, fun lost => stays (retired.kept lost)⟩, silent⟩
  · rw [Server.Live, (retired.elsewhere d same).2]

theorem Accounted.activeCount_retired (ok : Accounted maxActive s) (live : s.Live c)
    {active : ι → Bool} (retired : Retired s active c active' lost') (set : active c = true) :
    s.accepted.countP (fun d => decide (d ∉ lost') && active' d) + 1 =
      s.accepted.countP (fun d => decide (d ∉ s.lost) && active d) := by
  apply countP_clear ok.acceptedNodup live.1
  · simp [live.2, set]
  · rcases retired.gone with clear | lost
    · simp [clear]
    · simp [lost]
  · intro d other
    obtain ⟨flag, listed⟩ := retired.elsewhere d other
    rw [flag]
    simp only [listed]

/-- The last active connection without anybody waiting gives its slot back. -/
theorem Accounted.release (ok : Accounted maxActive s) (live : s.Live c)
    (set : s.active c = true) (nobody : s.wait = [])
    (retired : Retired s s.active c active' lost') :
    Accounted maxActive { s with
      nActive := s.nActive - 1
      active := active'
      lost := lost' } := by
  have absent : c ∉ s.wait := by rw [nobody]; exact List.not_mem_nil
  have fewer := ok.activeCount_retired live retired set
  have count := ok.counted
  have bound := ok.bounded
  refine ⟨ok.acceptedNodup, ok.order, ok.waiting_retired retired absent, ?_, ?_,
    ⟨ok.known.1, retired.known⟩, ?_, ?_, ?_⟩
  · intro d member
    change d ∈ s.wait at member
    rw [nobody] at member
    cases member
  · intro d inside
    exact ok.paused d ⟨inside.1, fun lost => inside.2 (retired.kept lost)⟩
  · simp only [Server.activeCount] at count ⊢
    omega
  · change s.nActive - 1 ≤ maxActive
    omega
  · intro someone
    exact absurd nobody someone

theorem Accounted.not_waiting_of_active (ok : Accounted maxActive s) (set : s.active c = true) :
    c ∉ s.wait := by
  intro member
  rw [ok.idle c member] at set
  cases set

section First

variable {first : ι} {rest : List ι} (queue : s.wait = first :: rest)
include queue

omit [DecidableEq ι] in
theorem Server.first_mem : first ∈ s.wait := by
  rw [queue]
  exact List.mem_cons_self

theorem Accounted.first_live (ok : Accounted maxActive s) : s.Live first :=
  ((ok.waiting first).mp (Server.first_mem queue)).1

theorem Accounted.first_leaves (ok : Accounted maxActive s) : first ∉ rest := by
  have distinct := ok.wait_nodup
  rw [queue] at distinct
  exact (List.nodup_cons.mp distinct).1

/-- One connection more is active when the first of those that wait is activated. -/
theorem Accounted.activeCount_first (ok : Accounted maxActive s) :
    s.activeCount + 1 = s.accepted.countP (fun d => decide (d ∉ s.lost) &&
      Function.update s.active first true d) := by
  have firstLive := ok.first_live queue
  apply countP_clear ok.acceptedNodup firstLive.1
  · simp [firstLive.2]
  · simp [ok.idle first (Server.first_mem queue)]
  · intro d different
    rw [Function.update_of_ne different]

/-- Those that wait after the first are the ones that are not greeted yet. -/
theorem Accounted.waiting_first (ok : Accounted maxActive s) {active : ι → Bool}
    (retired : Retired s active c active' lost') (absent : c ∉ s.wait) (d : ι) :
    d ∈ rest ↔ (d ∈ s.accepted ∧ d ∉ lost') ∧ d ∉ s.greeted ++ [first] := by
  have before := ok.waiting_retired retired absent d
  rw [queue] at before
  by_cases same : d = first
  · subst same
    simp [ok.first_leaves queue]
  · simpa [same] using before

end First

/-- The slot of an active connection goes to the first of those that wait. -/
theorem Accounted.handOver (ok : Accounted maxActive s) (live : s.Live c)
    (set : s.active c = true) {first : ι} {rest : List ι} (queue : s.wait = first :: rest)
    (retired : Retired s (Function.update s.active first true) c active' lost') :
    Accounted maxActive { s with
      wait := rest
      active := active'
      paused := Function.update s.paused first false
      resumed := s.resumed ++ [first]
      lost := lost'
      greeted := s.greeted ++ [first] } := by
  have absent := ok.not_waiting_of_active set
  have other : c ≠ first := fun same => absent (same ▸ Server.first_mem queue)
  have leaves := ok.first_leaves queue
  refine ⟨ok.acceptedNodup, ?_, ok.waiting_first queue retired absent, ?_, ?_,
    ⟨?_, retired.known⟩, ?_, ok.bounded, ?_⟩
  · have order := ok.order
    rw [queue] at order
    simpa using order
  · intro d member
    change d ∈ rest at member
    have notFirst : d ≠ first := fun same => leaves (same ▸ member)
    have queued : d ∈ s.wait := by rw [queue]; exact List.mem_cons_of_mem _ member
    have notSelf : d ≠ c := fun same => absent (same ▸ queued)
    change active' d = false
    rw [(retired.elsewhere d notSelf).1, Function.update_of_ne notFirst]
    exact ok.idle d queued
  · intro d inside
    change Function.update s.paused first false d = true ↔ d ∈ rest
    by_cases same : d = first
    · subst same
      simp [leaves]
    · rw [Function.update_of_ne same,
        ok.paused d ⟨inside.1, fun lost => inside.2 (retired.kept lost)⟩, queue]
      simp [same]
  · intro d member
    rcases List.mem_append.mp member with before | last
    · exact ok.known.1 before
    · rw [List.mem_singleton.mp last]
      exact (ok.first_live queue).1
  · -- one connection retires and another takes its place
    have gained := ok.activeCount_first queue
    have fewer := ok.activeCount_retired live retired
      (by rw [Function.update_of_ne other]; exact set)
    have count := ok.counted
    simp only [Server.activeCount] at gained count ⊢
    omega
  · intro _
    exact ok.full (by rw [queue]; exact List.cons_ne_nil _ _)

/-- A connection without a slot that is lost leaves the queue, when it is still in it. -/
theorem Accounted.leave (ok : Accounted maxActive s) (live : s.Live c)
    (clear : s.active c = false) :
    Accounted maxActive { s with wait := s.wait.erase c, lost := s.lost ++ [c] } := by
  have distinct := ok.wait_nodup
  refine ⟨ok.acceptedNodup, ?_, ?_, ?_, ?_, ⟨ok.known.1, ?_⟩, ?_, ok.bounded, ?_⟩
  · exact ((List.Sublist.refl s.resumed).append List.erase_sublist).trans ok.order
  · intro d
    have before := ok.waiting d
    change d ∈ s.wait.erase c ↔ (d ∈ s.accepted ∧ d ∉ s.lost ++ [c]) ∧ d ∉ s.greeted
    rw [distinct.mem_erase_iff, before]
    simp only [Server.Live, List.mem_append, List.mem_singleton]
    tauto
  · intro d member
    exact ok.idle d (List.mem_of_mem_erase member)
  · intro d inside
    have notLost : d ∉ s.lost := fun lost => inside.2 (List.mem_append_left _ lost)
    have different : d ≠ c := by
      rintro rfl
      exact inside.2 (List.mem_append_right _ (List.mem_singleton_self d))
    change s.paused d = true ↔ d ∈ s.wait.erase c
    rw [ok.paused d ⟨inside.1, notLost⟩, distinct.mem_erase_iff]
    simp [different]
  · exact (Retired.lost ok live s.active).known
  · have same : s.accepted.countP (fun d => decide (d ∉ s.lost ++ [c]) && s.active d) =
        s.accepted.countP (fun d => decide (d ∉ s.lost) && s.active d) := by
      apply List.countP_congr
      intro d _
      by_cases equal : d = c
      · simp [equal, clear]
      · simp [equal]
    have count := ok.counted
    simp only [Server.activeCount] at count ⊢
    rw [same]
    exact count
  · intro someone
    apply ok.full
    intro empty
    apply someone
    change s.wait.erase c = []
    rw [empty]
    rfl

theorem isDone_release (set : s.active c = true) (nobody : s.wait = []) :
    isDone c (s.active c) s = { s with nActive := s.nActive - 1 } := by
  simp [isDone, set, nobody]

theorem isDone_handOver (set : s.active c = true) {first : ι} {rest : List ι}
    (queue : s.wait = first :: rest) :
    isDone c (s.active c) s = { s with
      wait := rest
      active := Function.update s.active first true
      paused := Function.update s.paused first false
      resumed := s.resumed ++ [first]
      greeted := s.greeted ++ [first] } := by
  simp [isDone, set, queue, connectionMade]

theorem Accounted.done (ok : Accounted maxActive s) (live : s.Live c)
    (flows : s.paused c = false) : Accounted maxActive (step maxActive s (.done c)) := by
  change Accounted maxActive (recvDone c s)
  by_cases set : s.active c = true
  · cases queue : s.wait with
    | nil =>
      simp only [recvDone, isDone_release set queue]
      exact ok.release live set queue (Retired.cleared ok s.active)
    | cons first rest =>
      simp only [recvDone, isDone_handOver set queue]
      exact ok.handOver live set queue (Retired.cleared ok _)
  · -- a second `Upload Done`: the connection neither holds a slot nor waits for one
    have clear : s.active c = false := by simpa using set
    have absent : c ∉ s.wait := by
      intro member
      rw [(ok.paused c live).mpr member] at flows
      cases flows
    have unchanged : Function.update s.active c false = s.active := by
      rw [← clear]
      exact Function.update_eq_self c s.active
    have ran : recvDone c s = s := by
      simp [recvDone, isDone, clear, absent, unchanged]
    rw [ran]
    exact ok

theorem Accounted.lose (ok : Accounted maxActive s) (live : s.Live c) :
    Accounted maxActive (step maxActive s (.lose c)) := by
  change Accounted maxActive (connectionLost c s)
  by_cases set : s.active c = true
  · cases queue : s.wait with
    | nil =>
      simp only [connectionLost, isDone_release set queue]
      exact ok.release live set queue (Retired.lost ok live s.active)
    | cons first rest =>
      simp only [connectionLost, isDone_handOver set queue]
      exact ok.handOver live set queue (Retired.lost ok live _)
  · have clear : s.active c = false := by simpa using set
    have ran : connectionLost c s =
        { s with wait := s.wait.erase c, lost := s.lost ++ [c] } := by
      by_cases member : c ∈ s.wait
      · simp [connectionLost, isDone, clear, member]
      · simp [connectionLost, isDone, clear, member, List.erase_of_not_mem member]
    rw [ran]
    exact ok.leave live clear

end Leave

theorem Accounted.step {maxActive : Nat} {s : Server ι} (ok : Accounted maxActive s)
    (e : Event ι) (enabled : Enabled s e) : Accounted maxActive (step maxActive s e) := by
  cases e with
  | accept c => exact ok.accept enabled
  | done c => exact ok.done enabled.1 enabled.2
  | lose c => exact ok.lose enabled

theorem Accounted.reachable {maxActive : Nat} {s : Server ι} (run : Reachable maxActive s) :
    Accounted maxActive s := by
  induction run with
  | start => exact Accounted.start maxActive
  | next e _ enabled ih => exact ih.step e enabled

/-- What the upload slots promise. A connection is activated when it is sent the greeting. -/
structure SlotAccounting (maxActive : Nat) (s : Server ι) : Prop where
  nonneg : 0 ≤ s.nActive
  bounded : s.nActive ≤ maxActive
  counted : s.nActive = s.activeCount
  waiting : ∀ c, c ∈ s.wait ↔ s.Live c ∧ c ∉ s.greeted
  waitNodup : s.wait.Nodup
  waitOrder : s.wait.Sublist s.accepted
  full : s.wait ≠ [] → s.nActive = maxActive
  resumedOnce : s.resumed.Nodup
  resumedOrder : s.resumed.Sublist s.accepted
  /-- whoever is resumed was accepted before everyone who still waits -/
  resumedFirst : (s.resumed ++ s.wait).Sublist s.accepted

/-- In every run of connection events the slots are accounted for. -/
theorem upload_slots_accounted (maxActive : Nat) (s : Server ι)
    (run : Reachable maxActive s) : SlotAccounting maxActive s := by
  have ok := Accounted.reachable run
  have count := ok.counted
  have resumedOrder := (List.sublist_append_left s.resumed s.wait).trans ok.order
  exact {
    nonneg := by omega
    bounded := ok.bounded
    counted := count
    waiting := ok.waiting
    waitNodup := ok.wait_nodup
    waitOrder := ok.wait_order
    full := ok.full
    resumedOnce := resumedOrder.nodup ok.acceptedNodup
    resumedOrder := resumedOrder
    resumedFirst := ok.order }

/-- One slot: the second connection takes it over from the first, and the third still waits. -/
theorem upload_slots_accounted_handOver :
    let s := [Event.accept 1, .accept 2, .accept 3, .done 1, .lose 1].foldl (step 1) ({} : Server Nat)
    SlotAccounting 1 s ∧ s.resumed = [2] ∧ s.wait = [3] := by
  refine ⟨upload_slots_accounted 1 _ ?_, by decide, by decide⟩
  apply Reachable.next (.lose 1) _ (by constructor <;> decide)
  apply Reachable.next (.done 1) _ (by refine ⟨⟨?_, ?_⟩, ?_⟩ <;> decide)
  apply Reachable.next (.accept 3) _ (by change 3 ∉ _; decide)
  apply Reachable.next (.accept 2) _ (by change 2 ∉ _; decide)
  exact Reachable.next (.accept 1) .start (by change 1 ∉ _; decide)

end Recsync.Recast
