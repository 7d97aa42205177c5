import Mathlib.Init

set_option autoImplicit false

namespace Py

/-- The exceptions that a modelled function can raise. -/
inductive Error where
  | keyError
  | valueError
  | indexError
  | requestException
  | cancelledError
  deriving DecidableEq, Repr

/-- A method that mutates an object of type `σ` and may raise. The object keeps
the changes made before the exception. -/
abbrev Program (σ α : Type) := EStateM Error σ α

namespace Program

variable {σ α β : Type}

/-- The object after the call, whether it returned or raised. -/
def after (m : Program σ α) (s : σ) : σ :=
  match m s with
  | .ok _ s' => s'
  | .error _ s' => s'

theorem get_bind (next : σ → Program σ α) (s : σ) :
    ((get : Program σ σ) >>= next) s = next s s := rfl

theorem modify_bind (f : σ → σ) (next : PUnit → Program σ α) (s : σ) :
    ((modify f : Program σ PUnit) >>= next) s = next ⟨⟩ (f s) := rfl

/-- A call that returns hands its object on. -/
theorem bind_of_ok {m : Program σ α} {s s' : σ} {a : α} (ran : m s = .ok a s')
    (next : α → Program σ β) : (m >>= next) s = next a s' := by
  change EStateM.bind m next s = _
  simp only [EStateM.bind, ran]

/-- A call that raises ends the method. -/
theorem bind_of_error {m : Program σ α} {s s' : σ} {e : Error} (raised : m s = .error e s')
    (next : α → Program σ β) : (m >>= next) s = .error e s' := by
  change EStateM.bind m next s = _
  simp only [EStateM.bind, raised]

/-- Where a call that returned has passed through. -/
theorem of_bind_ok {m : Program σ α} {next : α → Program σ β} {s s' : σ} {b : β}
    (ran : (m >>= next) s = .ok b s') : ∃ a t, m s = .ok a t ∧ next a t = .ok b s' := by
  change EStateM.bind m next s = _ at ran
  unfold EStateM.bind at ran
  split at ran
  · rename_i a t first
    exact ⟨a, t, first, ran⟩
  · cases ran

theorem forM_cons_of_ok {body : α → Program σ PUnit} {x : α} {rest : List α} {s s' : σ}
    (ran : body x s = .ok ⟨⟩ s') : (x :: rest).forM body s = rest.forM body s' :=
  bind_of_ok ran _

/-- The call keeps `I`, also when it raises. -/
def Maintains (I : σ → Prop) (m : Program σ α) : Prop := ∀ s, I s → I (m.after s)

theorem Maintains.bind {I : σ → Prop} {m : Program σ α} {next : α → Program σ β}
    (first : Maintains I m) (second : ∀ a, Maintains I (next a)) : Maintains I (m >>= next) := by
  intro s start
  have middle := first s start
  change I (Program.after (EStateM.bind m next) s)
  unfold Program.after EStateM.bind at *
  cases ran : m s with
  | ok a s' =>
    rw [ran] at middle
    exact second a s' middle
  | error e s' =>
    rw [ran] at middle
    exact middle

theorem Maintains.pure {I : σ → Prop} (a : α) : Maintains I (Pure.pure a : Program σ α) :=
  fun _ start => start

theorem Maintains.forM {I : σ → Prop} {body : α → Program σ PUnit} {items : List α}
    (step : ∀ x ∈ items, Maintains I (body x)) : Maintains I (items.forM body) := by
  induction items with
  | nil => exact Maintains.pure PUnit.unit
  | cons x rest ih =>
    exact (step x (by simp)).bind fun _ => ih fun y member => step y (by simp [member])

end Program

section Except

variable {ε α β : Type}

/-- What a computation that returns has passed through. -/
theorem bind_ok {x : Except ε α} {next : α → Except ε β} {b : β} (ran : x >>= next = .ok b) :
    ∃ a, x = .ok a ∧ next a = .ok b := by
  cases x with
  | error e => cases ran
  | ok a => exact ⟨a, rfl, ran⟩

theorem bind_eq_ok_iff {x : Except ε α} {next : α → Except ε β} {b : β} :
    x >>= next = .ok b ↔ ∃ a, x = .ok a ∧ next a = .ok b := by
  constructor
  · exact bind_ok
  · rintro ⟨a, rfl, ran⟩
    exact ran

theorem map_eq_ok_iff {x : Except ε α} {f : α → β} {b : β} :
    f <$> x = .ok b ↔ ∃ a, x = .ok a ∧ f a = b := by
  cases x with
  | error e => simp [Functor.map, Except.map]
  | ok a => simp [Functor.map, Except.map]

theorem mem_of_mapM_ok {f : α → Except ε β} {l : List α} {result : List β}
    (ran : l.mapM f = .ok result) : ∀ b ∈ result, ∃ a ∈ l, f a = .ok b := by
  induction l generalizing result with
  | nil =>
    rw [List.mapM_nil] at ran
    rw [← Except.ok.inj ran]
    simp
  | cons a rest ih =>
    rw [List.mapM_cons] at ran
    obtain ⟨first, head, ran⟩ := bind_ok ran
    obtain ⟨others, tail, ran⟩ := bind_ok ran
    rw [← Except.ok.inj ran]
    intro b member
    rcases List.mem_cons.mp member with rfl | later
    · exact ⟨a, by simp, head⟩
    · obtain ⟨source, inside, made⟩ := ih tail b later
      exact ⟨source, by simp [inside], made⟩

/-- Whatever the computation raises is of this kind. -/
def RaisesOnly (P : ε → Prop) (x : Except ε α) : Prop := ∀ e, x = .error e → P e

theorem RaisesOnly.ok {P : ε → Prop} (a : α) : RaisesOnly P (.ok a : Except ε α) := nofun

theorem RaisesOnly.error {P : ε → Prop} {e : ε} (kind : P e) :
    RaisesOnly P (.error e : Except ε α) := by
  rintro e' raised
  obtain rfl := Except.error.inj raised
  exact kind

theorem RaisesOnly.bind {P : ε → Prop} {x : Except ε α} {next : α → Except ε β}
    (first : RaisesOnly P x) (second : ∀ a, RaisesOnly P (next a)) :
    RaisesOnly P (x >>= next) := by
  intro e raised
  cases x with
  | error e' =>
    obtain rfl : e' = e := Except.error.inj raised
    exact first e' rfl
  | ok a => exact second a e raised

theorem RaisesOnly.mapM {P : ε → Prop} {f : α → Except ε β} (each : ∀ a, RaisesOnly P (f a))
    (l : List α) : RaisesOnly P (l.mapM f) := by
  induction l with
  | nil =>
    rw [List.mapM_nil]
    exact .ok []
  | cons a rest ih =>
    rw [List.mapM_cons]
    exact (each a).bind fun b => ih.bind fun later => .ok (b :: later)

end Except

end Py
