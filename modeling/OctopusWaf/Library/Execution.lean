import Mathlib.Logic.Relation

/-! Runs of a machine whose steps take a label, may be forbidden by a guard, and may fail.
Only steps that complete lead to a further state. -/
namespace Execution

variable {σ α ε : Type} (step : σ → α → Except ε σ) (guard : σ → α → Prop)

/-- One completed step with an admitted label. -/
def Next (s t : σ) : Prop := ∃ a, guard s a ∧ step s a = .ok t

/-- Any number of them. -/
def Reaches : σ → σ → Prop := Relation.ReflTransGen (Next step guard)

variable {step guard} {s t u : σ}

theorem Reaches.refl (s : σ) : Reaches step guard s s := Relation.ReflTransGen.refl

theorem Reaches.tail {a : α} (h : Reaches step guard s t) (hg : guard t a)
    (ht : step t a = .ok u) : Reaches step guard s u :=
  Relation.ReflTransGen.tail h ⟨a, hg, ht⟩

theorem Reaches.trans (h : Reaches step guard s t) (h' : Reaches step guard t u) :
    Reaches step guard s u := Relation.ReflTransGen.trans h h'

/-- What every admitted step keeps holds after every run. -/
theorem Reaches.invariant {I : σ → Prop} (h : Reaches step guard s t) (h0 : I s)
    (hstep : ∀ s a t, I s → guard s a → step s a = .ok t → I t) : I t := by
  induction h with
  | refl => exact h0
  | tail _ hn ih =>
    obtain ⟨a, hg, ht⟩ := hn
    exact hstep _ a _ ih hg ht

/-- The same where the step may also use what is known of every reached state. -/
theorem Reaches.induct {I : σ → Prop} (h : Reaches step guard s t) (h0 : I s)
    (hstep : ∀ t a u, Reaches step guard s t → I t → guard t a → step t a = .ok u → I u) :
    I t := by
  induction h with
  | refl => exact h0
  | tail hr hn ih =>
    obtain ⟨a, hg, ht⟩ := hn
    exact hstep _ a _ hr ih hg ht

/-- Fewer admitted labels, fewer runs. -/
theorem Reaches.mono {guard' : σ → α → Prop} (h : Reaches step guard s t)
    (hle : ∀ s a, guard s a → guard' s a) : Reaches step guard' s t := by
  induction h with
  | refl => exact .refl _
  | tail _ hn ih =>
    obtain ⟨a, hg, ht⟩ := hn
    exact ih.tail (hle _ a hg) ht

section Execute

variable (step guard) [∀ s a, Decidable (guard s a)]

/-- The labels taken in order, if every one is admitted and completes. -/
def execute (s : σ) : List α → Option σ
  | [] => some s
  | a :: as =>
    if guard s a then
      match step s a with
      | .ok t => execute t as
      | .error _ => none
    else none

variable {step guard}

theorem execute_reaches {as : List α} (h : execute step guard s as = some t) :
    Reaches step guard s t := by
  induction as generalizing s with
  | nil =>
    obtain rfl := Option.some.inj h
    exact .refl s
  | cons a as ih =>
    simp only [execute] at h
    by_cases hg : guard s a
    · rw [if_pos hg] at h
      cases hs : step s a with
      | error e => simp [hs] at h
      | ok u =>
        rw [hs] at h
        exact ((Reaches.refl s).tail hg hs).trans (ih h)
    · simp [hg] at h

end Execute

/-- A check of the state a schedule leads to is a check of a reached state. -/
theorem execute_any (step : σ → α → Except ε σ) (guard : σ → α → Prop)
    [∀ s a, Decidable (guard s a)] (s : σ) (as : List α) (p : σ → Bool)
    (h : (execute step guard s as).any p = true) : ∃ t, Reaches step guard s t ∧ p t = true := by
  cases ht : execute step guard s as with
  | none => simp [ht] at h
  | some t => exact ⟨t, execute_reaches ht, by simpa [ht] using h⟩

end Execution
