import OctopusWaf.Library.CMachine

/-! Total correctness of computations that may stop early: the rule of each construct, and
of loops with an invariant and a measure. A loop is given the number of rounds it may take,
so that it can be run; the rule says when that number is large enough. -/
namespace CMachine

variable {ε α β σ : Type} {P Q : α → Prop}

/-- The computation returns, with a value that has the property. -/
def Returns (x : Except ε α) (Q : α → Prop) : Prop := ∃ a, x = .ok a ∧ Q a

@[simp] theorem returns_ok {a : α} : Returns (.ok a : Except ε α) Q ↔ Q a := by
  constructor
  · rintro ⟨b, hb, hQ⟩
    rwa [Except.ok.inj hb]
  · exact fun h => ⟨a, rfl, h⟩

@[simp] theorem returns_pure {a : α} : Returns (pure a : Except ε α) Q ↔ Q a := returns_ok

theorem Returns.mono {x : Except ε α} (h : Returns x P) (hPQ : ∀ a, P a → Q a) :
    Returns x Q := by
  obtain ⟨a, ha, hP⟩ := h
  exact ⟨a, ha, hPQ a hP⟩

theorem Returns.bind {x : Except ε α} {f : α → Except ε β} {R : β → Prop}
    (h : Returns x P) (hf : ∀ a, P a → Returns (f a) R) : Returns (x >>= f) R := by
  obtain ⟨a, rfl, hP⟩ := h
  exact hf a hP

theorem Returns.map {x : Except ε α} {f : α → β} {R : β → Prop}
    (h : Returns x fun a => R (f a)) : Returns (f <$> x) R := by
  obtain ⟨a, rfl, hR⟩ := h
  exact ⟨f a, rfl, hR⟩

theorem Returns.ite {c : Prop} [Decidable c] {x y : Except ε α} (hx : c → Returns x Q)
    (hy : ¬ c → Returns y Q) : Returns (if c then x else y) Q := by
  split_ifs with hc
  · exact hx hc
  · exact hy hc

/-- What a computation has returned has the properties it returns with. -/
theorem Returns.of_ok {x : Except ε α} {a : α} (h : Returns x Q) (hx : x = .ok a) : Q a := by
  obtain ⟨b, hb, hQ⟩ := h
  rwa [Except.ok.inj (hx.symm.trans hb)]

/-- A list of computations that all return. -/
theorem mapM_ok {f : α → Except ε β} {g : α → β} {l : List α} (h : ∀ a ∈ l, f a = .ok (g a)) :
    l.mapM f = .ok (l.map g) := by
  induction l with
  | nil => rfl
  | cons a l ih =>
    rw [List.mapM_cons, h a List.mem_cons_self, ih fun b hb => h b (List.mem_cons_of_mem a hb)]
    rfl

/-- `c && x`, where `x` is evaluated only if `c` holds. -/
def andAlso (c : Prop) [Decidable c] (x : Except ε Bool) : Except ε Bool :=
  if c then x else .ok false

/-- `c || x`, where `x` is evaluated only if `c` does not hold. -/
def orElse (c : Prop) [Decidable c] (x : Except ε Bool) : Except ε Bool :=
  if c then .ok true else x

theorem Returns.andAlso {c : Prop} [Decidable c] {x : Except ε Bool} {R : Bool → Prop}
    (hx : c → Returns x R) (hf : ¬ c → R false) : Returns (CMachine.andAlso c x) R :=
  Returns.ite hx fun hc => returns_ok.mpr (hf hc)

theorem Returns.orElse {c : Prop} [Decidable c] {x : Except ε Bool} {R : Bool → Prop}
    (ht : c → R true) (hx : ¬ c → Returns x R) : Returns (CMachine.orElse c x) R :=
  Returns.ite (fun hc => returns_ok.mpr (ht hc)) hx

/-- At most `n` rounds of a loop whose body leaves with a value or goes on with a state. -/
def rounds (exhausted : ε) (body : σ → Except ε (β ⊕ σ)) : ℕ → σ → Except ε β
  | 0, _ => .error exhausted
  | n + 1, s => body s >>= Sum.elim .ok (rounds exhausted body n)

theorem rounds_leave {exhausted : ε} {body : σ → Except ε (β ⊕ σ)} {s : σ} {b : β}
    (h : body s = .ok (.inl b)) (n : ℕ) : rounds exhausted body (n + 1) s = .ok b := by
  simp only [rounds, h, ok_bind, Sum.elim_inl]

theorem rounds_again {exhausted : ε} {body : σ → Except ε (β ⊕ σ)} {s t : σ}
    (h : body s = .ok (.inr t)) (n : ℕ) :
    rounds exhausted body (n + 1) s = rounds exhausted body n t := by
  simp only [rounds, h, ok_bind, Sum.elim_inr]

/-- What a round leaves: the result, or a state that keeps the invariant and is smaller. -/
def Descends (I : σ → Prop) (m : σ → ℕ) (Q : β → Prop) (s : σ) : β ⊕ σ → Prop :=
  Sum.elim Q fun t => I t ∧ m t < m s

theorem Descends.of_le {I : σ → Prop} {m : σ → ℕ} {s t : σ} {r : β ⊕ σ} {R : β → Prop}
    (h : Descends I m R s r) (hle : m s ≤ m t) : Descends I m R t r := by
  cases r with
  | inl b => exact (show R b from h)
  | inr u => exact ⟨h.1, h.2.trans_le hle⟩

/-- A loop whose rounds keep the invariant and lower the measure leaves in time. -/
theorem returns_rounds {exhausted : ε} {body : σ → Except ε (β ⊕ σ)} {I : σ → Prop}
    {m : σ → ℕ} {R : β → Prop} (hround : ∀ s, I s → Returns (body s) (Descends I m R s))
    {n : ℕ} {s : σ} (hs : I s) (hn : m s < n) : Returns (rounds exhausted body n s) R := by
  induction n generalizing s with
  | zero => omega
  | succ n ih =>
    refine (hround s hs).bind fun r hr => ?_
    cases r with
    | inl b => exact returns_ok.mpr hr
    | inr t => exact ih hr.1 (by have := hr.2; omega)

end CMachine
