import OctopusWaf.Library.Outcome

/-! Two computations side by side: a relation between their values wherever both return, with
the rule of each construct. Loops may be given different numbers of rounds. -/
namespace CMachine

variable {ε α β γ δ σ τ : Type} {R : α → β → Prop} {S : γ → δ → Prop}

/-- If both computations return, their values are related. -/
structure Agree (R : α → β → Prop) (x : Except ε α) (y : Except ε β) : Prop where
  values : ∀ a b, x = .ok a → y = .ok b → R a b

theorem agree_ok {a : α} {b : β} (h : R a b) : Agree R (.ok a : Except ε α) (.ok b) := by
  constructor
  intro a' b' ha hb
  obtain rfl := Except.ok.inj ha
  obtain rfl := Except.ok.inj hb
  exact h

/-- A computation agrees with itself. -/
theorem agree_refl (x : Except ε α) : Agree Eq x x := by
  constructor
  intro a b ha hb
  exact Except.ok.inj (ha.symm.trans hb)

theorem agree_error {e : ε} {y : Except ε β} : Agree R (.error e) y :=
  ⟨fun _ _ h => nomatch h⟩

theorem error_agree {e : ε} {x : Except ε α} : Agree R x (.error e) :=
  ⟨fun _ _ _ h => nomatch h⟩

theorem Agree.mono {R' : α → β → Prop} {x : Except ε α} {y : Except ε β} (h : Agree R x y)
    (hR : ∀ a b, R a b → R' a b) : Agree R' x y :=
  ⟨fun a b ha hb => hR a b (h.values a b ha hb)⟩

theorem Agree.bind {x : Except ε α} {y : Except ε β} {f : α → Except ε γ} {g : β → Except ε δ}
    (h : Agree R x y) (hfg : ∀ a b, R a b → Agree S (f a) (g b)) :
    Agree S (x >>= f) (y >>= g) := by
  constructor
  intro c d hc hd
  obtain ⟨a, ha, hc⟩ := bind_ok hc
  obtain ⟨b, hb, hd⟩ := bind_ok hd
  exact (hfg a b (h.values a b ha hb)).values c d hc hd

/-- The same computation in front of both. -/
theorem Agree.same {x y : Except ε α} {f : α → Except ε γ} {g : α → Except ε δ} (h : y = x)
    (hfg : ∀ a, Agree S (f a) (g a)) : Agree S (x >>= f) (y >>= g) := by
  subst h
  apply (agree_refl y).bind
  rintro a _ rfl
  exact hfg a

theorem andAlso_congr {c d : Prop} [Decidable c] [Decidable d] {x y : Except ε Bool}
    (hcd : c ↔ d) (h : x = y) : andAlso c x = andAlso d y :=
  if_congr hcd h rfl

theorem orElse_congr {c d : Prop} [Decidable c] [Decidable d] {x y : Except ε Bool}
    (hcd : c ↔ d) (h : x = y) : orElse c x = orElse d y :=
  if_congr hcd rfl h

theorem Agree.map {x : Except ε α} {y : Except ε β} {f : α → γ} {g : β → δ}
    (h : Agree (fun a b => S (f a) (g b)) x y) : Agree S (f <$> x) (g <$> y) := by
  constructor
  intro c d hc hd
  obtain ⟨a, ha, hc⟩ := bind_ok hc
  obtain ⟨b, hb, hd⟩ := bind_ok hd
  obtain rfl := Except.ok.inj hc
  obtain rfl := Except.ok.inj hd
  exact h.values a b ha hb

/-- A branch that is decided alike on both sides. -/
theorem Agree.ite {c d : Prop} [Decidable c] [Decidable d] {x x' : Except ε α} {y y' : Except ε β}
    (hcd : c ↔ d) (ht : c → Agree R x y) (hf : ¬ c → Agree R x' y') :
    Agree R (if c then x else x') (if d then y else y') := by
  by_cases hc : c
  · rw [if_pos hc, if_pos (hcd.mp hc)]
    exact ht hc
  · rw [if_neg hc, if_neg fun hd => hc (hcd.mpr hd)]
    exact hf hc

/-- Both loops leave with related values, or go on in related states. -/
def Steps (I : σ → τ → Prop) (R : α → β → Prop) : α ⊕ σ → β ⊕ τ → Prop
  | .inl a, .inl b => R a b
  | .inr s, .inr t => I s t
  | _, _ => False

theorem Steps.weaken {I J : σ → τ → Prop} {r : α ⊕ σ} {u : β ⊕ τ} (h : Steps I R r u)
    (hIJ : ∀ s t, I s t → J s t) : Steps J R r u := by
  cases r with
  | inl a =>
    cases u with
    | inl b => exact h
    | inr t => exact h
  | inr s =>
    cases u with
    | inl b => exact h
    | inr t => exact hIJ s t h

theorem agree_again {I : σ → τ → Prop} {s : σ} {t : τ} (h : I s t) :
    Agree (Steps I R) (.ok (.inr s) : Except ε (α ⊕ σ)) (.ok (.inr t)) :=
  agree_ok h

/-- Loops whose rounds go side by side, however many rounds they are given. -/
theorem Agree.rounds {exhausted : ε} {I : σ → τ → Prop} {f : σ → Except ε (α ⊕ σ)}
    {g : τ → Except ε (β ⊕ τ)} (hround : ∀ s t, I s t → Agree (Steps I R) (f s) (g t))
    {n m : ℕ} {s : σ} {t : τ} (h : I s t) :
    Agree R (CMachine.rounds exhausted f n s) (CMachine.rounds exhausted g m t) := by
  induction n generalizing m s t with
  | zero => exact agree_error
  | succ n ih =>
    cases m with
    | zero => exact error_agree
    | succ m =>
      apply (hround s t h).bind
      intro r u hru
      cases r with
      | inl a =>
        cases u with
        | inl b => exact agree_ok hru
        | inr t => exact hru.elim
      | inr s =>
        cases u with
        | inl b => exact hru.elim
        | inr t => exact ih hru

/-- It is enough that the first rounds agree. -/
theorem Agree.first_round {exhausted : ε} {I : σ → τ → Prop} {f : σ → Except ε (α ⊕ σ)}
    {g : τ → Except ε (β ⊕ τ)} (hround : ∀ s t, I s t → Agree (Steps I R) (f s) (g t))
    {n m : ℕ} {s : σ} {t : τ} (h : Agree (Steps I R) (f s) (g t)) :
    Agree R (CMachine.rounds exhausted f n s) (CMachine.rounds exhausted g m t) := by
  have hnext (s' : σ) (t' : τ) : s' = s ∧ t' = t ∨ I s' t' →
      Agree (Steps (fun s' t' => s' = s ∧ t' = t ∨ I s' t') R) (f s') (g t') := by
    rintro (⟨rfl, rfl⟩ | hst)
    · exact h.mono fun r u hru => hru.weaken fun _ _ => .inr
    · exact (hround s' t' hst).mono fun r u hru => hru.weaken fun _ _ => .inr
  exact Agree.rounds hnext (.inl ⟨rfl, rfl⟩)

end CMachine
