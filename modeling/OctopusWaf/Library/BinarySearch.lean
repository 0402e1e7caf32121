import Mathlib.Tactic

/-! The search for the first index at which a test fails, by halving an interval. -/
namespace CMachine

/-- `while (left < right)` with the middle as next bound, for at most so many rounds. -/
def firstNot (below : ℕ → Bool) : (n left right : ℕ) → ℕ
  | 0, left, _ => left
  | n + 1, left, right =>
    if left < right then
      let pos := (left + right) / 2
      if below pos then firstNot below n (pos + 1) right else firstNot below n left pos
    else left

variable {below below' : ℕ → Bool}

theorem firstNot_bounds {n left right : ℕ} (h : left ≤ right) :
    left ≤ firstNot below n left right ∧ firstNot below n left right ≤ right := by
  induction n generalizing left right with
  | zero => exact ⟨le_rfl, h⟩
  | succ n ih =>
    rw [firstNot]
    dsimp only
    split_ifs with hlt hb
    · have hi := @ih ((left + right) / 2 + 1) right (by omega)
      exact ⟨by omega, hi.2⟩
    · have hi := @ih left ((left + right) / 2) (by omega)
      exact ⟨hi.1, by omega⟩
    · exact ⟨le_rfl, h⟩

/-- Only indices of the interval are tested. -/
theorem firstNot_congr {n left right : ℕ}
    (h : ∀ i, left ≤ i → i < right → below i = below' i) :
    firstNot below n left right = firstNot below' n left right := by
  induction n generalizing left right with
  | zero => rfl
  | succ n ih =>
    rw [firstNot, firstNot]
    dsimp only
    split_ifs with hlt hb hb' hb'
    · exact ih fun i hi hr => h i (by omega) hr
    · rw [h _ (by omega) (by omega)] at hb
      exact absurd hb hb'
    · rw [h _ (by omega) (by omega)] at hb
      exact absurd hb' hb
    · exact ih fun i hi hr => h i hi (by omega)
    · rfl

/-- On a test that never holds again once it has failed, the interval shrinks to the
first failure, or to its right end. -/
theorem firstNot_spec {n left right : ℕ} (hn : right - left ≤ n) (h : left ≤ right)
    (hmono : ∀ i j, i ≤ j → below j = true → below i = true) :
    (∀ i, left ≤ i → i < firstNot below n left right → below i = true) ∧
      (firstNot below n left right < right → below (firstNot below n left right) = false) := by
  induction n generalizing left right with
  | zero =>
    obtain rfl : left = right := by omega
    exact ⟨fun i hi hlt => absurd hlt (not_lt.mpr hi), fun hlt => absurd hlt (lt_irrefl _)⟩
  | succ n ih =>
    rw [firstNot]
    dsimp only
    split_ifs with hlt hb
    · obtain ⟨hlow, hhigh⟩ := @ih ((left + right) / 2 + 1) right (by omega) (by omega)
      refine ⟨fun i hi hr => ?_, hhigh⟩
      rcases Nat.lt_or_ge ((left + right) / 2) i with hgt | hle
      · exact hlow i hgt hr
      · exact hmono i _ hle hb
    · obtain ⟨hlow, hhigh⟩ := @ih left ((left + right) / 2) (by omega) (by omega)
      refine ⟨hlow, fun hr => ?_⟩
      have hle := (@firstNot_bounds below n left ((left + right) / 2) (by omega)).2
      rcases hle.lt_or_eq with hlt' | heq
      · exact hhigh hlt'
      · rw [heq]
        simpa using hb
    · obtain rfl : left = right := by omega
      exact ⟨fun i hi hr => absurd hr (not_lt.mpr hi), fun hr => absurd hr (lt_irrefl _)⟩

end CMachine
