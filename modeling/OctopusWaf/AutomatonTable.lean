import OctopusWaf.DfaSearch
import OctopusWaf.Library.Traced
import Mathlib.Order.Bounds.Basic

/-! `write_tf` with its loops and the pattern bytes they read. Every entry of the table is the
longest border, and no read leaves the pattern. -/
namespace OctopusWaf
open CMachine CString StringSearch Traced

/-- The accesses are the indices of the pattern bytes that are read. -/
def compareBorderTrace (pat : List UInt8) (state fix : ℕ) : (left i : ℕ) → Traced ℕ ℕ
  | 0, i => pure i
  | left + 1, i => do
    touch i
    touch (state - fix + 1 + i)
    if readAt pat i ≠ readAt pat (state - fix + 1 + i) then pure i
    else compareBorderTrace pat state fix left (i + 1)

def fallBackTrace (pat : List UInt8) (state : ℕ) (x : ℤ) : ℕ → Traced ℕ ℕ
  | 0 => pure 0
  | fix + 1 => do
    touch fix
    if charInt (readAt pat fix) = x then do
      let i ← compareBorderTrace pat state (fix + 1) fix 0
      if i = fix then pure (fix + 1) else fallBackTrace pat state x fix
    else fallBackTrace pat state x fix

def NextMachineStateTrace (pat : List UInt8) (M state : ℕ) (x : ℤ) : Traced ℕ ℕ :=
  if state < M then do
    touch state
    if x = charInt (readAt pat state) then pure (state + 1) else fallBackTrace pat state x state
  else fallBackTrace pat state x state

/-- `for (x = 0; x < 256; ++x)`, from `x` on. -/
def fillRow (pat : List UInt8) (M state : ℕ) :
    (left x : ℕ) → (ℕ → ℕ → ℕ) → Traced ℕ (ℕ → ℕ → ℕ)
  | 0, _, TF => pure TF
  | left + 1, x, TF => do
    let next ← NextMachineStateTrace pat M state x
    fillRow pat M state left (x + 1) (Function.update TF state (Function.update (TF state) x next))

/-- `for (state = 0; state <= M; ++state)`, from `state` on. -/
def fillRows (pat : List UInt8) (M : ℕ) :
    (left state : ℕ) → (ℕ → ℕ → ℕ) → Traced ℕ (ℕ → ℕ → ℕ)
  | 0, _, TF => pure TF
  | left + 1, state, TF => do
    let row ← fillRow pat M state 256 0 TF
    fillRows pat M left (state + 1) row

/-- The array is not initialised, so `TF` is what the stack held before. -/
def write_tfTrace (pat : List UInt8) (M : ℕ) (TF : ℕ → ℕ → ℕ) : Traced ℕ (ℕ → ℕ → ℕ) :=
  fillRows pat M (M + 1) 0 TF

section Results

variable (pat : List UInt8)

theorem compareBorderTrace_result (state fix left i : ℕ) :
    (compareBorderTrace pat state fix left i).result =
      .ok (compareBorder pat state fix left i) := by
  induction left generalizing i with
  | zero => rfl
  | succ left ih =>
    unfold compareBorderTrace compareBorder
    split_ifs with h
    · simp
    · simp [ih]

theorem fallBackTrace_result (state : ℕ) (x : ℤ) (n : ℕ) :
    (fallBackTrace pat state x n).result = .ok (fallBack pat state x n) := by
  induction n with
  | zero => rfl
  | succ fix ih =>
    unfold fallBackTrace fallBack
    by_cases hx : charInt (readAt pat fix) = x
    · by_cases hborder : compareBorder pat state (fix + 1) fix 0 = fix
      · simp [hx, hborder, compareBorderTrace_result]
      · simp [hx, hborder, compareBorderTrace_result, ih]
    · simp [hx, ih]

theorem NextMachineStateTrace_result (M state : ℕ) (x : ℤ) :
    (NextMachineStateTrace pat M state x).result = .ok (NextMachineState pat M state x) := by
  unfold NextMachineStateTrace NextMachineState
  by_cases hlt : state < M
  · by_cases hx : x = charInt (readAt pat state)
    · simp [hlt, ← hx]
    · simp [hlt, hx, fallBackTrace_result]
  · simp [hlt, fallBackTrace_result]

theorem ok_table {f g : ℕ → ℕ → ℕ} (h : ∀ s y, f s y = g s y) :
    (Except.ok f : Except Trap (ℕ → ℕ → ℕ)) = .ok g := congrArg Except.ok (funext₂ h)

/-- The inner loop writes the entries of one row. -/
theorem fillRow_result (M state left x : ℕ) (TF : ℕ → ℕ → ℕ) :
    (fillRow pat M state left x TF).result = .ok fun s y =>
      if s = state ∧ x ≤ y ∧ y < x + left then NextMachineState pat M s y else TF s y := by
  induction left generalizing x TF with
  | zero =>
    exact ok_table fun s y => (if_neg (by omega)).symm
  | succ left ih =>
    simp only [fillRow, result_bind, NextMachineStateTrace_result, ok_bind, ih]
    refine ok_table fun s y => ?_
    by_cases hs : s = state
    · subst hs
      by_cases hy : y = x
      · subst hy
        rw [if_neg (by omega), if_pos (by omega), Function.update_self, Function.update_self]
      · rw [Function.update_self, Function.update_of_ne hy]
        exact if_congr (by omega) rfl rfl
    · simp [hs]

theorem fillRows_result (M left state : ℕ) (TF : ℕ → ℕ → ℕ) :
    (fillRows pat M left state TF).result = .ok fun s y =>
      if state ≤ s ∧ s < state + left ∧ y < 256 then NextMachineState pat M s y else TF s y := by
  induction left generalizing state TF with
  | zero =>
    exact ok_table fun s y => (if_neg (by omega)).symm
  | succ left ih =>
    simp only [fillRows, result_bind, fillRow_result, ok_bind, ih]
    refine ok_table fun s y => ?_
    by_cases hs : s = state
    · subst hs
      rw [if_neg (by omega)]
      exact if_congr (by omega) rfl rfl
    · simp only [hs, false_and, if_false]
      exact if_congr (by omega) rfl rfl

/-- The loops fill the table, up to row `M`, and leave everything else. -/
theorem write_tfTrace_result (M : ℕ) (TF : ℕ → ℕ → ℕ) :
    (write_tfTrace pat M TF).result = .ok fun s y =>
      if s ≤ M ∧ y < 256 then write_tf pat M s y else TF s y := by
  rw [write_tfTrace, fillRows_result]
  exact ok_table fun s y => if_congr (by omega) rfl rfl

end Results

section Reads

variable {pat : List UInt8} {M state : ℕ}

theorem compareBorderTrace_within {fix left i : ℕ} (hi : i + left < fix) (hle : fix ≤ state)
    (hstate : state ≤ M) :
    (compareBorderTrace pat state fix left i).Within (· < M) := by
  induction left generalizing i with
  | zero => exact within_pure i
  | succ left ih =>
    simp only [compareBorderTrace, within_bind, within_touch, within_ite, within_pure,
      implies_true, true_and]
    exact ⟨by omega, fun _ _ => ⟨by omega, fun _ _ _ => ih (by omega)⟩⟩

theorem fallBackTrace_within {x : ℤ} {n : ℕ} (hn : n ≤ state) (hstate : state ≤ M) :
    (fallBackTrace pat state x n).Within (· < M) := by
  induction n with
  | zero => exact within_pure 0
  | succ fix ih =>
    have hrest := ih (by omega)
    simp only [fallBackTrace, within_bind, within_touch, within_ite, within_pure,
      implies_true, true_and]
    exact ⟨by omega, fun _ _ =>
      ⟨fun _ => ⟨compareBorderTrace_within (by omega) hn hstate, fun _ _ _ => hrest⟩,
        fun _ => hrest⟩⟩

theorem NextMachineStateTrace_within {x : ℤ} (hstate : state ≤ M) :
    (NextMachineStateTrace pat M state x).Within (· < M) := by
  have hback : (fallBackTrace pat state x state).Within (· < M) :=
    fallBackTrace_within le_rfl hstate
  simp only [NextMachineStateTrace, within_bind, within_touch, within_ite, within_pure,
    implies_true, true_and]
  exact ⟨fun hlt => ⟨hlt, fun _ _ _ => hback⟩, fun _ => hback⟩

theorem fillRow_within {left x : ℕ} {TF : ℕ → ℕ → ℕ} (hstate : state ≤ M) :
    (fillRow pat M state left x TF).Within (· < M) := by
  induction left generalizing x TF with
  | zero => exact within_pure TF
  | succ left ih =>
    exact within_bind.mpr ⟨NextMachineStateTrace_within hstate, fun _ _ => ih⟩

theorem fillRows_within {left : ℕ} {TF : ℕ → ℕ → ℕ} (hstate : state + left ≤ M + 1) :
    (fillRows pat M left state TF).Within (· < M) := by
  induction left generalizing state TF with
  | zero => exact within_pure TF
  | succ left ih =>
    exact within_bind.mpr ⟨fillRow_within (by omega), fun _ _ => ih (by omega)⟩

end Reads

/-- The lengths, at most `state + 1` and `M`, of the pattern prefixes that end the first
`state` characters followed by `x`. -/
def borders (pat : List UInt8) (M state : ℕ) (x : ℤ) : Set ℕ :=
  {k | k ≤ min (state + 1) M ∧ charInts pat k <:+ charInts pat state ++ [x]}

theorem NextMachineState_isGreatest (pat : List UInt8) {M state : ℕ} (x : ℤ)
    (hstate : state ≤ M) : IsGreatest (borders pat M state x) (NextMachineState pat M state x) := by
  obtain ⟨hM, hsuffix, hmax⟩ := NextMachineState_spec pat x hstate
  have hlen := hsuffix.length_le
  simp only [length_charInts, List.length_append, List.length_singleton] at hlen
  constructor
  · exact ⟨le_min hlen hM, hsuffix⟩
  · rintro k ⟨hk, hborder⟩
    exact hmax k (hk.trans (min_le_right _ _)) (hk.trans (min_le_left _ _)) hborder

/-- For every pattern and every state up to `M`, the next state is the longest border, the
table holds it whatever it held before, and only the first `M` pattern bytes are read. -/
theorem automaton_table_exact (pat : List UInt8) {M state x : ℕ} (hstate : state ≤ M)
    (hx : x < 256) (TF : ℕ → ℕ → ℕ) :
    ((∃ next, (NextMachineStateTrace pat M state x).result = .ok next ∧
        IsGreatest (borders pat M state x) next) ∧
      (NextMachineStateTrace pat M state x).Within (· < M)) ∧
    (∃ table, (write_tfTrace pat M TF).result = .ok table ∧
        IsGreatest (borders pat M state x) (table state x)) ∧
      (write_tfTrace pat M TF).Within (· < M) := by
  have hgreatest := NextMachineState_isGreatest pat (x : ℤ) hstate
  refine ⟨⟨⟨_, NextMachineStateTrace_result pat M state x, hgreatest⟩,
    NextMachineStateTrace_within hstate⟩, ⟨_, write_tfTrace_result pat M TF, ?_⟩,
    fillRows_within (by omega)⟩
  rw [if_pos ⟨hstate, hx⟩]
  exact hgreatest

/-- After a full match of `aba` the automaton goes on from its border. -/
theorem automaton_table_after_match :
    ((∃ next, (NextMachineStateTrace (ascii "aba") 3 3 98).result = .ok next ∧
        IsGreatest (borders (ascii "aba") 3 3 98) next) ∧
      (NextMachineStateTrace (ascii "aba") 3 3 98).Within (· < 3)) ∧
    (∃ table, (write_tfTrace (ascii "aba") 3 fun _ _ => 0).result = .ok table ∧
        IsGreatest (borders (ascii "aba") 3 3 98) (table 3 98)) ∧
      (write_tfTrace (ascii "aba") 3 fun _ _ => 0).Within (· < 3) :=
  automaton_table_exact (ascii "aba") (x := 98) (le_refl 3) (by decide) fun _ _ => 0

example : NextMachineState (ascii "aba") 3 3 98 = 2 := by decide +kernel

end OctopusWaf
