import Mathlib.Tactic

/-! A byte-addressed memory with unmapped parts, and ranges of it that are moved byte by byte
while source and destination may overlap. -/
namespace CMachine

/-- The byte at each address, `none` where nothing is mapped. -/
abbrev Memory := ℕ → Option UInt8

def Mapped (m : Memory) (a len : ℕ) : Prop := ∀ i < len, (m (a + i)).isSome

def store (m : Memory) (a : ℕ) (b : UInt8) : Option Memory :=
  if (m a).isSome then some (Function.update m a (some b)) else none

/-- One byte of a move: `dst[i] = src[i]`. -/
def copyByte (m : Memory) (dst src i : ℕ) : Option Memory := do
  let b ← m (src + i)
  store m (dst + i) b

/-- `m` is `m₀` after the bytes `lo ≤ i < hi` were moved: they are those `m₀` has at the
source, and every other address is as in `m₀`. -/
def Moved (m₀ m : Memory) (dst src lo hi : ℕ) : Prop :=
  ∀ a, m a = if dst + lo ≤ a ∧ a < dst + hi then m₀ (src + (a - dst)) else m₀ a

theorem moved_empty (m : Memory) (dst src i : ℕ) : Moved m m dst src i i :=
  fun a => (if_neg (by omega)).symm

/-- A byte whose source has not been overwritten extends the moved range. -/
theorem Moved.copyByte {m₀ m : Memory} {dst src lo hi lo' hi' i : ℕ}
    (h : Moved m₀ m dst src lo hi) (hsrc : (m₀ (src + i)).isSome) (hdst : (m₀ (dst + i)).isSome)
    (hfresh : src + i < dst + lo ∨ dst + hi ≤ src + i)
    (hnew : i < lo ∨ hi ≤ i) (hrange : ∀ j, lo' ≤ j ∧ j < hi' ↔ lo ≤ j ∧ j < hi ∨ j = i) :
    ∃ m', CMachine.copyByte m dst src i = some m' ∧ Moved m₀ m' dst src lo' hi' := by
  have hread : m (src + i) = m₀ (src + i) := by rw [h, if_neg (by omega)]
  have hkept : m (dst + i) = m₀ (dst + i) := by rw [h, if_neg (by omega)]
  obtain ⟨b, hb⟩ := Option.isSome_iff_exists.mp hsrc
  refine ⟨Function.update m (dst + i) (some b), ?_, fun a => ?_⟩
  · simp [CMachine.copyByte, store, hread, hb, hkept, hdst]
  · by_cases ha : a = dst + i
    · subst ha
      have hi := (hrange i).mpr (.inr rfl)
      rw [Function.update_self, if_pos (by omega), show src + (dst + i - dst) = src + i by omega,
        hb]
    · rw [Function.update_of_ne ha, h]
      refine if_congr ?_ rfl rfl
      have hj := hrange (a - dst)
      omega

end CMachine
