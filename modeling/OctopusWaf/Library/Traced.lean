import OctopusWaf.Library.CMachine
import OctopusWaf.Library.CString

/-! Runs that record which memory they touch. The record of a run that is cut short ends
where the run does, so a bound on the record bounds every access that is made. -/
namespace CMachine
open CString

/-- A run with its accesses in order, each one a value of `ι`. -/
structure Traced (ι α : Type) where
  result : Except Trap α
  accesses : List ι

namespace Traced

variable {ι α β : Type} {P : ι → Prop}

/-- What follows a trap is not run. -/
def andThen (x : Traced ι α) (f : α → Traced ι β) : Traced ι β :=
  match x.result with
  | .ok a => ⟨(f a).result, x.accesses ++ (f a).accesses⟩
  | .error t => ⟨.error t, x.accesses⟩

instance : Monad (Traced ι) where
  pure a := ⟨.ok a, []⟩
  bind := andThen

/-- One access. -/
def touch (i : ι) : Traced ι Unit := ⟨.ok (), [i]⟩

/-- A computation whose accesses are not recorded. -/
def quiet (x : Except Trap α) : Traced ι α := ⟨x, []⟩

@[simp] theorem result_pure (a : α) : (pure a : Traced ι α).result = .ok a := rfl

@[simp] theorem result_touch (i : ι) : (touch i).result = .ok () := rfl

@[simp] theorem result_quiet (x : Except Trap α) : (quiet x : Traced ι α).result = x := rfl

@[simp] theorem result_bind (x : Traced ι α) (f : α → Traced ι β) :
    (x >>= f).result = x.result >>= fun a => (f a).result := by
  change (x.andThen f).result = _
  unfold andThen
  cases x.result <;> rfl

theorem mem_bind {i : ι} {x : Traced ι α} {f : α → Traced ι β} :
    i ∈ (x >>= f).accesses ↔
      i ∈ x.accesses ∨ ∃ a, x.result = .ok a ∧ i ∈ (f a).accesses := by
  change i ∈ (x.andThen f).accesses ↔ _
  unfold andThen
  cases x.result with
  | error t => simp
  | ok a => simp

@[simp] theorem mem_pure {i : ι} {a : α} : ¬ i ∈ (pure a : Traced ι α).accesses :=
  List.not_mem_nil

@[simp] theorem mem_touch {i j : ι} : i ∈ (touch j).accesses ↔ i = j := List.mem_singleton

@[simp] theorem mem_quiet {i : ι} {x : Except Trap α} :
    ¬ i ∈ (quiet x : Traced ι α).accesses := List.not_mem_nil

/-- Every access of the run satisfies `P`. -/
def Within (P : ι → Prop) (x : Traced ι α) : Prop := ∀ i ∈ x.accesses, P i

theorem within_bind {x : Traced ι α} {f : α → Traced ι β} :
    (x >>= f).Within P ↔ x.Within P ∧ ∀ a, x.result = .ok a → (f a).Within P := by
  constructor
  · exact fun h => ⟨fun i hi => h i (mem_bind.mpr (.inl hi)),
      fun a ha i hi => h i (mem_bind.mpr (.inr ⟨a, ha, hi⟩))⟩
  · rintro ⟨hx, hf⟩ i hi
    rcases mem_bind.mp hi with hi | ⟨a, ha, hi⟩
    · exact hx i hi
    · exact hf a ha i hi

@[simp] theorem within_pure (a : α) : (pure a : Traced ι α).Within P := by simp [Within]

@[simp] theorem within_touch {i : ι} : (touch i).Within P ↔ P i := by simp [Within]

@[simp] theorem within_quiet (x : Except Trap α) : (quiet x : Traced ι α).Within P := by
  simp [Within]

theorem within_ite {c : Prop} [Decidable c] {x y : Traced ι α} :
    (if c then x else y).Within P ↔ (c → x.Within P) ∧ (¬ c → y.Within P) := by
  split_ifs with h <;> simp [h]

end Traced

section Strings

open Traced

variable {ι : Type} (buf : ℕ → ι)

/-- `strnlen` from index `i` on, with `left` bytes to look at. -/
def strnlenTrace (s : List UInt8) : (left i : ℕ) → Traced ι ℕ
  | 0, i => pure i
  | left + 1, i => do
    touch (buf i)
    if readAt s i = 0 then pure i else strnlenTrace s left (i + 1)

/-- `memcmp` may read all `n` bytes, whatever it finds. -/
def memcmpTrace (a b : List UInt8) (n : ℕ) : Traced ι Bool :=
  ⟨.ok (memcmpEq a b n), (List.range n).map buf⟩

theorem strnlenTrace_result (s : List UInt8) (left i : ℕ) :
    (strnlenTrace buf s left i).result = .ok (i + strnlen (s.drop i) left) := by
  induction left generalizing i with
  | zero => simp [strnlenTrace, strnlen]
  | succ left ih =>
    simp only [strnlenTrace, result_bind, result_touch, strnlen_eq]
    by_cases hz : readAt s i = 0
    · simp [hz, cstr_drop_of_zero hz]
    · simp only [hz, if_false, ok_bind]
      rw [ih, strnlen_eq, cstr_drop_of_ne_zero hz, List.length_cons]
      congr 1
      omega

/-- The bytes looked at are those up to the terminator, of at most `left`. -/
theorem mem_strnlenTrace {s : List UInt8} {left i : ℕ} {a : ι} :
    a ∈ (strnlenTrace buf s left i).accesses ↔
      ∃ k < left, k ≤ (cstr (s.drop i)).length ∧ a = buf (i + k) := by
  induction left generalizing i with
  | zero => simp [strnlenTrace]
  | succ left ih =>
    rw [strnlenTrace, mem_bind, mem_touch]
    simp only [result_touch]
    by_cases hz : readAt s i = 0
    · rw [if_pos hz, cstr_drop_of_zero hz]
      constructor
      · rintro (rfl | ⟨-, -, h⟩)
        · exact ⟨0, by omega, le_rfl, rfl⟩
        · exact absurd h mem_pure
      · rintro ⟨k, -, hk, rfl⟩
        obtain rfl : k = 0 := by simpa using hk
        exact .inl rfl
    · rw [if_neg hz, cstr_drop_of_ne_zero hz]
      constructor
      · rintro (rfl | ⟨-, -, h⟩)
        · exact ⟨0, by omega, by simp, rfl⟩
        · obtain ⟨k, hlt, hle, rfl⟩ := ih.mp h
          exact ⟨k + 1, by omega, by simpa using hle, by rw [show i + 1 + k = i + (k + 1) by omega]⟩
      · rintro ⟨k, hlt, hle, rfl⟩
        cases k with
        | zero => exact .inl rfl
        | succ k =>
          have hidx : i + (k + 1) = i + 1 + k := by omega
          exact .inr ⟨(), trivial, ih.mpr ⟨k, by omega, by simpa using hle, by rw [hidx]⟩⟩

@[simp] theorem memcmpTrace_result (a b : List UInt8) (n : ℕ) :
    (memcmpTrace buf a b n).result = .ok (memcmpEq a b n) := rfl

@[simp] theorem mem_memcmpTrace {a b : List UInt8} {n : ℕ} {x : ι} :
    x ∈ (memcmpTrace buf a b n).accesses ↔ ∃ i < n, x = buf i := by
  simp [memcmpTrace, eq_comm]

end Strings

end CMachine
