import Mathlib.Data.List.Infix
import Mathlib.Data.Nat.Find
import Mathlib.Tactic

/-! Facts behind exact substring search: alignments of a pattern, the border automaton,
shifts by the last occurrence of a character, and polynomial rolling hashes. -/
namespace StringSearch

variable {α : Type*} {p t : List α}

/-- The pattern stands at offset `s` of the text. -/
def OccursAt (p t : List α) (s : ℕ) : Prop := p <+: t.drop s

theorem OccursAt.le_length {s : ℕ} (hp : p ≠ []) (h : OccursAt p t s) :
    s + p.length ≤ t.length := by
  have hl := h.length_le
  have hpos := List.length_pos_iff.mpr hp
  rw [List.length_drop] at hl
  omega

theorem infix_iff_occursAt : p <:+: t ↔ ∃ s, OccursAt p t s := by
  constructor
  · rintro ⟨u, v, rfl⟩
    exact ⟨u.length, v, by simp⟩
  · rintro ⟨s, h⟩
    exact h.isInfix.trans (List.drop_suffix s t).isInfix

theorem infix_map_iff_of_injective {β : Type*} {f : α → β} (hf : Function.Injective f) :
    p.map f <:+: t.map f ↔ p <:+: t := by
  constructor
  · intro h
    obtain ⟨u, hu, he⟩ := List.infix_map_iff.mp h
    rwa [List.map_injective_iff.mpr hf he]
  · exact fun h => h.map f

theorem OccursAt.getElem? {s i : ℕ} (h : OccursAt p t s) (hi : i < p.length) :
    t[s + i]? = p[i]? := by
  obtain ⟨v, hv⟩ := h
  rw [← List.getElem?_drop, ← hv, List.getElem?_append_left hi]

theorem occursAt_of_getElem? {s : ℕ} (h : ∀ i < p.length, t[s + i]? = p[i]?) :
    OccursAt p t s := by
  unfold OccursAt
  rw [List.prefix_iff_getElem?]
  intro i hi
  rw [List.getElem?_drop, h i hi, List.getElem?_eq_getElem hi]

theorem suffix_append_singleton {u v : List α} {x : α} (h : u <:+ v) : u ++ [x] <:+ v ++ [x] := by
  obtain ⟨w, rfl⟩ := h
  exact ⟨w, by simp⟩

theorem take_succ_suffix_iff {k : ℕ} (hk : k < p.length) (x : α) :
    p.take (k + 1) <:+ t ++ [x] ↔ p[k] = x ∧ p.take k <:+ t := by
  rw [List.take_add_one, List.getElem?_eq_getElem hk, Option.toList_some]
  constructor
  · rintro ⟨w, hw⟩
    rw [← List.append_assoc] at hw
    obtain ⟨h1, h2⟩ := List.append_inj' hw rfl
    exact ⟨by simpa using h2, w, h1⟩
  · rintro ⟨rfl, h⟩
    exact suffix_append_singleton h

section Automaton

variable [DecidableEq α]

/-- The longest prefix of the pattern that ends the text read so far. -/
def longest (p t : List α) : ℕ := Nat.findGreatest (fun k => p.take k <:+ t) p.length

theorem longest_le (p t : List α) : longest p t ≤ p.length := Nat.findGreatest_le _

theorem longest_suffix (p t : List α) : p.take (longest p t) <:+ t :=
  Nat.findGreatest_spec (P := fun k => p.take k <:+ t) (Nat.zero_le _) (by simp)

theorem le_longest {k : ℕ} (hk : k ≤ p.length) (h : p.take k <:+ t) : k ≤ longest p t :=
  Nat.le_findGreatest hk h

theorem longest_eq {k : ℕ} (hk : k ≤ p.length) (h : p.take k <:+ t)
    (hmax : ∀ j ≤ p.length, p.take j <:+ t → j ≤ k) : longest p t = k :=
  le_antisymm (hmax _ (longest_le p t) (longest_suffix p t)) (le_longest hk h)

/-- A border of the text read next is a border of the state read next: the automaton
only has to remember `longest`. -/
theorem take_suffix_step_iff {k : ℕ} (hk : k ≤ p.length) (x : α) :
    p.take k <:+ t ++ [x] ↔
      k ≤ longest p t + 1 ∧ p.take k <:+ p.take (longest p t) ++ [x] := by
  cases k with
  | zero => simp
  | succ k =>
    rw [take_succ_suffix_iff hk, take_succ_suffix_iff hk]
    constructor
    · rintro ⟨hx, h⟩
      have hle := le_longest (by omega) h
      refine ⟨by omega, hx, List.suffix_of_suffix_length_le h (longest_suffix p t) ?_⟩
      have hl := longest_le p t
      simp only [List.length_take]
      omega
    · rintro ⟨-, hx, h⟩
      exact ⟨hx, h.trans (longest_suffix p t)⟩

theorem longest_step {k : ℕ} {x : α} (hk : k ≤ p.length)
    (h : p.take k <:+ p.take (longest p t) ++ [x])
    (hmax : ∀ j ≤ p.length, j ≤ longest p t + 1 →
      p.take j <:+ p.take (longest p t) ++ [x] → j ≤ k) :
    longest p (t ++ [x]) = k := by
  refine longest_eq hk (h.trans (suffix_append_singleton (longest_suffix p t))) fun j hj hs => ?_
  obtain ⟨hle, hb⟩ := (take_suffix_step_iff hj x).mp hs
  exact hmax j hj hle hb

theorem longest_eq_length_iff : longest p t = p.length ↔ p <:+ t := by
  constructor
  · intro h
    simpa [h] using longest_suffix p t
  · intro h
    exact le_antisymm (longest_le p t) (le_longest le_rfl (by simpa using h))

theorem longest_nil (p : List α) : longest p [] = 0 := by
  have h := longest_suffix p []
  have hl := longest_le p []
  rw [List.suffix_nil, List.take_eq_nil_iff] at h
  rcases h with h | rfl
  · exact h
  · simpa using hl

/-- The pattern occurs exactly when some prefix of the text drives the automaton to its
last state. -/
theorem infix_iff_longest :
    p <:+: t ↔ ∃ n ≤ t.length, longest p (t.take n) = p.length := by
  simp only [longest_eq_length_iff]
  constructor
  · rintro ⟨u, v, rfl⟩
    exact ⟨(u ++ p).length, by simp, by simp [List.take_append]⟩
  · rintro ⟨n, -, h⟩
    exact h.isInfix.trans (List.take_prefix n t).isInfix

end Automaton

/-- A mismatch at pattern index `n` with text character `c` rules out every alignment
that would put a pattern index above the last occurrence of `c` on it. -/
theorem no_occurrence_before_shift {c : α} {s n d : ℕ} {last : ℤ} (hn : n < p.length)
    (hlast : -1 ≤ last) (hc : t[s + n]? = some c)
    (hmax : ∀ i : ℕ, p[i]? = some c → (i : ℤ) ≤ last) (hd : 0 < d) (hshift : (d : ℤ) < n - last) :
    ¬ OccursAt p t (s + d) := by
  intro h
  have hdn : d ≤ n := by omega
  have hg := h.getElem? (i := n - d) (by omega)
  rw [show s + d + (n - d) = s + n by omega, hc] at hg
  have hle := hmax (n - d) hg.symm
  omega

section RollingHash

variable {R : Type*} [CommRing R] (base : R)

/-- Horner's value of a window. -/
def polyHash (w : List R) : R := w.foldl (fun h c => h * base + c) 0

theorem polyHash_append_singleton (w : List R) (c : R) :
    polyHash base (w ++ [c]) = polyHash base w * base + c := by
  simp [polyHash]

theorem polyHash_cons (a : R) (w : List R) :
    polyHash base (a :: w) = a * base ^ w.length + polyHash base w := by
  induction w using List.reverseRecOn with
  | nil => simp [polyHash]
  | append_singleton w c ih =>
    rw [← List.cons_append, polyHash_append_singleton, ih, polyHash_append_singleton]
    simp only [List.length_append, List.length_cons, List.length_nil, zero_add, pow_succ]
    ring

end RollingHash

end StringSearch
