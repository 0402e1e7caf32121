import OctopusWaf.MatchAlgorithms

/-! The table of `write_tf` holds longest borders, so `DFA_Search` tracks the longest
pattern prefix that ends the text read so far. -/
namespace OctopusWaf
open CMachine CString StringSearch

/-- The pattern characters as the `int`s they are compared as. -/
def charInts (s : List UInt8) (n : ℕ) : List ℤ := (bytes s n).map charInt

@[simp] theorem length_charInts (s : List UInt8) (n : ℕ) : (charInts s n).length = n := by
  simp [charInts]

theorem charInts_succ (s : List UInt8) (n : ℕ) :
    charInts s (n + 1) = charInts s n ++ [charInt (readAt s n)] := by
  simp [charInts, bytes_succ]

theorem take_charInts (s : List UInt8) {n k : ℕ} (hk : k ≤ n) :
    (charInts s n).take k = charInts s k := by
  simp [charInts, ← List.map_take, take_bytes s hk]

theorem charInts_suffix_iff (s : List UInt8) {k n : ℕ} (hk : k ≤ n) :
    charInts s k <:+ charInts s n ↔ ∀ i < k, readAt s i = readAt s (n - k + i) := by
  have hidx (i : ℕ) : i + n - k = n - k + i := by omega
  simp only [List.suffix_iff_getElem, charInts, List.getElem_map,
    getElem_bytes, charInt_inj, List.length_map, length_bytes, hidx, hk, exists_true_left]
  exact forall₂_congr fun i _ => eq_comm

/-- The inner loop runs to its end exactly when the compared stretches agree. -/
theorem compareBorder_eq_iff (pat : List UInt8) (state fix left i : ℕ) :
    compareBorder pat state fix left i = i + left ↔
      ∀ k < left, readAt pat (i + k) = readAt pat (state - fix + 1 + (i + k)) := by
  induction left generalizing i with
  | zero => simp [compareBorder]
  | succ left ih =>
    unfold compareBorder
    split_ifs with h
    · constructor
      · intro he
        omega
      · intro hk
        exact absurd (hk 0 (by omega)) h
    · rw [show i + (left + 1) = i + 1 + left by omega, ih]
      have hidx (k : ℕ) : i + 1 + k = i + (k + 1) := by omega
      constructor
      · intro hk k hlt
        cases k with
        | zero => exact not_not.mp h
        | succ k => simpa only [hidx] using hk k (by omega)
      · intro hk k hlt
        simpa only [hidx] using hk (k + 1) (by omega)

/-- The test made at one value `fix + 1` of the downward search. -/
theorem border_test_iff (pat : List UInt8) {state fix : ℕ} (x : ℤ) (hfix : fix < state) :
    charInt (readAt pat fix) = x ∧ compareBorder pat state (fix + 1) fix 0 = fix ↔
      charInts pat (fix + 1) <:+ charInts pat state ++ [x] := by
  have hc := compareBorder_eq_iff pat state (fix + 1) fix 0
  have hs := take_succ_suffix_iff (p := charInts pat (fix + 1)) (t := charInts pat state)
    (k := fix) (by simp) x
  rw [List.take_of_length_le (by simp), take_charInts pat (by omega)] at hs
  rw [hs, charInts_suffix_iff pat hfix.le]
  simp only [Nat.zero_add] at hc
  rw [hc, show state - (fix + 1) + 1 = state - fix by omega]
  simp [charInts]

theorem fallBack_spec (pat : List UInt8) {state n : ℕ} (x : ℤ) (hn : n ≤ state) :
    fallBack pat state x n ≤ n ∧
      charInts pat (fallBack pat state x n) <:+ charInts pat state ++ [x] ∧
      ∀ j ≤ n, charInts pat j <:+ charInts pat state ++ [x] → j ≤ fallBack pat state x n := by
  induction n with
  | zero => simp [fallBack, charInts]
  | succ fix ih =>
    obtain ⟨hle, hsuf, hmax⟩ := ih (by omega)
    simp only [fallBack, border_test_iff pat x (show fix < state by omega)]
    split_ifs with h
    · exact ⟨le_rfl, h, fun j hj _ => hj⟩
    · refine ⟨by omega, hsuf, fun j hj hs => ?_⟩
      rcases Nat.lt_or_eq_of_le hj with hlt | rfl
      · exact hmax j (by omega) hs
      · exact absurd hs h

/-- The next state is the greatest length of a pattern prefix that ends the remembered
prefix followed by `x`. -/
theorem NextMachineState_spec (pat : List UInt8) {M state : ℕ} (x : ℤ) (hstate : state ≤ M) :
    NextMachineState pat M state x ≤ M ∧
      charInts pat (NextMachineState pat M state x) <:+ charInts pat state ++ [x] ∧
      ∀ j ≤ M, j ≤ state + 1 → charInts pat j <:+ charInts pat state ++ [x] →
        j ≤ NextMachineState pat M state x := by
  unfold NextMachineState
  split_ifs with h
  · obtain ⟨hlt, rfl⟩ := h
    rw [← charInts_succ]
    exact ⟨hlt, List.suffix_rfl, fun j _ hj _ => hj⟩
  · obtain ⟨hle, hsuf, hmax⟩ := fallBack_spec pat x (le_refl state)
    refine ⟨hle.trans hstate, hsuf, fun j hj hj1 hs => ?_⟩
    rcases Nat.lt_or_eq_of_le hj1 with hlt | rfl
    · exact hmax j (by omega) hs
    · have he := List.IsSuffix.eq_of_length hs (by simp)
      rw [charInts_succ] at he
      have hc := (List.append_inj' he rfl).2
      exact absurd ⟨by omega, by simpa using hc.symm⟩ h

/-- Reading one more character moves `longest` as the table says. -/
theorem longest_charInts_succ (pat txt : List UInt8) (patsize i : ℕ) :
    longest (charInts pat patsize) (charInts txt (i + 1)) =
      NextMachineState pat patsize (longest (charInts pat patsize) (charInts txt i))
        (charInt (readAt txt i)) := by
  have hle := longest_le (charInts pat patsize) (charInts txt i)
  rw [length_charInts] at hle
  obtain ⟨hM, hsuf, hmax⟩ := NextMachineState_spec pat (charInt (readAt txt i)) hle
  rw [charInts_succ]
  apply longest_step
  · simpa using hM
  · rwa [take_charInts pat hM, take_charInts pat hle]
  · intro j hj hj1 hs
    rw [length_charInts] at hj
    rw [take_charInts pat hj, take_charInts pat hle] at hs
    exact hmax j hj hj1 hs

theorem dfaLoop_exact {pat txt : List UInt8} {patsize left i state : ℕ} {v : Bool}
    (hstate : state = longest (charInts pat patsize) (charInts txt i))
    (h : dfaLoop (write_tf pat patsize) patsize txt left i state = .ok v) :
    v = true ↔ ∃ n, i < n ∧ n ≤ i + left ∧
      longest (charInts pat patsize) (charInts txt n) = patsize := by
  induction left generalizing i state with
  | zero =>
    obtain rfl := Except.ok.inj h
    simp only [Bool.false_eq_true, false_iff, not_exists, not_and]
    omega
  | succ left ih =>
    unfold dfaLoop at h
    obtain ⟨x, hx, h⟩ := bind_ok h
    simp only [write_tf, subscript_ok hx, hstate, ← longest_charInts_succ] at h
    split_ifs at h with hfull
    · obtain rfl := Except.ok.inj h
      exact iff_of_true rfl ⟨i + 1, by omega, by omega, hfull⟩
    · rw [ih rfl h]
      constructor
      · rintro ⟨n, hlt, hle, hn⟩
        exact ⟨n, by omega, by omega, hn⟩
      · rintro ⟨n, hlt, hle, hn⟩
        refine ⟨n, ?_, by omega, hn⟩
        rcases Nat.lt_or_eq_of_le hlt with hlt | rfl
        · exact hlt
        · exact absurd hn hfull

/-- The automaton is in its last state somewhere before the end of an occurrence only. -/
theorem infix_iff_longest_charInts (pat txt : List UInt8) {patsize : ℕ} (n : ℕ)
    (hpat : 0 < patsize) :
    bytes pat patsize <:+: bytes txt n ↔
      ∃ k, 0 < k ∧ k ≤ n ∧ longest (charInts pat patsize) (charInts txt k) = patsize := by
  rw [← infix_map_iff_of_injective charInt_injective]
  change charInts pat patsize <:+: charInts txt n ↔ _
  rw [infix_iff_longest]
  simp only [length_charInts]
  constructor
  · rintro ⟨k, hk, hl⟩
    rw [take_charInts txt hk] at hl
    refine ⟨k, Nat.pos_of_ne_zero fun hz => ?_, hk, hl⟩
    have h0 : longest (charInts pat patsize) (charInts txt 0) = 0 := longest_nil _
    rw [hz, h0] at hl
    omega
  · rintro ⟨k, -, hk, hl⟩
    exact ⟨k, hk, by rwa [take_charInts txt hk]⟩

/-- A completed `DFA_Search` decides whether the pattern occurs in the text. -/
theorem DFA_Search_exact {pat txt : List UInt8} {patsize txtsize : ℕ} {v : Bool}
    (hpat : 0 < patsize) (h : DFA_Search pat patsize txt txtsize = .ok v) :
    v = true ↔ bytes pat patsize <:+: bytes txt txtsize := by
  have h0 : longest (charInts pat patsize) (charInts txt 0) = 0 := longest_nil _
  rw [dfaLoop_exact h0.symm h, Nat.zero_add]
  exact (infix_iff_longest_charInts pat txt txtsize hpat).symm

/-- The automaton loop stops early only at a subscript. -/
theorem dfaLoop_error {TF : ℕ → ℕ → ℕ} {patsize : ℕ} {txt : List UInt8} {left i state : ℕ}
    {t : Trap} (h : dfaLoop TF patsize txt left i state = .error t) : t = .subscript := by
  induction left generalizing i state with
  | zero => contradiction
  | succ left ih =>
    unfold dfaLoop at h
    rcases bind_error h with hx | ⟨x, -, h⟩
    · exact subscript_error hx
    · dsimp only at h
      split_ifs at h
      exact ih h

/-- With every subscript inside its dimension the search ends, and decides. -/
theorem DFA_Search_decides {pat txt : List UInt8} {patsize txtsize : ℕ} (hpat : 0 < patsize)
    (hsub : DFA_Search pat patsize txt txtsize ≠ .error .subscript) :
    ∃ v, DFA_Search pat patsize txt txtsize = .ok v ∧
      (v = true ↔ bytes pat patsize <:+: bytes txt txtsize) := by
  cases h : DFA_Search pat patsize txt txtsize with
  | error t =>
    obtain rfl := dfaLoop_error h
    exact absurd h hsub
  | ok v => exact ⟨v, rfl, DFA_Search_exact hpat h⟩

/-- A pattern that overlaps itself, found after a fall-back. -/
theorem DFA_Search_decides_overlap :
    ∃ v, DFA_Search (ascii "ababac") 6 (ascii "xabababac") 9 = .ok v ∧
      (v = true ↔ bytes (ascii "ababac") 6 <:+: bytes (ascii "xabababac") 9) :=
  DFA_Search_decides (by decide) (by decide +kernel)

end OctopusWaf
