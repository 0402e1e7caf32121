import OctopusWaf.MatchAlgorithms

/-! The bad-character table holds last occurrences, so no shift of `horspool_search`
passes over an alignment at which the pattern occurs. -/
namespace OctopusWaf
open CMachine CString StringSearch

/-- `table x` bounds every index below `n` at which the pattern has the character `x`. -/
structure LastOccurrences (pattern : List UInt8) (n : ℕ) (table : ℕ → ℤ) : Prop where
  neg_one_le : ∀ x, -1 ≤ table x
  le_last : ∀ x : ℕ, ∀ k < n, charInt (readAt pattern k) = x → (k : ℤ) ≤ table x

theorem LastOccurrences.initial (pattern : List UInt8) :
    LastOccurrences pattern 0 fun _ => -1 where
  neg_one_le _ := le_rfl
  le_last _ k hk := absurd hk (Nat.not_lt_zero k)

theorem LastOccurrences.update {pattern : List UInt8} {i c : ℕ} {table : ℕ → ℤ}
    (h : LastOccurrences pattern i table) (hc : (c : ℤ) = charInt (readAt pattern i)) :
    LastOccurrences pattern (i + 1) (Function.update table c i) := by
  constructor
  · intro x
    by_cases hx : x = c
    · simp only [hx, Function.update_self]
      omega
    · simpa only [Function.update_of_ne hx] using h.neg_one_le x
  · intro x k hk hxk
    by_cases hx : x = c
    · simp only [hx, Function.update_self]
      omega
    · simp only [Function.update_of_ne hx]
      apply h.le_last x k _ hxk
      by_contra hki
      have hk' : k = i := by omega
      apply hx
      rw [hk', ← hc] at hxk
      exact_mod_cast hxk.symm

theorem fillTable_lastOccurrences {pattern : List UInt8} {left i : ℕ} {table out : ℕ → ℤ}
    (hi : LastOccurrences pattern i table) (h : fillTable pattern left i table = .ok out) :
    LastOccurrences pattern (i + left) out := by
  induction left generalizing i table with
  | zero =>
    obtain rfl := Except.ok.inj h
    exact hi
  | succ left ih =>
    unfold fillTable at h
    obtain ⟨c, hc, h⟩ := bind_ok h
    have hh := ih (hi.update (subscript_ok hc)) h
    rwa [show i + (left + 1) = i + 1 + left by omega]

theorem fillTable_error {pattern : List UInt8} {left i : ℕ} {table : ℕ → ℤ} {t : Trap}
    (h : fillTable pattern left i table = .error t) : t = .subscript := by
  induction left generalizing i table with
  | zero => contradiction
  | succ left ih =>
    unfold fillTable at h
    rcases bind_error h with hc | ⟨c, -, h⟩
    · exact subscript_error hc
    · exact ih h

theorem matchBackwards_none {txt pattern : List UInt8} {shift n : ℕ}
    (h : matchBackwards txt pattern shift n = none) :
    ∀ k < n, readAt txt (shift + k) = readAt pattern k := by
  induction n with
  | zero => simp
  | succ n ih =>
    unfold matchBackwards at h
    split_ifs at h with he
    intro k hk
    rcases Nat.lt_succ_iff_lt_or_eq.mp hk with hlt | rfl
    · exact ih h k hlt
    · exact he.symm

theorem matchBackwards_some {txt pattern : List UInt8} {shift n nInd : ℕ}
    (h : matchBackwards txt pattern shift n = some nInd) :
    nInd < n ∧ readAt pattern nInd ≠ readAt txt (shift + nInd) := by
  induction n with
  | zero => simp [matchBackwards] at h
  | succ n ih =>
    unfold matchBackwards at h
    split_ifs at h with he
    · have hh := ih h
      exact ⟨by omega, hh.2⟩
    · obtain rfl := Option.some.inj h
      exact ⟨by omega, he⟩

/-- One move of the window passes over no occurrence. -/
theorem horspool_shift_safe {txt pattern : List UInt8} {txtLen matchLen shift nInd c s : ℕ}
    {table : ℕ → ℤ} (ht : LastOccurrences pattern matchLen table)
    (hn : matchBackwards txt pattern shift matchLen = some nInd)
    (hc : (c : ℤ) = charInt (readAt txt (shift + nInd)))
    (hfit : (shift : ℤ) ≤ (txtLen : ℤ) - matchLen) (hs : shift ≤ s)
    (hlt : s < shift + (max_horspool 1 (nInd - table c)).toNat) :
    ¬ OccursAt (bytes pattern matchLen) (bytes txt txtLen) s := by
  obtain ⟨hnm, hne⟩ := matchBackwards_some hn
  by_cases he : s = shift
  · subst he
    rw [occursAt_bytes_iff (by omega)]
    exact fun h => hne (h.2 nInd hnm).symm
  · obtain ⟨d, rfl⟩ := Nat.exists_eq_add_of_le hs
    apply no_occurrence_before_shift (n := nInd) (by simpa using hnm) (ht.neg_one_le c)
      (getElem?_bytes txt (show shift + nInd < txtLen by omega)) _ (by omega)
    · unfold max_horspool at hlt
      split_ifs at hlt <;> omega
    · intro i hi
      have him : i < matchLen := by
        by_contra hge
        simp [bytes, hge] at hi
      rw [getElem?_bytes _ him] at hi
      exact ht.le_last c i him (by rw [Option.some.inj hi, hc])

theorem horspoolLoop_exact {txt pattern : List UInt8} {txtLen matchLen shift : ℕ}
    {table : ℕ → ℤ} {v : Bool} (hm : 0 < matchLen)
    (ht : LastOccurrences pattern matchLen table)
    (h : horspoolLoop txt txtLen pattern matchLen table shift = .ok v) :
    v = true ↔ ∃ s, shift ≤ s ∧ OccursAt (bytes pattern matchLen) (bytes txt txtLen) s := by
  induction shift using horspoolLoop.induct txt txtLen pattern matchLen table with
  | case1 shift hfit hn =>
    rw [horspoolLoop, if_pos hfit, hn] at h
    obtain rfl := Except.ok.inj h
    refine iff_of_true rfl ⟨shift, le_rfl, (occursAt_bytes_iff hm).mpr ⟨by omega, ?_⟩⟩
    exact matchBackwards_none hn
  | case2 shift hfit nInd hn ih =>
    rw [horspoolLoop, if_pos hfit, hn] at h
    obtain ⟨c, hc, h⟩ := bind_ok h
    rw [ih c h]
    constructor
    · rintro ⟨s, hs, ho⟩
      exact ⟨s, by omega, ho⟩
    · rintro ⟨s, hs, ho⟩
      refine ⟨s, ?_, ho⟩
      by_contra hlt
      exact horspool_shift_safe ht hn (subscript_ok hc) hfit hs (by omega) ho
  | case3 shift hfit =>
    rw [horspoolLoop, if_neg hfit] at h
    obtain rfl := Except.ok.inj h
    simp only [Bool.false_eq_true, false_iff, not_exists, not_and]
    intro s hs ho
    have hle := ((occursAt_bytes_iff hm).mp ho).1
    omega

theorem horspoolLoop_error {txt pattern : List UInt8} {txtLen matchLen shift : ℕ}
    {table : ℕ → ℤ} {t : Trap}
    (h : horspoolLoop txt txtLen pattern matchLen table shift = .error t) : t = .subscript := by
  induction shift using horspoolLoop.induct txt txtLen pattern matchLen table with
  | case1 shift hfit hn =>
    rw [horspoolLoop, if_pos hfit, hn] at h
    contradiction
  | case2 shift hfit nInd hn ih =>
    rw [horspoolLoop, if_pos hfit, hn] at h
    rcases bind_error h with hc | ⟨c, -, h⟩
    · exact subscript_error hc
    · exact ih c h
  | case3 shift hfit =>
    rw [horspoolLoop, if_neg hfit] at h
    contradiction

/-- A completed `horspool_search` decides whether the pattern occurs in the text. -/
theorem horspool_search_exact {txt pattern : List UInt8} {txtLen matchLen : ℕ} {v : Bool}
    (hm : 0 < matchLen) (h : horspool_search txt txtLen pattern matchLen = .ok v) :
    v = true ↔ bytes pattern matchLen <:+: bytes txt txtLen := by
  unfold horspool_search at h
  obtain ⟨table, ht, h⟩ := bind_ok h
  have hlast := fillTable_lastOccurrences (LastOccurrences.initial pattern) ht
  rw [Nat.zero_add] at hlast
  rw [horspoolLoop_exact hm hlast h, infix_iff_occursAt]
  simp

/-- The search stops early only at a subscript. -/
theorem horspool_search_error {txt pattern : List UInt8} {txtLen matchLen : ℕ} {t : Trap}
    (h : horspool_search txt txtLen pattern matchLen = .error t) : t = .subscript := by
  rcases bind_error h with hfill | ⟨table, -, h⟩
  · exact fillTable_error hfill
  · exact horspoolLoop_error h

end OctopusWaf
