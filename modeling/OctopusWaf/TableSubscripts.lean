import OctopusWaf.Matchlist

/-! When the subscripts that `DFA_Search` and `horspool_search` take from a signed `char` stay
inside their tables of 256 entries. -/
namespace OctopusWaf
open CMachine CString StringSearch

variable {pat txt : List UInt8} {patsize txtsize : ℕ}

theorem dfaLoop_subscript_iff {left i state : ℕ}
    (hstate : state = longest (charInts pat patsize) (charInts txt i)) :
    dfaLoop (write_tf pat patsize) patsize txt left i state ≠ .error .subscript ↔
      ∀ k, i ≤ k → k < i + left → (readAt txt k).toNat < 128 ∨
        ∃ n, i < n ∧ n ≤ k ∧ longest (charInts pat patsize) (charInts txt n) = patsize := by
  induction left generalizing i state with
  | zero => exact iff_of_true (by simp [dfaLoop]) fun k hk hlt => by omega
  | succ left ih =>
    unfold dfaLoop
    by_cases hc : (readAt txt i).toNat < 128
    · have hx := subscript_ascii hc
      rw [hx, ok_bind]
      simp only [write_tf, subscript_ok hx, hstate, ← longest_charInts_succ]
      split_ifs with hfull
      · refine iff_of_true (by simp) fun k hk _ => ?_
        rcases hk.eq_or_lt with rfl | hlt
        · exact .inl hc
        · exact .inr ⟨i + 1, by omega, hlt, hfull⟩
      · rw [ih rfl]
        constructor
        · intro h k hk hlt
          rcases hk.eq_or_lt with rfl | hik
          · exact .inl hc
          · rcases h k hik (by omega) with hascii | ⟨n, hin, hnk, hl⟩
            · exact .inl hascii
            · exact .inr ⟨n, by omega, hnk, hl⟩
        · intro h k hk hlt
          rcases h k (by omega) (by omega) with hascii | ⟨n, hin, hnk, hl⟩
          · exact .inl hascii
          · refine .inr ⟨n, lt_of_le_of_ne hin ?_, hnk, hl⟩
            rintro rfl
            exact hfull hl
    · rw [subscript_negative hc]
      refine iff_of_false (fun h => h rfl) fun h => ?_
      rcases h i le_rfl (by omega) with hascii | ⟨n, hin, hni, -⟩
      · exact hc hascii
      · omega

/-- The automaton meets every byte up to the end of the first occurrence. -/
theorem DFA_Search_subscript_iff (hpat : 0 < patsize) :
    DFA_Search pat patsize txt txtsize ≠ .error .subscript ↔
      ∀ k < txtsize, (readAt txt k).toNat < 128 ∨ bytes pat patsize <:+: bytes txt k := by
  have h0 : longest (charInts pat patsize) (charInts txt 0) = 0 := longest_nil _
  rw [DFA_Search, dfaLoop_subscript_iff h0.symm]
  simp only [infix_iff_longest_charInts pat txt _ hpat, Nat.zero_le, forall_const, Nat.zero_add]

/-- Every pattern character is a subscript of a write. -/
theorem fillTable_subscript_iff {left i : ℕ} {table : ℕ → ℤ} :
    fillTable pat left i table ≠ .error .subscript ↔
      ∀ k, i ≤ k → k < i + left → (readAt pat k).toNat < 128 := by
  induction left generalizing i table with
  | zero => exact iff_of_true (by simp [fillTable]) fun k hk hlt => by omega
  | succ left ih =>
    unfold fillTable
    by_cases hc : (readAt pat i).toNat < 128
    · rw [subscript_ascii hc, ok_bind, ih, forall_from_iff i,
        show i + 1 + left = i + (left + 1) by omega]
      exact (and_iff_right fun _ => hc).symm
    · rw [subscript_negative hc]
      exact iff_of_false (fun h => h rfl) fun h => hc (h i le_rfl (by omega))

/-- A mismatching byte of a window that no occurrence precedes comes before the end of every
occurrence. -/
theorem horspoolLoop_subscript {shift : ℕ} {table : ℕ → ℤ} (hpat : 0 < patsize)
    (ht : LastOccurrences pat patsize table)
    (hbytes : ∀ k < txtsize, (readAt txt k).toNat < 128 ∨ bytes pat patsize <:+: bytes txt k)
    (hnone : ∀ s < shift, ¬ OccursAt (bytes pat patsize) (bytes txt txtsize) s) :
    horspoolLoop txt txtsize pat patsize table shift ≠ .error .subscript := by
  induction shift using horspoolLoop.induct txt txtsize pat patsize table with
  | case1 shift hfit hn =>
    rw [horspoolLoop, if_pos hfit, hn]
    simp
  | case2 shift hfit nInd hn ih =>
    have hlt := (matchBackwards_some hn).1
    have hc : (readAt txt (shift + nInd)).toNat < 128 := by
      rcases hbytes (shift + nInd) (by omega) with hascii | hocc
      · exact hascii
      · obtain ⟨s, hs⟩ := infix_iff_occursAt.mp hocc
        obtain ⟨hle, heq⟩ := (occursAt_bytes_iff hpat).mp hs
        exact absurd ((occursAt_bytes_iff hpat).mpr ⟨by omega, heq⟩) (hnone s (by omega))
    have hx := subscript_ascii hc
    rw [horspoolLoop, if_pos hfit, hn]
    simp only [hx, ok_bind]
    apply ih
    intro s hs
    rcases Nat.lt_or_ge s shift with hlt | hge
    · exact hnone s hlt
    · exact horspool_shift_safe ht hn (subscript_ok hx) hfit hge hs
  | case3 shift hfit =>
    rw [horspoolLoop, if_neg hfit]
    simp

/-- Both searches keep their subscripts in range exactly for a pattern of ASCII characters and
a text whose other bytes all come after a whole occurrence of it. -/
theorem subscripts_in_range_iff (hpat : 0 < patsize) :
    (DFA_Search pat patsize txt txtsize ≠ .error .subscript ∧
        horspool_search txt txtsize pat patsize ≠ .error .subscript) ↔
      (∀ k < patsize, (readAt pat k).toNat < 128) ∧
        ∀ k < txtsize, (readAt txt k).toNat < 128 ∨ bytes pat patsize <:+: bytes txt k := by
  rw [DFA_Search_subscript_iff hpat]
  constructor
  · rintro ⟨hbytes, hsearch⟩
    refine ⟨fun k hk => ?_, hbytes⟩
    have hfill : fillTable pat patsize 0 (fun _ => -1) ≠ .error .subscript := by
      intro hf
      exact hsearch (by rw [horspool_search, hf]; rfl)
    exact fillTable_subscript_iff.mp hfill k (Nat.zero_le k) (by omega)
  · rintro ⟨hascii, hbytes⟩
    refine ⟨hbytes, fun h => ?_⟩
    rcases bind_error h with hf | ⟨table, ht, h⟩
    · exact fillTable_subscript_iff.mpr (fun k _ hk => hascii k (by omega)) hf
    · have hlast := fillTable_lastOccurrences (LastOccurrences.initial pat) ht
      rw [Nat.zero_add] at hlast
      exact horspoolLoop_subscript hpat hlast hbytes (by simp) h

/-- A byte with its top bit set that comes after the pattern does no harm. -/
theorem subscripts_in_range_after_match :
    DFA_Search (ascii "<script>") 6 (ascii "GET /<scrip" ++ [255]) 12 ≠ .error .subscript ∧
      horspool_search (ascii "GET /<scrip" ++ [255]) 12 (ascii "<script>") 6 ≠
        .error .subscript :=
  (subscripts_in_range_iff (by decide)).mpr (by decide +kernel)

/-- The one rule of the shipped list with quotation marks outside ASCII. -/
def quotesRule : List UInt8 :=
  [226, 128, 153] ++ ascii " or " ++ [226, 128, 152] ++ ascii "1" ++ [226, 128, 153] ++
    ascii "=" ++ [226, 128, 153] ++ ascii "1"

/-- The rule writes outside the table of `horspool_search` whatever the request is, and a
request byte with its top bit set is read outside the tables for an ASCII rule. -/
theorem subscripts_out_of_range :
    matchlist .wrapping quietEngines (matchOnly quotesRule 2) (ascii "GET /?id=1" ++ [0]) 10 2 =
        .error .subscript ∧
      matchlist .wrapping quietEngines (matchOnly (ascii "<script>") 1)
        (ascii "GET /" ++ 255 :: ascii "aaaa" ++ [0]) 10 1 = .error .subscript ∧
      matchlist .wrapping quietEngines (matchOnly (ascii "<script>") 2)
        (ascii "GET /" ++ 255 :: ascii "aaaa" ++ [0]) 10 2 = .error .subscript := by
  decide +kernel

end OctopusWaf
