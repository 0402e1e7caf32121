import OctopusWaf.MatchAlgorithms

/-! `var2` is the hash of the current window modulo `2^32` through every slide, under any
evaluation of `int` arithmetic that returns results at all. -/
namespace OctopusWaf
open CMachine CString StringSearch

theorem shiftLeft_one_eq (x : BitVec 32) : x <<< 1 = x * 2 := by
  apply BitVec.eq_of_toNat_eq
  rw [BitVec.toNat_shiftLeft, BitVec.toNat_mul]
  simp [Nat.shiftLeft_eq]

/-- The weight of the leading character; it is 0 from 33 characters on. -/
theorem weight_eq (k : ℕ) : (fun z : BitVec 32 => z <<< 1)^[k] 1 = 2 ^ k := by
  induction k with
  | zero => rfl
  | succ k ih => rw [Function.iterate_succ_apply', ih, shiftLeft_one_eq, pow_succ]

/-- The hash of the first `n` characters at a pointer. -/
def windowHash (s : List UInt8) (n : ℕ) : BitVec 32 := polyHash 2 ((bytes s n).map charWord)

theorem windowHash_succ (s : List UInt8) (n : ℕ) :
    windowHash s (n + 1) = windowHash s n <<< 1 + charWord (readAt s n) := by
  rw [windowHash, bytes_succ, List.map_append, List.map_singleton, polyHash_append_singleton,
    shiftLeft_one_eq]
  rfl

theorem hashLoop_windowHash {ar : IntArith} {input pattern : List UInt8} {left i : ℕ}
    {out : BitVec 32 × BitVec 32}
    (h : hashLoop ar input pattern left i (windowHash pattern i) (windowHash input i) = .ok out) :
    out = (windowHash pattern (i + left), windowHash input (i + left)) := by
  induction left generalizing i with
  | zero => exact (Except.ok.inj h).symm
  | succ left ih =>
    unfold hashLoop at h
    obtain ⟨v1, h1, h⟩ := bind_ok h
    obtain ⟨v2, h2, h⟩ := bind_ok h
    simp only [ar.add_ok h1, ar.add_ok h2, ← windowHash_succ] at h
    rw [ih h, show i + 1 + left = i + (left + 1) by omega]

theorem bytes_cons (s : List UInt8) (n : ℕ) :
    bytes s (n + 1) = readAt s 0 :: bytes (s.drop 1) n := by
  simp only [bytes, List.range_succ_eq_map, List.map_cons, List.map_map, Function.comp_def,
    Nat.succ_eq_add_one]
  congr 2
  funext k
  rw [readAt_drop, Nat.add_comm]

/-- Taking the leading character out of a hash, in any ring the hash is computed in. -/
theorem polyHash_bytes_tail {R : Type} [CommRing R] (f : UInt8 → R) (s : List UInt8) (n : ℕ) :
    polyHash 2 ((bytes s (n + 1)).map f) - f (readAt s 0) * 2 ^ n =
      polyHash 2 ((bytes (s.drop 1) n).map f) := by
  rw [bytes_cons, List.map_cons, polyHash_cons, List.length_map, length_bytes, add_sub_cancel_left]

theorem windowHash_tail (input : List UInt8) (j m : ℕ) :
    windowHash (input.drop j) (m + 1) - charWord (readAt input j) * 2 ^ m =
      windowHash (input.drop (j + 1)) m := by
  have h := polyHash_bytes_tail charWord (input.drop j) m
  rwa [List.drop_drop, readAt_drop, Nat.add_zero] at h

/-- Dropping the leading character and appending the next one, as the slide computes it. -/
theorem windowHash_slide (input : List UInt8) (j m : ℕ) :
    windowHash (input.drop (j + 1)) (m + 1) =
      (windowHash (input.drop j) (m + 1) - charWord (readAt input j) * 2 ^ m) <<< 1 +
        charWord (readAt input (j + (m + 1))) := by
  rw [windowHash_tail, windowHash_succ, readAt_drop, show j + 1 + m = j + (m + 1) by omega]

/-- A window equal to the pattern has the hash of the pattern, so the comparison of the hashes
rejects nothing that `memcmp` would accept. -/
theorem windowHash_eq_and_memcmpEq_iff {input pattern : List UInt8} {m j : ℕ} :
    windowHash pattern m = windowHash (input.drop j) m ∧
        memcmpEq pattern (input.drop j) m = true ↔
      ∀ k < m, readAt input (j + k) = readAt pattern k := by
  simp only [memcmpEq_iff, readAt_drop]
  constructor
  · rintro ⟨-, h⟩ k hk
    exact (h k hk).symm
  · intro h
    have hb : bytes (input.drop j) m = bytes pattern m := by
      simp only [bytes]
      apply List.map_congr_left
      intro k hk
      rw [readAt_drop, h k (List.mem_range.mp hk)]
    exact ⟨by rw [windowHash, windowHash, hb], fun k hk => (h k hk).symm⟩

theorem slideLoop_exact {ar : IntArith} {input pattern : List UInt8} {m left j : ℕ} {v : Bool}
    (h : slideLoop ar input pattern (m + 1) (windowHash pattern (m + 1)) (2 ^ m) left j
      (windowHash (input.drop j) (m + 1)) = .ok v) :
    v = true ↔ ∃ s, j ≤ s ∧ s < j + left ∧
      ∀ k < m + 1, readAt input (s + k) = readAt pattern k := by
  induction left generalizing j with
  | zero =>
    obtain rfl := Except.ok.inj h
    simp only [Bool.false_eq_true, false_iff, not_exists, not_and]
    omega
  | succ left ih =>
    simp only [slideLoop, windowHash_eq_and_memcmpEq_iff] at h
    split_ifs at h with hhit
    · obtain rfl := Except.ok.inj h
      exact iff_of_true rfl ⟨j, le_rfl, by omega, hhit⟩
    · obtain ⟨w, h1, h⟩ := bind_ok h
      obtain ⟨u, h2, h⟩ := bind_ok h
      obtain ⟨var2, h3, h⟩ := bind_ok h
      rw [ar.add_ok h3, ar.sub_ok h2, ar.mul_ok h1, ← windowHash_slide] at h
      rw [ih h]
      constructor
      · rintro ⟨s, hs, hlt, ho⟩
        exact ⟨s, by omega, by omega, ho⟩
      · rintro ⟨s, hs, hlt, ho⟩
        refine ⟨s, lt_of_le_of_ne hs ?_, by omega, ho⟩
        rintro rfl
        exact hhit ho

/-- The search as one bind, its loops started from the hashes of empty windows. -/
theorem Rabin_Karp_search_succ (ar : IntArith) (input : List UInt8) (input_len : ℕ)
    (pattern : List UInt8) (m : ℕ) :
    Rabin_Karp_search ar input input_len pattern (m + 1) =
      hashLoop ar input pattern (m + 1) 0 (windowHash pattern 0) (windowHash input 0) >>=
        fun out => slideLoop ar input pattern (m + 1) out.1 (2 ^ m) (input_len - m) 0 out.2 := by
  have hcount : ((input_len : ℤ) - (m + 1 : ℕ) + 1).toNat = input_len - m := by omega
  simp only [Rabin_Karp_search, weight_eq, Nat.add_sub_cancel, hcount]
  rfl

/-- A completed `Rabin_Karp_search` decides whether the pattern occurs in the text. -/
theorem Rabin_Karp_search_exact {ar : IntArith} {input pattern : List UInt8}
    {input_len match_len : ℕ} {v : Bool} (hm : 0 < match_len)
    (h : Rabin_Karp_search ar input input_len pattern match_len = .ok v) :
    v = true ↔ bytes pattern match_len <:+: bytes input input_len := by
  obtain ⟨m, rfl⟩ := Nat.exists_eq_succ_of_ne_zero hm.ne'
  rw [Nat.succ_eq_add_one, Rabin_Karp_search_succ] at h
  obtain ⟨out, hh, h⟩ := bind_ok h
  rw [hashLoop_windowHash hh, Nat.zero_add] at h
  rw [slideLoop_exact h, infix_iff_occursAt]
  simp only [occursAt_bytes_iff hm]
  constructor
  · rintro ⟨s, -, hlt, ho⟩
    exact ⟨s, by omega, ho⟩
  · rintro ⟨s, hle, ho⟩
    exact ⟨s, by omega, by omega, ho⟩

theorem hashLoop_wrapping (input pattern : List UInt8) (left i : ℕ) (var1 var2 : BitVec 32) :
    ∃ out, hashLoop .wrapping input pattern left i var1 var2 = .ok out := by
  induction left generalizing i var1 var2 with
  | zero => exact ⟨_, rfl⟩
  | succ left ih => exact ih (i + 1) _ _

theorem slideLoop_wrapping (input pattern : List UInt8) (match_len : ℕ) (var1 z : BitVec 32)
    (left j : ℕ) (var2 : BitVec 32) :
    ∃ v, slideLoop .wrapping input pattern match_len var1 z left j var2 = .ok v := by
  induction left generalizing j var2 with
  | zero => exact ⟨_, rfl⟩
  | succ left ih =>
    unfold slideLoop
    split_ifs
    · exact ⟨_, rfl⟩
    · exact ih (j + 1) _

/-- Under wrap-around every search ends, and decides. -/
theorem Rabin_Karp_search_wrapping_decides {input pattern : List UInt8}
    {input_len match_len : ℕ} (hm : 0 < match_len) :
    ∃ v, Rabin_Karp_search .wrapping input input_len pattern match_len = .ok v ∧
      (v = true ↔ bytes pattern match_len <:+: bytes input input_len) := by
  obtain ⟨m, rfl⟩ := Nat.exists_eq_succ_of_ne_zero hm.ne'
  obtain ⟨out, hhash⟩ := hashLoop_wrapping input pattern (m + 1) 0 (windowHash pattern 0)
    (windowHash input 0)
  obtain ⟨v, hslide⟩ := slideLoop_wrapping input pattern (m + 1) out.1 (2 ^ m) (input_len - m) 0
    out.2
  have h : Rabin_Karp_search .wrapping input input_len pattern (m + 1) = .ok v := by
    rw [Rabin_Karp_search_succ, hhash]
    exact hslide
  exact ⟨v, h, Rabin_Karp_search_exact hm h⟩

/-- The weight of 34 characters has wrapped to zero. -/
theorem Rabin_Karp_search_wrapping_decides_long :
    ∃ v, Rabin_Karp_search .wrapping (255 :: List.replicate 40 200) 41
        (List.replicate 34 200) 34 = .ok v ∧
      (v = true ↔ bytes (List.replicate 34 200) 34 <:+: bytes (255 :: List.replicate 40 200) 41) :=
  Rabin_Karp_search_wrapping_decides (by decide)

end OctopusWaf
