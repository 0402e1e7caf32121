import OctopusWaf.FilterCheck

/-! When the sums and products of `Rabin_Karp_search` stay in the range of `int`, in terms of
the exact hashes, which have no modulus and double with every character. -/
namespace OctopusWaf
open CMachine CString StringSearch

/-- The exact hash of the first `n` characters at a pointer. -/
def horner (s : List UInt8) (n : ℕ) : ℤ := polyHash 2 (charInts s n)

theorem horner_succ (s : List UInt8) (n : ℕ) :
    horner s (n + 1) = horner s n * 2 + charInt (readAt s n) := by
  rw [horner, charInts_succ, polyHash_append_singleton]
  rfl

/-- What is left of a window without its leading character. -/
theorem horner_tail (input : List UInt8) (j m : ℕ) :
    horner (input.drop j) (m + 1) - charInt (readAt input j) * 2 ^ m =
      horner (input.drop (j + 1)) m := by
  have h := polyHash_bytes_tail charInt (input.drop j) m
  rwa [List.drop_drop, readAt_drop, Nat.add_zero] at h

theorem windowHash_eq_ofInt (s : List UInt8) (n : ℕ) :
    windowHash s n = BitVec.ofInt 32 (horner s n) := by
  induction n with
  | zero => rfl
  | succ n ih =>
    rw [windowHash_succ, ih, shiftLeft_one_eq, horner_succ, BitVec.ofInt_add, BitVec.ofInt_mul]
    rfl

@[simp] theorem toInt_windowHash (s : List UInt8) (n : ℕ) :
    (windowHash s n).toInt = wrapInt (horner s n) := by
  rw [windowHash_eq_ofInt, toInt_ofInt]

@[simp] theorem toInt_windowHash_shiftLeft (s : List UInt8) (n : ℕ) :
    (windowHash s n <<< 1).toInt = wrapInt (horner s n * 2) := by
  rw [windowHash_eq_ofInt, shiftLeft_one_eq, ← toInt_ofInt, BitVec.ofInt_mul]
  rfl

theorem two_pow_eq_ofInt (n : ℕ) : (2 : BitVec 32) ^ n = BitVec.ofInt 32 (2 ^ n) := by
  induction n with
  | zero => rfl
  | succ n ih =>
    rw [pow_succ, ih, pow_succ, BitVec.ofInt_mul]
    rfl

/-- No addition overflows while the first `n` characters are hashed. The shifts before the
additions are not checked. -/
def HashFits (s : List UInt8) (n : ℕ) : Prop :=
  ∀ k < n, FitsInt (wrapInt (horner s k * 2) + charInt (readAt s k))

instance (s : List UInt8) (n : ℕ) : Decidable (HashFits s n) := by
  unfold HashFits
  infer_instance

/-- No operation overflows when the window of `m` characters moves on from `j`. -/
structure SlideFits (input : List UInt8) (m j : ℕ) : Prop where
  mul : FitsInt (charInt (readAt input j) * wrapInt (2 ^ (m - 1)))
  sub : FitsInt (wrapInt (horner (input.drop j) m) -
    charInt (readAt input j) * wrapInt (2 ^ (m - 1)))
  add : FitsInt (wrapInt (horner (input.drop (j + 1)) (m - 1) * 2) +
    charInt (readAt input (j + m)))

theorem checked_bind_iff {β : Type} {P : Prop} [Decidable P] {a : BitVec 32}
    {f : BitVec 32 → Except Trap β} :
    ((if P then .ok a else .error .overflow) >>= f) ≠ .error .overflow ↔
      P ∧ f a ≠ .error .overflow := by
  split_ifs with h
  · simp [h]
  · exact iff_of_false (fun hne => hne rfl) fun hp => h hp.1

/-- The hash loop, and what follows it. -/
theorem hashLoop_ftrapv_iff {β : Type} {input pattern : List UInt8} {left i : ℕ}
    {f : BitVec 32 × BitVec 32 → Except Trap β} :
    (hashLoop .ftrapv input pattern left i (windowHash pattern i) (windowHash input i) >>= f) ≠
        .error .overflow ↔
      (∀ k, i ≤ k → k < i + left →
        FitsInt (wrapInt (horner pattern k * 2) + charInt (readAt pattern k)) ∧
          FitsInt (wrapInt (horner input k * 2) + charInt (readAt input k))) ∧
      f (windowHash pattern (i + left), windowHash input (i + left)) ≠ .error .overflow := by
  induction left generalizing i with
  | zero =>
    refine (and_iff_right fun k hk hlt => ?_).symm
    omega
  | succ left ih =>
    have hi : i < i + (left + 1) := by omega
    rw [forall_from_iff i]
    simp only [hashLoop, bind_assoc, ftrapv_add, checked_bind_iff, ← windowHash_succ, ih,
      toInt_windowHash_shiftLeft, toInt_charWord, show i + 1 + left = i + (left + 1) by omega,
      hi, forall_const, and_assoc]

/-- One slide, and what follows it. -/
theorem slide_ftrapv_iff {β : Type} {input : List UInt8} {m j : ℕ}
    {f : BitVec 32 → Except Trap β} :
    (do
      let w ← IntArith.ftrapv.mul (charWord (readAt input j)) (2 ^ m)
      let v ← IntArith.ftrapv.sub (windowHash (input.drop j) (m + 1)) w
      let var2 ← IntArith.ftrapv.add (v <<< 1) (charWord (readAt input (j + (m + 1))))
      f var2) ≠ .error .overflow ↔
    SlideFits input (m + 1) j ∧ f (windowHash (input.drop (j + 1)) (m + 1)) ≠ .error .overflow := by
  have hz : ((2 : BitVec 32) ^ m).toInt = wrapInt (2 ^ m) := by
    rw [two_pow_eq_ofInt, toInt_ofInt]
  rw [windowHash_slide]
  simp only [ftrapv_mul, ftrapv_sub, ftrapv_add, checked_bind_iff, toInt_charWord, hz,
    windowHash_tail, toInt_windowHash, toInt_windowHash_shiftLeft]
  have hw (hmul : FitsInt (charInt (readAt input j) * wrapInt (2 ^ m))) :
      (charWord (readAt input j) * 2 ^ m).toInt =
        charInt (readAt input j) * wrapInt (2 ^ m) := by
    rw [BitVec.toInt_mul, toInt_charWord, hz]
    exact wrapInt_eq hmul
  constructor
  · rintro ⟨hmul, hsub, hadd, hf⟩
    rw [hw hmul] at hsub
    exact ⟨⟨hmul, hsub, hadd⟩, hf⟩
  · rintro ⟨⟨hmul, hsub, hadd⟩, hf⟩
    rw [hw hmul]
    exact ⟨hmul, hsub, hadd, hf⟩

/-- The loop overflows in the first slide that does not fit, unless it has returned before. -/
theorem slideLoop_ftrapv_iff {input pattern : List UInt8} {m left j : ℕ} :
    slideLoop .ftrapv input pattern (m + 1) (windowHash pattern (m + 1)) (2 ^ m) left j
        (windowHash (input.drop j) (m + 1)) ≠ .error .overflow ↔
      ∀ k, j ≤ k → k < j + left →
        (∀ s, j ≤ s → s ≤ k → ¬ ∀ i < m + 1, readAt input (s + i) = readAt pattern i) →
          SlideFits input (m + 1) k := by
  induction left generalizing j with
  | zero => exact iff_of_true (by simp [slideLoop]) fun k hk hlt => by omega
  | succ left ih =>
    simp only [slideLoop, windowHash_eq_and_memcmpEq_iff]
    split_ifs with hhit
    · exact iff_of_true (by simp) fun k hk _ hnone => absurd hhit (hnone j le_rfl hk)
    · rw [slide_ftrapv_iff, ih]
      constructor
      · rintro ⟨hfits, h⟩ k hk hlt hnone
        rcases hk.eq_or_lt with rfl | hjk
        · exact hfits
        · exact h k hjk (by omega) fun s hs => hnone s (by omega)
      · intro h
        have hj : ∀ s, j ≤ s → s ≤ j → ¬ ∀ i < m + 1, readAt input (s + i) = readAt pattern i := by
          intro s hs hsj
          rwa [show s = j by omega]
        refine ⟨h j le_rfl (by omega) hj, fun k hk hlt hnone => ?_⟩
        refine h k (by omega) (by omega) fun s hs hsk => ?_
        rcases hs.eq_or_lt with rfl | hjs
        · exact hhit
        · exact hnone s hjs hsk

/-- The runs of `Rabin_Karp_search` without an overflow: the hashes of the pattern and of the
first window fit, and so does every slide that no occurrence forestalls. -/
theorem Rabin_Karp_search_ftrapv_iff {input pattern : List UInt8} {input_len match_len : ℕ}
    (hm : 0 < match_len) :
    Rabin_Karp_search .ftrapv input input_len pattern match_len ≠ .error .overflow ↔
      HashFits pattern match_len ∧ HashFits input match_len ∧
        ∀ j, j + match_len ≤ input_len →
          (∀ s ≤ j, ¬ OccursAt (bytes pattern match_len) (bytes input input_len) s) →
            SlideFits input match_len j := by
  obtain ⟨m, rfl⟩ := Nat.exists_eq_succ_of_ne_zero hm.ne'
  have hslide : slideLoop .ftrapv input pattern (m + 1) (windowHash pattern (m + 1)) (2 ^ m)
      (input_len - m) 0 (windowHash (input.drop 0) (m + 1)) ≠ .error .overflow ↔ _ :=
    slideLoop_ftrapv_iff
  simp only [List.drop_zero, Nat.zero_le, forall_const, Nat.zero_add] at hslide
  have hocc {s j : ℕ} (hj : j + (m + 1) ≤ input_len) (hs : s ≤ j) :
      OccursAt (bytes pattern (m + 1)) (bytes input input_len) s ↔
        ∀ i < m + 1, readAt input (s + i) = readAt pattern i := by
    rw [occursAt_bytes_iff hm]
    exact and_iff_right (by omega)
  simp only [Nat.succ_eq_add_one, Rabin_Karp_search_succ, hashLoop_ftrapv_iff, Nat.zero_add,
    Nat.zero_le, forall_const, imp_and, forall_and, and_assoc, hslide]
  refine Iff.rfl.and (Iff.rfl.and ⟨fun h j hj hnone => ?_, fun h j hj hnone => ?_⟩)
  · exact h j (by omega) fun s hs ho => hnone s hs ((hocc hj hs).mpr ho)
  · have hfit : j + (m + 1) ≤ input_len := by omega
    exact h j hfit fun s hs ho => hnone s hs ((hocc hfit hs).mp ho)

theorem horner_bounds (s : List UInt8) (n : ℕ) :
    -(128 * (2 ^ n - 1)) ≤ horner s n ∧ horner s n ≤ 128 * (2 ^ n - 1) := by
  induction n with
  | zero => simp [horner, charInts, polyHash]
  | succ n ih =>
    have hc := charInt_bounds (readAt s n)
    rw [horner_succ, pow_succ]
    omega

/-- Up to 24 characters cannot overflow. -/
theorem hashFits_of_le (s : List UInt8) {n : ℕ} (hn : n ≤ 24) : HashFits s n := by
  intro k hk
  have hpow : (2 : ℤ) ^ k ≤ 2 ^ 23 := pow_le_pow_right₀ (by decide) (by omega)
  have hh := horner_bounds s k
  have hc := charInt_bounds (readAt s k)
  rw [wrapInt_eq (by unfold FitsInt; omega)]
  unfold FitsInt
  omega

theorem slideFits_of_le (input : List UInt8) {m : ℕ} (j : ℕ) (hm : m < 24) :
    SlideFits input (m + 1) j := by
  have hc := charInt_bounds (readAt input j)
  have hpow : (2 : ℤ) ^ m ≤ 2 ^ 23 := pow_le_pow_right₀ (by decide) (by omega)
  have hpos : (0 : ℤ) ≤ 2 ^ m := by positivity
  have hlow : -128 * 2 ^ m ≤ charInt (readAt input j) * 2 ^ m :=
    mul_le_mul_of_nonneg_right hc.1 hpos
  have hhigh : charInt (readAt input j) * 2 ^ m ≤ 127 * 2 ^ m :=
    mul_le_mul_of_nonneg_right hc.2 hpos
  have hweight : wrapInt (2 ^ m) = 2 ^ m := wrapInt_eq (by unfold FitsInt; omega)
  have hpow' : (2 : ℤ) ^ (m + 1) ≤ 2 ^ 24 := pow_le_pow_right₀ (by decide) (by omega)
  have hwindow := horner_bounds (input.drop j) (m + 1)
  have htail := horner_bounds (input.drop (j + 1)) m
  refine ⟨?_, ?_, ?_⟩
  · rw [Nat.add_sub_cancel, hweight]
    unfold FitsInt
    omega
  · rw [Nat.add_sub_cancel, hweight, wrapInt_eq (by unfold FitsInt; omega), horner_tail]
    unfold FitsInt
    omega
  · have hfits := hashFits_of_le (input.drop (j + 1)) (n := m + 1) (by omega) m (by omega)
    rwa [readAt_drop, show j + 1 + m = j + (m + 1) by omega] at hfits

/-- A request whose first 24 characters have the hash `2 ^ 30 + 1` and whose next one is
negative. -/
def overflowHead : List UInt8 :=
  ascii "GET " ++ 216 :: 1 :: List.replicate 18 255 ++ [128]

theorem not_hashFits_overflowHead (rest : List UInt8) {n : ℕ} (hn : 24 < n) :
    ¬ HashFits (overflowHead ++ rest) n := by
  intro h
  have hhash : horner (overflowHead ++ rest) 24 = 2 ^ 30 + 1 := by
    rw [horner, charInts, bytes_append (by decide +kernel)]
    decide +kernel
  have hnext : readAt (overflowHead ++ rest) 24 = 128 := rfl
  have hfits := h 24 hn
  rw [hhash, hnext] at hfits
  revert hfits
  decide +kernel

theorem is_request_overflowHead (rest : List UInt8) : is_request (overflowHead ++ rest) = true := by
  rfl

theorem strnlen_overflowHead (k : ℕ) :
    strnlen (overflowHead ++ List.replicate k 97 ++ [0]) 6128 = min 6128 (25 + k) := by
  have hz : ∀ c ∈ overflowHead ++ List.replicate k 97, c ≠ 0 := by
    intro c hc
    rcases List.mem_append.mp hc with hhead | hrest
    · have hhead' : ∀ c ∈ overflowHead, c ≠ 0 := by decide +kernel
      exact hhead' c hhead
    · rw [List.eq_of_mem_replicate hrest]
      decide
  have hlen : overflowHead.length = 25 := by decide +kernel
  rw [strnlen_terminated hz, List.length_append, hlen, List.length_replicate]

/-- A rule line overflows on no accepted request exactly if it has at most 26 characters; for
one rule and one buffer the sums and products fit one by one up to the first occurrence. -/
theorem hash_never_overflows_iff (e : Engines) {line : List UInt8}
    (hline : 4 < strnlen line 2048) :
    ((∀ input, is_request input = true → strnlen line 2048 - 2 ≤ strnlen input 6128 →
        matchLine .ftrapv e input (strnlen input 6128) 3 line ≠ .error .overflow) ↔
      strnlen line 2048 ≤ 26) ∧
    ∀ input input_len, matchLine .ftrapv e input input_len 3 line ≠ .error .overflow ↔
      HashFits line (strnlen line 2048 - 2) ∧ HashFits input (strnlen line 2048 - 2) ∧
        ∀ j, j + (strnlen line 2048 - 2) ≤ input_len →
          (∀ s ≤ j, ¬ OccursAt (stem line) (bytes input input_len) s) →
            SlideFits input (strnlen line 2048 - 2) j := by
  have hpos : 0 < strnlen line 2048 - 2 := by omega
  have hpair (input : List UInt8) (input_len : ℕ) :
      Rabin_Karp_search .ftrapv input input_len line (strnlen line 2048 - 2) ≠
        .error .overflow ↔ _ := Rabin_Karp_search_ftrapv_iff hpos
  have hcall (input : List UInt8) (input_len : ℕ) :
      matchLine .ftrapv e input input_len 3 line =
        Rabin_Karp_search .ftrapv input input_len line (strnlen line 2048 - 2) := if_pos hline
  simp only [hcall]
  refine ⟨⟨fun h => ?_, fun hshort input _ _ => ?_⟩, hpair⟩
  · by_contra hlong
    have hcap := strnlen_le line 2048
    have hfits := h (overflowHead ++ List.replicate (strnlen line 2048) 97 ++ [0])
      (by rw [List.append_assoc]; exact is_request_overflowHead _)
      (by rw [strnlen_overflowHead]; omega)
    rw [hpair, List.append_assoc] at hfits
    exact not_hashFits_overflowHead _ (by omega) hfits.2.1
  · rw [hpair]
    refine ⟨hashFits_of_le _ (by omega), hashFits_of_le _ (by omega), fun j _ _ => ?_⟩
    have hslide := slideFits_of_le input j (m := strnlen line 2048 - 3) (by omega)
    rwa [show strnlen line 2048 - 3 + 1 = strnlen line 2048 - 2 by omega] at hslide

/-- No request overflows with a rule of 26 characters. -/
theorem hash_never_overflows_twenty_six :
    matchLine .ftrapv quietEngines (ascii "GET /?id=' or '1'='1&x=aaaaaaaaaa" ++ [0]) 33 3
      (ascii "' and 1=1 and 'x'='x' -- -") ≠ .error .overflow := by
  have hlen : strnlen (ascii "GET /?id=' or '1'='1&x=aaaaaaaaaa" ++ [0]) 6128 = 33 := by
    decide +kernel
  have hline : 4 < strnlen (ascii "' and 1=1 and 'x'='x' -- -") 2048 := by decide +kernel
  have h := (hash_never_overflows_iff quietEngines hline).1.mpr (by decide +kernel)
    (ascii "GET /?id=' or '1'='1&x=aaaaaaaaaa" ++ [0]) (by decide +kernel) (by decide +kernel)
  rwa [hlen] at h

/-- With a rule of the shipped list the first slide multiplies `G` by `2 ^ 28`, so an ordinary
request stops the program. -/
theorem hash_overflows_shipped_rule :
    is_request (ascii "GET /index.html HTTP/1.1\r\nHost: a" ++ [0]) = true ∧
      strnlen (ascii "GET /index.html HTTP/1.1\r\nHost: a" ++ [0]) 6128 = 33 ∧
      matchlist .ftrapv quietEngines (matchOnly (ascii "1=utl_inaddr.get_host_address((") 3)
        (ascii "GET /index.html HTTP/1.1\r\nHost: a" ++ [0]) 33 3 = .error .overflow := by
  decide +kernel

end OctopusWaf
