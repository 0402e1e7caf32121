import OctopusWaf.HashOverflow
import OctopusWaf.Library.Traced

/-! `horspool_search` and `Rabin_Karp_search` with the bytes they read. The first looks at its
lengths before it reads, the second hashes as many bytes of the text as the pattern has. -/
namespace OctopusWaf
open CMachine CString StringSearch Traced

/-- Reads of the searched text and of the pattern. -/
inductive SearchRead where
  | text (i : ℕ)
  | pattern (i : ℕ)
  deriving DecidableEq

def fillTableTrace (pattern : List UInt8) :
    (left i : ℕ) → (ℕ → ℤ) → Traced SearchRead (ℕ → ℤ)
  | 0, _, badCharHtable => pure badCharHtable
  | left + 1, i, badCharHtable => do
    touch (.pattern i)
    let c ← quiet (subscript 256 (charInt (readAt pattern i)))
    fillTableTrace pattern left (i + 1) (Function.update badCharHtable c i)

def matchBackwardsTrace (txt pattern : List UInt8) (shift : ℕ) :
    ℕ → Traced SearchRead (Option ℕ)
  | 0 => pure none
  | n + 1 => do
    touch (.pattern n)
    touch (.text (shift + n))
    if readAt pattern n = readAt txt (shift + n) then matchBackwardsTrace txt pattern shift n
    else pure (some n)

def horspoolLoopTrace (txt : List UInt8) (txtLen : ℕ) (pattern : List UInt8) (matchLen : ℕ)
    (badCharHtable : ℕ → ℤ) (shift : ℕ) : Traced SearchRead Bool :=
  if (shift : ℤ) ≤ (txtLen : ℤ) - matchLen then do
    match ← matchBackwardsTrace txt pattern shift matchLen with
    | none => pure true
    | some nInd => do
      touch (.text (shift + nInd))
      let c ← quiet (subscript 256 (charInt (readAt txt (shift + nInd))))
      horspoolLoopTrace txt txtLen pattern matchLen badCharHtable
        (shift + (max_horspool 1 (nInd - badCharHtable c)).toNat)
  else pure false
termination_by txtLen + 1 - shift
decreasing_by
  have h1 := one_le_max_horspool (nInd - badCharHtable c)
  omega

def horspool_searchTrace (txt : List UInt8) (txtLen : ℕ) (pattern : List UInt8)
    (matchLen : ℕ) : Traced SearchRead Bool := do
  let badCharHtable ← fillTableTrace pattern matchLen 0 fun _ => -1
  horspoolLoopTrace txt txtLen pattern matchLen badCharHtable 0

section Horspool

variable {txt pattern : List UInt8} {txtLen matchLen : ℕ}

/-- A read below the two lengths the search is given. -/
def SearchRead.Below (txtLen matchLen : ℕ) : SearchRead → Prop
  | .text i => i < txtLen
  | .pattern i => i < matchLen

theorem fillTableTrace_result (pattern : List UInt8) (left i : ℕ) (table : ℕ → ℤ) :
    (fillTableTrace pattern left i table).result = fillTable pattern left i table := by
  induction left generalizing i table with
  | zero => rfl
  | succ left ih =>
    simp only [fillTableTrace, fillTable, result_bind, result_touch, result_quiet, ok_bind, ih]

theorem fillTableTrace_within {left i : ℕ} {table : ℕ → ℤ} (h : i + left ≤ matchLen) :
    (fillTableTrace pattern left i table).Within (SearchRead.Below txtLen matchLen) := by
  induction left generalizing i table with
  | zero => exact within_pure _
  | succ left ih =>
    simp only [fillTableTrace, within_bind, within_touch, within_quiet, true_and]
    have hi : i < matchLen := by omega
    exact ⟨hi, fun _ _ _ _ => ih (by omega)⟩

theorem matchBackwardsTrace_result (txt pattern : List UInt8) (shift n : ℕ) :
    (matchBackwardsTrace txt pattern shift n).result =
      .ok (matchBackwards txt pattern shift n) := by
  induction n with
  | zero => rfl
  | succ n ih =>
    unfold matchBackwardsTrace matchBackwards
    split_ifs with h
    · simp [ih]
    · simp

theorem matchBackwardsTrace_within {shift n : ℕ} (hn : n ≤ matchLen)
    (hfit : shift + matchLen ≤ txtLen) :
    (matchBackwardsTrace txt pattern shift n).Within (SearchRead.Below txtLen matchLen) := by
  induction n with
  | zero => exact within_pure _
  | succ n ih =>
    simp only [matchBackwardsTrace, within_bind, within_touch, within_ite, within_pure,
      implies_true, and_true]
    have hp : n < matchLen := by omega
    have ht : shift + n < txtLen := by omega
    exact ⟨hp, fun _ _ => ⟨ht, fun _ _ _ => ih (by omega)⟩⟩

theorem horspoolLoopTrace_result (txt : List UInt8) (txtLen : ℕ) (pattern : List UInt8)
    (matchLen : ℕ) (table : ℕ → ℤ) (shift : ℕ) :
    (horspoolLoopTrace txt txtLen pattern matchLen table shift).result =
      horspoolLoop txt txtLen pattern matchLen table shift := by
  induction shift using horspoolLoop.induct txt txtLen pattern matchLen table with
  | case1 shift hfit hn =>
    rw [horspoolLoopTrace, horspoolLoop, if_pos hfit, if_pos hfit, result_bind,
      matchBackwardsTrace_result, hn]
    rfl
  | case2 shift hfit nInd hn ih =>
    rw [horspoolLoopTrace, horspoolLoop, if_pos hfit, if_pos hfit, result_bind,
      matchBackwardsTrace_result, hn]
    simp [ih]
  | case3 shift hfit =>
    rw [horspoolLoopTrace, horspoolLoop, if_neg hfit, if_neg hfit]
    rfl

theorem horspoolLoopTrace_within {table : ℕ → ℤ} {shift : ℕ} :
    (horspoolLoopTrace txt txtLen pattern matchLen table shift).Within
      (SearchRead.Below txtLen matchLen) := by
  induction shift using horspoolLoop.induct txt txtLen pattern matchLen table with
  | case1 shift hfit hn =>
    rw [horspoolLoopTrace, if_pos hfit, within_bind]
    refine ⟨matchBackwardsTrace_within le_rfl (by omega), fun r hr => ?_⟩
    rw [matchBackwardsTrace_result, hn] at hr
    obtain rfl := Except.ok.inj hr
    exact within_pure _
  | case2 shift hfit nInd hn ih =>
    rw [horspoolLoopTrace, if_pos hfit, within_bind]
    refine ⟨matchBackwardsTrace_within le_rfl (by omega), fun r hr => ?_⟩
    rw [matchBackwardsTrace_result, hn] at hr
    obtain rfl := Except.ok.inj hr
    have hlt := (matchBackwards_some hn).1
    have ht : shift + nInd < txtLen := by omega
    simp only [within_bind, within_touch, within_quiet, true_and]
    exact ⟨ht, fun _ _ c _ => ih c⟩
  | case3 shift hfit =>
    rw [horspoolLoopTrace, if_neg hfit]
    exact within_pure _

theorem horspool_searchTrace_result (txt : List UInt8) (txtLen : ℕ) (pattern : List UInt8)
    (matchLen : ℕ) : (horspool_searchTrace txt txtLen pattern matchLen).result =
      horspool_search txt txtLen pattern matchLen := by
  simp only [horspool_searchTrace, horspool_search, result_bind, fillTableTrace_result,
    horspoolLoopTrace_result]

theorem horspool_searchTrace_within : (horspool_searchTrace txt txtLen pattern matchLen).Within
    (SearchRead.Below txtLen matchLen) := by
  simp only [horspool_searchTrace, within_bind]
  exact ⟨fillTableTrace_within (by omega), fun _ _ => horspoolLoopTrace_within⟩

/-- Without a subscript outside the table the search ends, has read below both lengths only,
and decides. The reads are those of the same run. -/
theorem horspool_search_decides (hm : 0 < matchLen)
    (hsub : horspool_search txt txtLen pattern matchLen ≠ .error .subscript) :
    (horspool_searchTrace txt txtLen pattern matchLen).Within
        (SearchRead.Below txtLen matchLen) ∧
      ∃ v, horspool_search txt txtLen pattern matchLen = .ok v ∧
        (horspool_searchTrace txt txtLen pattern matchLen).result = .ok v ∧
        (v = true ↔ bytes pattern matchLen <:+: bytes txt txtLen) := by
  refine ⟨horspool_searchTrace_within, ?_⟩
  cases h : horspool_search txt txtLen pattern matchLen with
  | error t =>
    obtain rfl := horspool_search_error h
    exact absurd h hsub
  | ok v =>
    have htrace := horspool_searchTrace_result txt txtLen pattern matchLen
    exact ⟨v, rfl, htrace.trans h, horspool_search_exact hm h⟩

/-- A text whose mismatching character stands further right in the pattern, so that the
window moves by one. -/
theorem horspool_search_decides_clamped :
    (horspool_searchTrace (ascii "babaab") 6 (ascii "aab") 3).Within (SearchRead.Below 6 3) ∧
      ∃ v, horspool_search (ascii "babaab") 6 (ascii "aab") 3 = .ok v ∧
        (horspool_searchTrace (ascii "babaab") 6 (ascii "aab") 3).result = .ok v ∧
        (v = true ↔ bytes (ascii "aab") 3 <:+: bytes (ascii "babaab") 6) :=
  horspool_search_decides (by decide) (by decide +kernel)

end Horspool

/-- The hashes, with the indices of `input` that are read. -/
def hashLoopTrace (ar : IntArith) (input pattern : List UInt8) :
    (left i : ℕ) → (var1 var2 : BitVec 32) → Traced ℕ (BitVec 32 × BitVec 32)
  | 0, _, var1, var2 => pure (var1, var2)
  | left + 1, i, var1, var2 => do
    let var1 ← quiet (ar.add (var1 <<< 1) (charWord (readAt pattern i)))
    touch i
    let var2 ← quiet (ar.add (var2 <<< 1) (charWord (readAt input i)))
    hashLoopTrace ar input pattern left (i + 1) var1 var2

/-- `var1 == var2 && memcmp(match, input + j, match_len) == 0`. -/
def windowTestTrace (input pattern : List UInt8) (match_len j : ℕ) (var1 var2 : BitVec 32) :
    Traced ℕ Bool :=
  if var1 = var2 then memcmpTrace (j + ·) pattern (input.drop j) match_len else pure false

def slideLoopTrace (ar : IntArith) (input pattern : List UInt8) (match_len : ℕ)
    (var1 z : BitVec 32) : (left j : ℕ) → (var2 : BitVec 32) → Traced ℕ Bool
  | 0, _, _ => pure false
  | left + 1, j, var2 => do
    if ← windowTestTrace input pattern match_len j var1 var2 then pure true
    else do
      touch j
      let w ← quiet (ar.mul (charWord (readAt input j)) z)
      let v ← quiet (ar.sub var2 w)
      touch (j + match_len)
      let var2 ← quiet (ar.add (v <<< 1) (charWord (readAt input (j + match_len))))
      slideLoopTrace ar input pattern match_len var1 z left (j + 1) var2

def Rabin_Karp_searchTrace (ar : IntArith) (input : List UInt8) (input_len : ℕ)
    (pattern : List UInt8) (match_len : ℕ) : Traced ℕ Bool := do
  let z := (fun z : BitVec 32 => z <<< 1)^[match_len - 1] 1
  let (var1, var2) ← hashLoopTrace ar input pattern match_len 0 0 0
  let sub : ℤ := (input_len : ℤ) - match_len
  slideLoopTrace ar input pattern match_len var1 z (sub + 1).toNat 0 var2

section RabinKarp

variable {ar : IntArith} {input pattern : List UInt8} {input_len match_len : ℕ}

theorem hashLoopTrace_result (ar : IntArith) (input pattern : List UInt8) (left i : ℕ)
    (var1 var2 : BitVec 32) : (hashLoopTrace ar input pattern left i var1 var2).result =
      hashLoop ar input pattern left i var1 var2 := by
  induction left generalizing i var1 var2 with
  | zero => rfl
  | succ left ih =>
    simp only [hashLoopTrace, hashLoop, result_bind, result_touch, result_quiet, ok_bind, ih]

theorem windowTestTrace_result (input pattern : List UInt8) (match_len j : ℕ)
    (var1 var2 : BitVec 32) : (windowTestTrace input pattern match_len j var1 var2).result =
      .ok (decide (var1 = var2 ∧ memcmpEq pattern (input.drop j) match_len)) := by
  unfold windowTestTrace
  split_ifs with h <;> simp [h, -memcmpEq_iff]

theorem slideLoopTrace_result (ar : IntArith) (input pattern : List UInt8) (match_len : ℕ)
    (var1 z : BitVec 32) (left j : ℕ) (var2 : BitVec 32) :
    (slideLoopTrace ar input pattern match_len var1 z left j var2).result =
      slideLoop ar input pattern match_len var1 z left j var2 := by
  induction left generalizing j var2 with
  | zero => rfl
  | succ left ih =>
    simp only [slideLoopTrace, slideLoop, result_bind, windowTestTrace_result, ok_bind,
      decide_eq_true_eq]
    split_ifs with h
    · rfl
    · simp only [result_bind, result_touch, result_quiet, ok_bind, ih]

theorem Rabin_Karp_searchTrace_result (ar : IntArith) (input : List UInt8) (input_len : ℕ)
    (pattern : List UInt8) (match_len : ℕ) :
    (Rabin_Karp_searchTrace ar input input_len pattern match_len).result =
      Rabin_Karp_search ar input input_len pattern match_len := by
  simp only [Rabin_Karp_searchTrace, Rabin_Karp_search, result_bind, hashLoopTrace_result,
    slideLoopTrace_result]

/-- The slides of a text that is long enough read up to its terminator. -/
theorem slideLoopTrace_within {var1 z : BitVec 32} {left j : ℕ} {var2 : BitVec 32}
    (hfit : left = 0 ∨ j + left + match_len ≤ input_len + 1) :
    (slideLoopTrace ar input pattern match_len var1 z left j var2).Within (· ≤ input_len) := by
  induction left generalizing j var2 with
  | zero => exact within_pure _
  | succ left ih =>
    have hj : j ≤ input_len := by omega
    have hend : j + match_len ≤ input_len := by omega
    have htest : (windowTestTrace input pattern match_len j var1 var2).Within
        (· ≤ input_len) := by
      simp only [windowTestTrace, within_ite, within_pure, implies_true, and_true]
      intro _ i hi
      obtain ⟨k, hk, rfl⟩ := (mem_memcmpTrace _).mp hi
      omega
    simp only [slideLoopTrace, within_bind, within_ite, within_pure, within_touch, within_quiet,
      implies_true, true_and]
    exact ⟨htest, fun _ _ _ => ⟨hj, fun _ _ _ _ _ _ => ⟨hend, fun _ _ _ _ =>
      ih (.inr (by omega))⟩⟩⟩

/-- The addition for character `k` of a hash completes. -/
def AddsUp (ar : IntArith) (s : List UInt8) (k : ℕ) : Prop :=
  ∃ z, ar.add (windowHash s k <<< 1) (charWord (readAt s k)) = .ok z

/-- Hashing reads past the terminator unless it ends there, or an addition before stops the
program. -/
theorem hashLoopTrace_within_iff {left i : ℕ} (hi : i ≤ input_len + 1) :
    (hashLoopTrace ar input pattern left i (windowHash pattern i) (windowHash input i)).Within
        (· ≤ input_len) ↔
      i + left ≤ input_len + 1 ∨
        ¬ ((∀ k, i ≤ k → k ≤ input_len + 1 → AddsUp ar pattern k) ∧
          ∀ k, i ≤ k → k ≤ input_len → AddsUp ar input k) := by
  induction left generalizing i with
  | zero => exact iff_of_true (within_pure _) (.inl hi)
  | succ left ih =>
    simp only [hashLoopTrace, within_bind, within_quiet, within_touch, true_and, result_quiet,
      result_touch]
    by_cases hp : AddsUp ar pattern i
    · obtain ⟨v1, hv1⟩ := id hp
      rcases Nat.lt_or_ge input_len i with hlt | hle
      · refine iff_of_false (fun h => ?_) (not_or.mpr ⟨by omega, not_not.mpr ⟨?_, ?_⟩⟩)
        · have hread := (h v1 hv1).1
          omega
        · intro k hk hkn
          rwa [show k = i by omega]
        · intro k hk hkn
          omega
      · by_cases hin : AddsUp ar input i
        · obtain ⟨v2, hv2⟩ := id hin
          have hnext := ih (i := i + 1) (by omega)
          rw [windowHash_succ, windowHash_succ, ← ar.add_ok hv1, ← ar.add_ok hv2] at hnext
          rw [forall_from_iff i, forall_from_iff i]
          simp only [hv1, hv2, Except.ok.injEq, forall_eq', hle, hi, hp, hin, true_and,
            forall_const, hnext, show i + 1 + left = i + (left + 1) by omega]
        · refine iff_of_true (fun v hv => ⟨hle, fun _ _ w hw => absurd ⟨w, hw⟩ hin⟩)
            (.inr fun h => hin (h.2 i le_rfl hle))
    · refine iff_of_true (fun v hv => absurd ⟨v, hv⟩ hp) (.inr fun h => ?_)
      exact hp (h.1 i le_rfl hi)

/-- The searches that read at most the terminator: the slides never do more. -/
theorem Rabin_Karp_searchTrace_within_iff :
    (Rabin_Karp_searchTrace ar input input_len pattern match_len).Within (· ≤ input_len) ↔
      match_len ≤ input_len + 1 ∨
        ¬ ((∀ k ≤ input_len + 1, AddsUp ar pattern k) ∧ ∀ k ≤ input_len, AddsUp ar input k) := by
  have hhash : (hashLoopTrace ar input pattern match_len 0 0 0).Within (· ≤ input_len) ↔ _ :=
    hashLoopTrace_within_iff (Nat.zero_le _)
  simp only [Nat.zero_add, Nat.zero_le, forall_const] at hhash
  rw [← hhash, Rabin_Karp_searchTrace, within_bind]
  exact and_iff_left fun out _ => slideLoopTrace_within (by omega)

theorem addsUp_wrapping (s : List UInt8) (k : ℕ) : AddsUp .wrapping s k := ⟨_, rfl⟩

theorem addsUp_ftrapv_iff {s : List UInt8} {k : ℕ} :
    AddsUp .ftrapv s k ↔ FitsInt (wrapInt (horner s k * 2) + charInt (readAt s k)) := by
  simp only [AddsUp, ftrapv_add, toInt_windowHash_shiftLeft, toInt_charWord]
  split_ifs with h <;> simp [h]

/-- Under wrap-around a search reads past the terminator of a request exactly if the pattern is
more than one byte longer; where an overflow stops the program, if it does not do so before.
The reads are those of the run that gives the answer. -/
theorem Rabin_Karp_reads_request_iff (input : List UInt8) (input_len : ℕ)
    (pattern : List UInt8) (match_len : ℕ) :
    (∀ ar, (Rabin_Karp_searchTrace ar input input_len pattern match_len).result =
        Rabin_Karp_search ar input input_len pattern match_len) ∧
      ((Rabin_Karp_searchTrace .wrapping input input_len pattern match_len).Within
          (· ≤ input_len) ↔ match_len ≤ input_len + 1) ∧
      ((Rabin_Karp_searchTrace .ftrapv input input_len pattern match_len).Within
          (· ≤ input_len) ↔
        match_len ≤ input_len + 1 ∨
          ¬ (HashFits pattern (input_len + 2) ∧ HashFits input (input_len + 1))) := by
  refine ⟨fun ar => Rabin_Karp_searchTrace_result ar _ _ _ _, ?_, ?_⟩
  · rw [Rabin_Karp_searchTrace_within_iff]
    simp [addsUp_wrapping]
  · rw [Rabin_Karp_searchTrace_within_iff]
    simp only [addsUp_ftrapv_iff, HashFits, Nat.lt_succ_iff]

/-- A shipped rule of 20 characters reads seven bytes behind the terminator of a short request. -/
theorem Rabin_Karp_reads_past_request :
    is_request (ascii "GET /abcde" ++ [0]) = true ∧
      strnlen (ascii "GET /abcde" ++ [0]) 6128 = 10 ∧
      strnlen (ascii "myappadmin.adduser('") 2048 = 20 ∧
      ∀ ar ∈ [IntArith.wrapping, IntArith.ftrapv],
        17 ∈ (Rabin_Karp_searchTrace ar (ascii "GET /abcde" ++ [0]) 10
          (ascii "myappadmin.adduser('") (20 - 2)).accesses := by
  decide +kernel

end RabinKarp

end OctopusWaf
