import Mathlib.Data.List.TakeWhile
import Mathlib.Tactic

/-! C strings over byte lists. A list stands for the memory from a pointer on; reading
past its end yields zero bytes, so every list is terminated somewhere. -/
namespace CString

variable {ε : Type}

/-- The bytes of an ASCII literal. -/
def ascii (s : String) : List UInt8 := s.toList.map fun c => UInt8.ofNat c.toNat

/-- The string at a pointer, without its terminator. -/
def cstr (s : List UInt8) : List UInt8 := s.takeWhile (· ≠ 0)

/-- `strnlen` looks at no more than `n` bytes. -/
def strnlen (s : List UInt8) (n : ℕ) : ℕ := (cstr (s.take n)).length

def readAt (s : List UInt8) (i : ℕ) : UInt8 := s.getD i 0

/-- The first `n` bytes of the memory at a pointer. -/
def bytes (s : List UInt8) (n : ℕ) : List UInt8 := (List.range n).map (readAt s)

/-- `memcmp(a, b, n) == 0`. -/
def memcmpEq (a b : List UInt8) (n : ℕ) : Bool := (List.range n).all fun i => readAt a i = readAt b i

@[simp] theorem length_bytes (s : List UInt8) (n : ℕ) : (bytes s n).length = n := by simp [bytes]

@[simp] theorem bytes_zero (s : List UInt8) : bytes s 0 = [] := rfl

theorem bytes_succ (s : List UInt8) (n : ℕ) : bytes s (n + 1) = bytes s n ++ [readAt s n] := by
  simp [bytes, List.range_succ]

@[simp] theorem getElem_bytes (s : List UInt8) {n i : ℕ} (hi : i < (bytes s n).length) :
    (bytes s n)[i] = readAt s i := by simp [bytes]

theorem getElem?_bytes (s : List UInt8) {n i : ℕ} (hi : i < n) :
    (bytes s n)[i]? = some (readAt s i) := by simp [bytes, hi]

theorem take_bytes (s : List UInt8) {n k : ℕ} (hk : k ≤ n) : (bytes s n).take k = bytes s k := by
  simp [bytes, ← List.map_take, List.take_range, hk]

theorem bytes_eq_take {s : List UInt8} {n : ℕ} (hn : n ≤ s.length) : bytes s n = s.take n := by
  apply List.ext_getElem (by simp [hn])
  intro i hi _
  rw [length_bytes] at hi
  simp [readAt, List.getD_eq_getElem?_getD, List.getElem?_eq_getElem (hi.trans_le hn)]

/-- What stands behind a text is not read up to its length. -/
theorem bytes_append {s : List UInt8} {n : ℕ} (hn : n ≤ s.length) (rest : List UInt8) :
    bytes (s ++ rest) n = s.take n := by
  have happend : n ≤ (s ++ rest).length := by
    rw [List.length_append]
    omega
  rw [bytes_eq_take happend, List.take_append_of_le_length hn]

@[simp] theorem memcmpEq_iff {a b : List UInt8} {n : ℕ} :
    memcmpEq a b n = true ↔ ∀ i < n, readAt a i = readAt b i := by simp [memcmpEq]

theorem readAt_mem {s : List UInt8} {i : ℕ} (h : i < s.length) : readAt s i ∈ s := by
  rw [readAt, List.getD_eq_getElem?_getD, List.getElem?_eq_getElem h, Option.getD_some]
  exact List.getElem_mem h

theorem readAt_append_left {s : List UInt8} {i : ℕ} (h : i < s.length) (t : List UInt8) :
    readAt (s ++ t) i = readAt s i :=
  congrArg (Option.getD · 0) (List.getElem?_append_left h)

theorem readAt_drop (s : List UInt8) (j i : ℕ) : readAt (s.drop j) i = readAt s (j + i) := by
  simp [readAt, List.getD_eq_getElem?_getD]

theorem lt_length_of_readAt_ne_zero {s : List UInt8} {i : ℕ} (h : readAt s i ≠ 0) :
    i < s.length := by
  by_contra hle
  apply h
  simp [readAt, List.getD_eq_getElem?_getD, List.getElem?_eq_none (Nat.not_lt.mp hle)]

@[simp] theorem cstr_nil : cstr [] = [] := rfl

@[simp] theorem cstr_zero (s : List UInt8) : cstr (0 :: s) = [] := rfl

theorem cstr_cons {c : UInt8} (hc : c ≠ 0) (s : List UInt8) : cstr (c :: s) = c :: cstr s := by
  simp [cstr, hc]

theorem cstr_append {t : List UInt8} (ht : ∀ c ∈ t, c ≠ 0) (s : List UInt8) :
    cstr (t ++ s) = t ++ cstr s := by
  induction t with
  | nil => rfl
  | cons c t ih =>
    rw [List.cons_append, cstr_cons (ht c (by simp)), ih fun d hd => ht d (by simp [hd])]
    rfl

theorem cstr_append_zero (s rest : List UInt8) : cstr (s ++ 0 :: rest) = cstr s := by
  induction s with
  | nil => rfl
  | cons c s ih =>
    by_cases hc : c = 0
    · rw [hc]
      rfl
    · rw [List.cons_append, cstr_cons hc, cstr_cons hc, ih]

/-- More text behind a string can only make it longer. -/
theorem cstr_prefix_append (s t : List UInt8) : cstr s <+: cstr (s ++ t) := by
  induction s with
  | nil => exact List.nil_prefix
  | cons c s ih =>
    by_cases hc : c = 0
    · rw [hc]
      exact List.prefix_refl _
    · rw [List.cons_append, cstr_cons hc, cstr_cons hc]
      exact List.cons_prefix_cons.mpr ⟨rfl, ih⟩

theorem cstr_eq_self {s : List UInt8} (h : ∀ c ∈ s, c ≠ 0) : cstr s = s := by
  simpa [cstr] using h

theorem cstr_no_zero (s : List UInt8) : ∀ c ∈ cstr s, c ≠ 0 := by
  intro c hc
  simpa using List.mem_takeWhile_imp hc

theorem cstr_prefix_self (s : List UInt8) : cstr s <+: s := List.takeWhile_prefix _

theorem dropWhile_eq_cons {α : Type} {p : α → Bool} {l rest : List α} {a : α}
    (h : l.dropWhile p = a :: rest) : p a = false := by
  have hd := List.head?_dropWhile_not p l
  simpa [h] using hd

theorem cstr_terminated (s : List UInt8) : s = cstr s ∨ ∃ rest, s = cstr s ++ 0 :: rest := by
  have hs : cstr s ++ s.dropWhile (· ≠ 0) = s := List.takeWhile_append_dropWhile
  cases hr : s.dropWhile (· ≠ 0) with
  | nil =>
    rw [hr, List.append_nil] at hs
    exact .inl hs.symm
  | cons c rest =>
    have hc : c = 0 := by simpa using dropWhile_eq_cons hr
    rw [hr, hc] at hs
    exact .inr ⟨rest, hs.symm⟩

theorem length_cstr_append_zero_le (s rest : List UInt8) :
    (cstr (s ++ 0 :: rest)).length ≤ s.length := by
  rw [cstr_append_zero]
  exact (cstr_prefix_self s).length_le

theorem cstr_take (s : List UInt8) (n : ℕ) : cstr (s.take n) = (cstr s).take n := by
  induction s generalizing n with
  | nil => simp
  | cons c s ih =>
    cases n with
    | zero => simp
    | succ n =>
      by_cases hc : c = 0
      · simp [hc]
      · simp [cstr_cons hc, ih]

theorem cstr_drop_of_zero {s : List UInt8} {i : ℕ} (h : readAt s i = 0) : cstr (s.drop i) = [] := by
  have hh : readAt (s.drop i) 0 = 0 := by rw [readAt_drop, Nat.add_zero, h]
  cases hs : s.drop i with
  | nil => rfl
  | cons c t =>
    rw [hs] at hh
    have hc : c = 0 := hh
    simp [hc]

theorem cstr_drop_of_ne_zero {s : List UInt8} {i : ℕ} (h : readAt s i ≠ 0) :
    cstr (s.drop i) = readAt s i :: cstr (s.drop (i + 1)) := by
  have hh : readAt (s.drop i) 0 = readAt s i := by rw [readAt_drop, Nat.add_zero]
  rw [← List.drop_drop]
  cases hs : s.drop i with
  | nil =>
    rw [hs] at hh
    exact absurd hh.symm h
  | cons c t =>
    rw [hs] at hh
    have hc : c = readAt s i := hh
    rw [hc, cstr_cons h]
    rfl

theorem length_cstr_drop {s : List UInt8} {i : ℕ} (h : i ≤ (cstr s).length) :
    i + (cstr (s.drop i)).length = (cstr s).length := by
  induction i with
  | zero => simp
  | succ i ih =>
    have hi := ih (by omega)
    by_cases hz : readAt s i = 0
    · rw [cstr_drop_of_zero hz, List.length_nil] at hi
      omega
    · rw [cstr_drop_of_ne_zero hz, List.length_cons] at hi
      omega

/-- Up to its terminator a string has no zero byte. -/
theorem readAt_eq_zero_iff {s : List UInt8} {i : ℕ} (h : i ≤ (cstr s).length) :
    readAt s i = 0 ↔ i = (cstr s).length := by
  have hlen := length_cstr_drop h
  constructor
  · intro hz
    rw [cstr_drop_of_zero hz, List.length_nil] at hlen
    omega
  · intro hi
    by_contra hz
    rw [cstr_drop_of_ne_zero hz, List.length_cons] at hlen
    omega

theorem strnlen_eq (s : List UInt8) (n : ℕ) : strnlen s n = min n (cstr s).length := by
  simp [strnlen, cstr_take]

theorem strnlen_le (s : List UInt8) (n : ℕ) : strnlen s n ≤ n := by
  rw [strnlen_eq]
  exact min_le_left _ _

theorem length_cstr_terminated {text : List UInt8} (hz : ∀ c ∈ text, c ≠ 0)
    (past : List UInt8) : (cstr (text ++ 0 :: past)).length = text.length := by
  rw [cstr_append hz, cstr_zero, List.append_nil]

theorem strnlen_terminated {text : List UInt8} (hz : ∀ c ∈ text, c ≠ 0) (past : List UInt8)
    (n : ℕ) : strnlen (text ++ 0 :: past) n = min n text.length := by
  rw [strnlen_eq, length_cstr_terminated hz]

/-- The bytes `strnlen` counts. -/
theorem bytes_strnlen (s : List UInt8) (n : ℕ) : bytes s (strnlen s n) = (cstr s).take n := by
  have hpre := cstr_prefix_self s
  have hlen : strnlen s n ≤ s.length := by
    rw [strnlen_eq]
    exact (min_le_right _ _).trans hpre.length_le
  rw [bytes_eq_take hlen, strnlen_eq]
  conv_rhs => rw [List.prefix_iff_eq_take.mp hpre, List.take_take]

/-- What one call of `strtok` finds and leaves: the bytes it moves past as they read
afterwards, the token, and the memory from the saved pointer on. -/
structure Strtok where
  passed : List UInt8
  token : List UInt8
  rest : List UInt8
  deriving DecidableEq

def inToken (delim c : UInt8) : Bool := c ≠ delim ∧ c ≠ 0

/-- The delimiter that ends a token is overwritten with zero and passed; at the end of
the string nothing is written and the saved pointer stays on the terminator. -/
def endToken (delim : UInt8) (skipped token : List UInt8) : List UInt8 → Strtok
  | [] => ⟨skipped ++ token, token, []⟩
  | c :: rest =>
    if c = delim then ⟨skipped ++ token ++ [0], token, rest⟩
    else ⟨skipped ++ token, token, c :: rest⟩

/-- `strtok` with a one-character delimiter set, from the saved pointer on. -/
def strtok (delim : UInt8) (s : List UInt8) : Option Strtok :=
  let body := s.dropWhile (· = delim)
  let token := body.takeWhile (inToken delim)
  if token = [] then none
  else some (endToken delim (s.takeWhile (· = delim)) token (body.dropWhile (inToken delim)))

/-- Everything a successful call says about the buffer. -/
structure Strtok.Splits (delim : UInt8) (s : List UInt8) (t : Strtok) (skipped : List UInt8) :
    Prop where
  skipped_delim : ∀ c ∈ skipped, c = delim
  token_ne : t.token ≠ []
  token_mem : ∀ c ∈ t.token, c ≠ delim ∧ c ≠ 0
  ends : (s = skipped ++ (t.token ++ delim :: t.rest) ∧ t.passed = skipped ++ t.token ++ [0]) ∨
    (s = skipped ++ (t.token ++ t.rest) ∧ t.passed = skipped ++ t.token ∧ cstr t.rest = [])

theorem strtok_some {delim : UInt8} {s : List UInt8} {t : Strtok}
    (h : strtok delim s = some t) : ∃ skipped, t.Splits delim s skipped := by
  unfold strtok at h
  dsimp only at h
  split_ifs at h with hne
  have hs : s.takeWhile (· = delim) ++ s.dropWhile (· = delim) = s :=
    List.takeWhile_append_dropWhile
  have hskip : ∀ c ∈ s.takeWhile (· = delim), c = delim := fun c hc => by
    simpa using List.mem_takeWhile_imp hc
  generalize s.takeWhile (· = delim) = skipped at h hs hskip
  generalize s.dropWhile (· = delim) = body at h hs hne
  have hb : body.takeWhile (inToken delim) ++ body.dropWhile (inToken delim) = body :=
    List.takeWhile_append_dropWhile
  have htok : ∀ c ∈ body.takeWhile (inToken delim), c ≠ delim ∧ c ≠ 0 := fun c hc => by
    simpa [inToken] using List.mem_takeWhile_imp hc
  generalize body.takeWhile (inToken delim) = token at h hb hne htok
  refine ⟨skipped, ?_⟩
  cases hr : body.dropWhile (inToken delim) with
  | nil =>
    rw [hr] at h hb
    obtain rfl := Option.some.inj h
    exact ⟨hskip, hne, htok, .inr ⟨by simp [endToken, hb, hs], rfl, rfl⟩⟩
  | cons c rest =>
    have hc : c ≠ delim → c = 0 := by simpa [inToken] using dropWhile_eq_cons hr
    rw [hr] at h hb
    obtain rfl := Option.some.inj h
    simp only [endToken]
    split_ifs with hd
    · exact ⟨hskip, hne, htok, .inl ⟨by simp [← hd, hb, hs], rfl⟩⟩
    · exact ⟨hskip, hne, htok, .inr ⟨by simp [hb, hs], rfl, by simp [hc hd]⟩⟩

theorem strtok_none {delim : UInt8} {s : List UInt8} (h : strtok delim s = none) :
    ∃ skipped tail, s = skipped ++ tail ∧ (∀ c ∈ skipped, c = delim) ∧ cstr tail = [] := by
  refine ⟨s.takeWhile (· = delim), s.dropWhile (· = delim),
    List.takeWhile_append_dropWhile.symm,
    fun c hc => by simpa using List.mem_takeWhile_imp hc, ?_⟩
  unfold strtok at h
  dsimp only at h
  split_ifs at h with hne
  cases hb : s.dropWhile (· = delim) with
  | nil => rfl
  | cons c rest =>
    have hd : c ≠ delim := by simpa using dropWhile_eq_cons hb
    have hz : c = 0 := by
      by_contra hz
      simp [hb, inToken, hd, hz] at hne
    simp [hz]

theorem strtok_rest_lt {delim : UInt8} {s : List UInt8} {t : Strtok}
    (h : strtok delim s = some t) : t.rest.length < s.length := by
  obtain ⟨skipped, hs⟩ := strtok_some h
  have hpos : 0 < t.token.length := List.length_pos_iff.mpr hs.token_ne
  rcases hs.ends with ⟨he, -⟩ | ⟨he, -, -⟩ <;> rw [he] <;> simp <;> omega

/-- The loop `line = strtok(buf); while (line && !found) { found = test(line);
line = strtok(NULL); }`, with the buffer as it is left. -/
def scanTokens (delim : UInt8) (test : List UInt8 → Except ε Bool) (s : List UInt8) :
    Except ε (Bool × List UInt8) :=
  match _h : strtok delim s with
  | none => .ok (false, s)
  | some t => do
    if ← test t.token then
      -- the next token is still fetched, and ended, before `found` is looked at
      match strtok delim t.rest with
      | none => .ok (true, t.passed ++ t.rest)
      | some u => .ok (true, t.passed ++ (u.passed ++ u.rest))
    else
      let (found, after) ← scanTokens delim test t.rest
      .ok (found, t.passed ++ after)
termination_by s.length
decreasing_by exact strtok_rest_lt ‹_›

/-- The non-empty pieces between delimiters, up to the terminator. -/
def tokens (delim : UInt8) (s : List UInt8) : List (List UInt8) :=
  ((cstr s).splitOn delim).filter (· ≠ [])

theorem splitOn_mem {delim : UInt8} {l t : List UInt8} (h : t ∈ l.splitOn delim) :
    ∀ c ∈ t, c ∈ l ∧ c ≠ delim := by
  induction l generalizing t with
  | nil =>
    rw [List.splitOn_eq_splitOnP, List.splitOnP_nil, List.mem_singleton] at h
    simp [h]
  | cons a l ih =>
    rw [List.splitOn_eq_splitOnP, List.splitOnP_cons_eq_if_modifyHead] at h
    simp only [← List.splitOn_eq_splitOnP] at h
    intro c hc
    split_ifs at h with ha
    · rcases List.mem_cons.mp h with rfl | h
      · simp at hc
      · have hh := ih h c hc
        exact ⟨List.mem_cons_of_mem a hh.1, hh.2⟩
    · cases hs : l.splitOn delim with
      | nil => simp [hs] at h
      | cons u us =>
        rw [hs, List.modifyHead_cons] at h
        rw [hs] at ih
        rcases List.mem_cons.mp h with rfl | h
        · rcases List.mem_cons.mp hc with rfl | hc
          · exact ⟨by simp, by simpa using ha⟩
          · have hh := ih (by simp) c hc
            exact ⟨List.mem_cons_of_mem a hh.1, hh.2⟩
        · have hh := ih (List.mem_cons_of_mem u h) c hc
          exact ⟨List.mem_cons_of_mem a hh.1, hh.2⟩

section Tokens

variable {delim : UInt8}

theorem tokens_eq_nil {s : List UInt8} (h : cstr s = []) : tokens delim s = [] := by
  simp [tokens, h, List.splitOn_eq_splitOnP]

theorem tokens_skip (hd : delim ≠ 0) {skipped : List UInt8} (h : ∀ c ∈ skipped, c = delim)
    (s : List UInt8) : tokens delim (skipped ++ s) = tokens delim s := by
  induction skipped with
  | nil => rfl
  | cons c t ih =>
    rw [← ih fun d hd => h d (by simp [hd]), h c (by simp)]
    simp [tokens, cstr_cons hd, List.splitOn_eq_splitOnP, List.splitOnP_cons_eq_if_modifyHead]

theorem tokens_delim (hd : delim ≠ 0) {t : List UInt8} (hne : t ≠ [])
    (ht : ∀ c ∈ t, c ≠ delim ∧ c ≠ 0) (s : List UInt8) :
    tokens delim (t ++ delim :: s) = t :: tokens delim s := by
  rw [tokens, cstr_append fun c hc => (ht c hc).2, cstr_cons hd, List.splitOn_eq_splitOnP,
    List.splitOnP_append_cons_of_forall_mem (by simpa using fun c hc => (ht c hc).1) _ (by simp)]
  simp [hne, tokens, List.splitOn_eq_splitOnP]

theorem tokens_last {t s : List UInt8} (hne : t ≠ [])
    (ht : ∀ c ∈ t, c ≠ delim ∧ c ≠ 0) (hs : cstr s = []) : tokens delim (t ++ s) = [t] := by
  rw [tokens, cstr_append fun c hc => (ht c hc).2, hs, List.append_nil,
    List.splitOn_eq_splitOnP, List.splitOnP_eq_singleton (by simpa using fun c hc => (ht c hc).1)]
  simp [hne]

theorem mem_tokens {s t : List UInt8} (h : t ∈ tokens delim s) :
    t ≠ [] ∧ ∀ c ∈ t, c ≠ delim ∧ c ≠ 0 := by
  simp only [tokens, List.mem_filter, decide_eq_true_eq] at h
  refine ⟨h.2, fun c hc => ?_⟩
  have hsub := splitOn_mem h.1 c hc
  exact ⟨hsub.2, cstr_no_zero s c hsub.1⟩

theorem mem_tokens_no_zero {s t : List UInt8} (h : t ∈ tokens delim s) : ∀ c ∈ t, c ≠ 0 :=
  fun c hc => ((mem_tokens h).2 c hc).2

theorem tokens_of_strtok_none (hd : delim ≠ 0) {s : List UInt8}
    (h : strtok delim s = none) : tokens delim s = [] := by
  obtain ⟨skipped, tail, rfl, hskip, htail⟩ := strtok_none h
  rw [tokens_skip hd hskip, tokens_eq_nil htail]

theorem tokens_of_strtok_some (hd : delim ≠ 0) {s : List UInt8} {t : Strtok}
    (h : strtok delim s = some t) : tokens delim s = t.token :: tokens delim t.rest := by
  obtain ⟨skipped, hs⟩ := strtok_some h
  rcases hs.ends with ⟨he, -⟩ | ⟨he, -, hz⟩
  · rw [he, tokens_skip hd hs.skipped_delim, tokens_delim hd hs.token_ne hs.token_mem]
  · rw [he, tokens_skip hd hs.skipped_delim, tokens_last hs.token_ne hs.token_mem hz,
      tokens_eq_nil hz]

/-- What follows the saved pointer is cut off from what precedes it, unless the string
has ended there. -/
theorem tokens_passed (hd : delim ≠ 0) {s : List UInt8} {t : Strtok}
    (h : strtok delim s = some t) {after : List UInt8}
    (hafter : cstr t.rest = [] → cstr after = []) :
    tokens delim (t.passed ++ after) = [t.token] := by
  obtain ⟨skipped, hs⟩ := strtok_some h
  rcases hs.ends with ⟨-, hp⟩ | ⟨-, hp, hz⟩
  · rw [hp, List.append_assoc, List.append_assoc, tokens_skip hd hs.skipped_delim]
    exact tokens_last hs.token_ne hs.token_mem rfl
  · rw [hp, List.append_assoc, tokens_skip hd hs.skipped_delim]
    exact tokens_last hs.token_ne hs.token_mem (hafter hz)

theorem strtok_eq_none (hd : delim ≠ 0) {s : List UInt8} (h : cstr s = []) :
    strtok delim s = none := by
  cases ht : strtok delim s with
  | none => rfl
  | some t =>
    have hn : tokens delim s = [] := tokens_eq_nil h
    rw [tokens_of_strtok_some hd ht] at hn
    contradiction

theorem scanTokens_none {s : List UInt8} (test : List UInt8 → Except ε Bool)
    (h : strtok delim s = none) : scanTokens delim test s = .ok (false, s) := by
  rw [scanTokens]
  split
  · rfl
  · simp_all

theorem scanTokens_error {s : List UInt8} {t : Strtok} {test : List UInt8 → Except ε Bool}
    {e : ε} (h : strtok delim s = some t) (ht : test t.token = .error e) :
    scanTokens delim test s = .error e := by
  rw [scanTokens]
  split
  · simp_all
  · simp_all [bind, Except.bind]

theorem scanTokens_hit {s : List UInt8} {t : Strtok} {test : List UInt8 → Except ε Bool}
    (h : strtok delim s = some t) (ht : test t.token = .ok true) :
    scanTokens delim test s = match strtok delim t.rest with
      | none => .ok (true, t.passed ++ t.rest)
      | some u => .ok (true, t.passed ++ (u.passed ++ u.rest)) := by
  rw [scanTokens]
  split
  · simp_all
  · simp_all [bind, Except.bind]

theorem scanTokens_miss {s : List UInt8} {t : Strtok} {test : List UInt8 → Except ε Bool}
    (h : strtok delim s = some t) (ht : test t.token = .ok false) :
    scanTokens delim test s =
      (fun r => (r.1, t.passed ++ r.2)) <$> scanTokens delim test t.rest := by
  rw [scanTokens]
  split
  · simp_all
  · simp_all [bind, Except.bind]
    cases scanTokens delim test t.rest <;> rfl

/-- Behind its first token a completed scan leaves what follows as it is, or cut behind one more
token, or as the scan of it leaves it. -/
theorem scanTokens_some {s after : List UInt8} {t : Strtok} {test : List UInt8 → Except ε Bool}
    {found : Bool} (hs : strtok delim s = some t)
    (h : scanTokens delim test s = .ok (found, after)) :
    ∃ left, after = t.passed ++ left ∧
      ((strtok delim t.rest = none ∧ left = t.rest) ∨
        (∃ u, strtok delim t.rest = some u ∧ left = u.passed ++ u.rest) ∨
        scanTokens delim test t.rest = .ok (found, left)) := by
  cases ht : test t.token with
  | error e =>
    rw [scanTokens_error hs ht] at h
    contradiction
  | ok hit =>
    cases hit with
    | true =>
      rw [scanTokens_hit hs ht] at h
      cases hu : strtok delim t.rest with
      | none =>
        rw [hu] at h
        obtain ⟨-, rfl⟩ := Prod.mk.inj (Except.ok.inj h)
        exact ⟨t.rest, rfl, .inl ⟨rfl, rfl⟩⟩
      | some u =>
        rw [hu] at h
        obtain ⟨-, rfl⟩ := Prod.mk.inj (Except.ok.inj h)
        exact ⟨u.passed ++ u.rest, rfl, .inr (.inl ⟨u, rfl, rfl⟩)⟩
    | false =>
      rw [scanTokens_miss hs ht] at h
      cases hr : scanTokens delim test t.rest with
      | error e => simp [hr] at h
      | ok r =>
        rw [hr] at h
        obtain ⟨rfl, rfl⟩ := Prod.mk.inj (Except.ok.inj h)
        exact ⟨r.2, rfl, .inr (.inr rfl)⟩

/-- The scan answers for the tokens in order and stops at the first hit. -/
theorem scanTokens_found (hd : delim ≠ 0) (test : List UInt8 → Except ε Bool)
    (s : List UInt8) :
    Prod.fst <$> scanTokens delim test s = (tokens delim s).anyM test := by
  induction s using scanTokens.induct delim with
  | case1 s h =>
    rw [scanTokens_none test h, tokens_of_strtok_none hd h]
    rfl
  | case2 s t h ih =>
    rw [tokens_of_strtok_some hd h, List.anyM_cons]
    cases ht : test t.token with
    | error e =>
      rw [scanTokens_error h ht]
      rfl
    | ok hit =>
      cases hit with
      | true =>
        rw [scanTokens_hit h ht]
        cases strtok delim t.rest <;> rfl
      | false =>
        rw [scanTokens_miss h ht, Functor.map_map, ← ih]
        rfl

/-- With a test that never fails the scan completes. -/
theorem scanTokens_total (hd : delim ≠ 0) (p : List UInt8 → Bool) (s : List UInt8) :
    ∃ after, scanTokens (ε := ε) delim (fun t => .ok (p t)) s =
      .ok ((tokens delim s).any p, after) := by
  have hany (ts : List (List UInt8)) :
      ts.anyM (fun t => (.ok (p t) : Except ε Bool)) = .ok (ts.any p) := by
    induction ts with
    | nil => rfl
    | cons t ts ih =>
      rw [List.anyM_cons, ih, List.any_cons]
      cases p t <;> rfl
  have hf := scanTokens_found (ε := ε) hd (fun t => .ok (p t)) s
  rw [hany] at hf
  cases hr : scanTokens (ε := ε) delim (fun t => .ok (p t)) s with
  | error e => simp [hr] at hf
  | ok r =>
    rw [hr] at hf
    exact ⟨r.2, by rw [← Except.ok.inj hf]⟩

/-- A string without the delimiter is left as it is. -/
theorem scanTokens_left_eq (hd : delim ≠ 0) {test : List UInt8 → Except ε Bool}
    {s after : List UInt8} {found : Bool} (hs : delim ∉ cstr s)
    (h : scanTokens delim test s = .ok (found, after)) : after = s := by
  cases ht : strtok delim s with
  | none =>
    rw [scanTokens_none test ht] at h
    exact (Prod.mk.inj (Except.ok.inj h)).2.symm
  | some t =>
    obtain ⟨skipped, hsp⟩ := strtok_some ht
    have hskip : skipped = [] := by
      cases skipped with
      | nil => rfl
      | cons c l =>
        have hc := hsp.skipped_delim c (by simp)
        apply absurd _ hs
        rcases hsp.ends with ⟨he, -⟩ | ⟨he, -, -⟩
        · rw [he, List.cons_append, hc, cstr_cons hd]
          exact List.mem_cons_self
        · rw [he, List.cons_append, hc, cstr_cons hd]
          exact List.mem_cons_self
    have hpass : t.passed ++ t.rest = s ∧ cstr t.rest = [] := by
      rcases hsp.ends with ⟨he, -⟩ | ⟨he, hp, hz⟩
      · apply absurd _ hs
        rw [he, hskip, List.nil_append, cstr_append fun c hc => (hsp.token_mem c hc).2,
          cstr_cons hd]
        simp
      · rw [hp, he, List.append_assoc]
        exact ⟨rfl, hz⟩
    have hend : strtok delim t.rest = none := strtok_eq_none hd hpass.2
    obtain ⟨left, rfl, ⟨-, rfl⟩ | ⟨u, hu, -⟩ | hr⟩ := scanTokens_some ht h
    · exact hpass.1
    · simp [hend] at hu
    · rw [scanTokens_none test hend] at hr
      rw [← (Prod.mk.inj (Except.ok.inj hr)).2]
      exact hpass.1

/-- A completed scan leaves a buffer in which only the first token can be seen. -/
theorem scanTokens_left (hd : delim ≠ 0) {test : List UInt8 → Except ε Bool}
    {s after : List UInt8} {found : Bool}
    (h : scanTokens delim test s = .ok (found, after)) :
    tokens delim after = (tokens delim s).take 1 ∧ (cstr s = [] → cstr after = []) := by
  cases hs : strtok delim s with
  | none =>
    rw [scanTokens_none test hs] at h
    obtain ⟨rfl, rfl⟩ := Prod.mk.inj (Except.ok.inj h)
    simp [tokens_of_strtok_none hd hs]
  | some t =>
    have hcut (left : List UInt8) (hleft : cstr t.rest = [] → cstr left = []) :
        tokens delim (t.passed ++ left) = (tokens delim s).take 1 := by
      rw [tokens_passed hd hs hleft, tokens_of_strtok_some hd hs]
      rfl
    have hne : cstr s ≠ [] := fun hz => by simp [strtok_eq_none hd hz] at hs
    refine ⟨?_, fun hz => absurd hz hne⟩
    obtain ⟨left, rfl, ⟨-, rfl⟩ | ⟨u, hu, rfl⟩ | hr⟩ := scanTokens_some hs h
    · exact hcut _ id
    · exact hcut _ fun hz => by simp [strtok_eq_none hd hz] at hu
    · apply hcut
      intro hz
      rw [scanTokens_none test (strtok_eq_none hd hz)] at hr
      rw [← (Prod.mk.inj (Except.ok.inj hr)).2]
      exact hz

/-- What a scan does to a byte of its buffer: nothing, or it overwrites a delimiter. -/
def Overwrites (delim a b : UInt8) : Prop := b = a ∨ a = delim ∧ b = 0

theorem overwrites_same (delim : UInt8) (s : List UInt8) : List.Forall₂ (Overwrites delim) s s :=
  List.forall₂_same.mpr fun _ _ => .inl rfl

theorem strtok_overwrites {s after : List UInt8} {t : Strtok} (h : strtok delim s = some t)
    (hafter : List.Forall₂ (Overwrites delim) t.rest after) :
    List.Forall₂ (Overwrites delim) s (t.passed ++ after) := by
  obtain ⟨skipped, hs⟩ := strtok_some h
  rcases hs.ends with ⟨he, hp⟩ | ⟨he, hp, -⟩
  · rw [he, hp, List.append_assoc, List.append_assoc]
    apply List.rel_append (overwrites_same delim skipped)
    apply List.rel_append (overwrites_same delim t.token)
    exact .cons (.inr ⟨rfl, rfl⟩) hafter
  · rw [he, hp, List.append_assoc]
    apply List.rel_append (overwrites_same delim skipped)
    exact List.rel_append (overwrites_same delim t.token) hafter

/-- A completed scan changes nothing in its buffer but delimiters. -/
theorem scanTokens_overwrites {test : List UInt8 → Except ε Bool} {s after : List UInt8}
    {found : Bool} (h : scanTokens delim test s = .ok (found, after)) :
    List.Forall₂ (Overwrites delim) s after := by
  induction s using scanTokens.induct delim generalizing after found with
  | case1 s hs =>
    rw [scanTokens_none test hs] at h
    obtain ⟨-, rfl⟩ := Prod.mk.inj (Except.ok.inj h)
    exact overwrites_same delim s
  | case2 s t hs ih =>
    obtain ⟨left, rfl, hleft⟩ := scanTokens_some hs h
    apply strtok_overwrites hs
    rcases hleft with ⟨-, rfl⟩ | ⟨u, hu, rfl⟩ | hr
    · exact overwrites_same delim t.rest
    · exact strtok_overwrites hu (overwrites_same delim u.rest)
    · exact ih hr

theorem readAt_overwrites {s after : List UInt8} (h : List.Forall₂ (Overwrites delim) s after)
    {i : ℕ} (hi : readAt s i ≠ delim) : readAt after i = readAt s i := by
  induction h generalizing i with
  | nil => rfl
  | cons hab _ ih =>
    cases i with
    | zero => exact hab.resolve_right fun hd => hi hd.1
    | succ i => exact ih hi

/-- The delimiter behind the first token is overwritten. -/
theorem scanTokens_cuts {test : List UInt8 → Except ε Bool} {t rest after : List UInt8}
    {found : Bool} (hne : t ≠ []) (ht : ∀ c ∈ t, c ≠ delim ∧ c ≠ 0)
    (h : scanTokens delim test (t ++ delim :: rest) = .ok (found, after)) :
    readAt after t.length = 0 := by
  have hin : ∀ c ∈ t, inToken delim c = true := fun c hc => by simp [inToken, ht c hc]
  have hskip : (t ++ delim :: rest).takeWhile (· = delim) = [] ∧
      (t ++ delim :: rest).dropWhile (· = delim) = t ++ delim :: rest := by
    obtain ⟨c, u, rfl⟩ := List.exists_cons_of_ne_nil hne
    have hc : c ≠ delim := (ht c (by simp)).1
    simp [hc]
  have hout : inToken delim delim = false := by simp [inToken]
  have htake : (t ++ delim :: rest).takeWhile (inToken delim) = t := by
    rw [List.takeWhile_append_of_pos hin, List.takeWhile_cons_of_neg (by simp [hout]),
      List.append_nil]
  have hdrop : (t ++ delim :: rest).dropWhile (inToken delim) = delim :: rest := by
    rw [List.dropWhile_append_of_pos hin, List.dropWhile_cons_of_neg (by simp [hout])]
  have hs : strtok delim (t ++ delim :: rest) = some ⟨t ++ [0], t, rest⟩ := by
    unfold strtok
    dsimp only
    rw [hskip.1, hskip.2, htake, hdrop, if_neg hne]
    simp [endToken]
  obtain ⟨left, rfl, -⟩ := scanTokens_some hs h
  simp [readAt]

end Tokens

end CString
