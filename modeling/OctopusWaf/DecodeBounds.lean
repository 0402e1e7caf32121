import OctopusWaf.Utils
import OctopusWaf.Library.Traced

/-! `urldecode` with its memory accesses. The loop runs to the terminator of the text, while
the buffer is allocated for the size it is told. -/
namespace OctopusWaf
open CMachine CString Traced

/-- Reads of the received copy, writes through `pbuf`, and reads of the decoded text. -/
inductive BufferAccess where
  | data (i : ℕ)
  | stored (i : ℕ)
  | decoded (i : ℕ)
  deriving DecidableEq

/-- `pstr[1] && pstr[2]`. -/
def escapeTrace (str : List UInt8) (p : ℕ) : Traced BufferAccess Bool := do
  touch (.data (p + 1))
  if readAt str (p + 1) = 0 then pure false
  else do
    touch (.data (p + 2))
    pure (readAt str (p + 2) ≠ 0)

/-- The loop with `pstr` at index `p` and `pbuf` at index `q`; it returns what is written
from there on. -/
def decodeTrace (str : List UInt8) (p q : ℕ) : Traced BufferAccess (List UInt8) := do
  touch (.data p)
  if _h : readAt str p = 0 then do
    touch (.stored q)
    pure [0]
  else if readAt str p = 37 then do
    if ← escapeTrace str p then do
      touch (.stored q)
      let rest ← decodeTrace str (p + 3) (q + 1)
      pure (((from_hex (readAt str (p + 1)) <<< 4) ||| from_hex (readAt str (p + 2))) :: rest)
    else decodeTrace str (p + 1) q
  else do
    touch (.stored q)
    let rest ← decodeTrace str (p + 1) (q + 1)
    pure ((if readAt str p = 43 then 32 else readAt str p) :: rest)
termination_by str.length - p
decreasing_by
  all_goals
    have hp := lt_length_of_readAt_ne_zero _h
    omega

def urldecodeTrace (str : List UInt8) (size : ℕ) : Traced BufferAccess Block := do
  let written ← decodeTrace str 0 0
  pure ⟨size + 1, written⟩

/-- One turn of the loop on the text from index `p` on. -/
theorem decodeLoop_drop (str : List UInt8) (p : ℕ) :
    decodeLoop (str.drop p) =
      if readAt str p = 0 then []
      else if readAt str p = 37 then
        if readAt str (p + 1) ≠ 0 ∧ readAt str (p + 2) ≠ 0 then
          ((from_hex (readAt str (p + 1)) <<< 4) ||| from_hex (readAt str (p + 2))) ::
            decodeLoop (str.drop (p + 3))
        else decodeLoop (str.drop (p + 1))
      else (if readAt str p = 43 then 32 else readAt str p) :: decodeLoop (str.drop (p + 1)) := by
  have h0 : readAt (str.drop p) 0 = readAt str p := readAt_drop str p 0
  have h1 : readAt (str.drop p) 1 = readAt str (p + 1) := readAt_drop str p 1
  have h2 : readAt (str.drop p) 2 = readAt str (p + 2) := readAt_drop str p 2
  rw [← h0, ← h1, ← h2, ← List.drop_drop, ← List.drop_drop]
  generalize str.drop p = s
  cases s with
  | nil => rfl
  | cons c rest =>
    by_cases hc : c = 37
    · subst hc
      match rest with
      | [] => rfl
      | [d] => simp [decodeLoop, readAt]
      | a :: b :: rest => simp [decodeLoop, readAt]
    · rw [decodeLoop_cons hc]
      simp only [readAt, List.getD_cons_zero, hc, if_false, List.drop_succ_cons, List.drop_zero]
      split_ifs <;> rfl

theorem escapeTrace_result (str : List UInt8) (p : ℕ) :
    (escapeTrace str p).result =
      .ok (decide (readAt str (p + 1) ≠ 0 ∧ readAt str (p + 2) ≠ 0)) := by
  unfold escapeTrace
  by_cases h : readAt str (p + 1) = 0
  · simp [h]
  · simp [h]

/-- The recorded loop writes what the plain one does. -/
theorem decodeTrace_result (str : List UInt8) (p q : ℕ) :
    (decodeTrace str p q).result = .ok (decodeLoop (str.drop p) ++ [0]) := by
  induction p, q using decodeTrace.induct str with
  | case1 p q ihEscape ihDropped ihPlain =>
    rw [decodeTrace, decodeLoop_drop]
    by_cases hz : readAt str p = 0
    · simp [hz]
    have he := escapeTrace_result str p
    by_cases hpercent : readAt str p = 37
    · by_cases hescape : readAt str (p + 1) ≠ 0 ∧ readAt str (p + 2) ≠ 0
      · rw [decide_eq_true hescape] at he
        simp [hpercent, hescape, he, ihEscape hz]
      · rw [decide_eq_false hescape] at he
        simp [hpercent, hescape, he, ihDropped hz]
    · simp [hz, hpercent, ihPlain hz]

theorem urldecodeTrace_result (str : List UInt8) (size : ℕ) :
    (urldecodeTrace str size).result = .ok (urldecode str size) := by
  simp [urldecodeTrace, decodeTrace_result, urldecode]

theorem mem_escapeTrace {str : List UInt8} {p : ℕ} {a : BufferAccess} :
    a ∈ (escapeTrace str p).accesses ↔
      a = .data (p + 1) ∨ readAt str (p + 1) ≠ 0 ∧ a = .data (p + 2) := by
  unfold escapeTrace
  by_cases h : readAt str (p + 1) = 0
  · simp [mem_bind, h]
  · simp [mem_bind, h]

/-- The accesses of one turn and of the turns after it. -/
theorem mem_decodeTrace {str : List UInt8} {p q : ℕ} {a : BufferAccess} :
    a ∈ (decodeTrace str p q).accesses ↔ a = .data p ∨
      if readAt str p = 0 then a = .stored q
      else if readAt str p = 37 then a ∈ (escapeTrace str p).accesses ∨
        if readAt str (p + 1) ≠ 0 ∧ readAt str (p + 2) ≠ 0 then
          a = .stored q ∨ a ∈ (decodeTrace str (p + 3) (q + 1)).accesses
        else a ∈ (decodeTrace str (p + 1) q).accesses
      else a = .stored q ∨ a ∈ (decodeTrace str (p + 1) (q + 1)).accesses := by
  have he := escapeTrace_result str p
  rw [decodeTrace]
  by_cases hz : readAt str p = 0
  · simp [hz, mem_bind]
  by_cases hpercent : readAt str p = 37
  · by_cases hescape : readAt str (p + 1) ≠ 0 ∧ readAt str (p + 2) ≠ 0
    · rw [decide_eq_true hescape] at he
      simp [hpercent, hescape, he, mem_bind]
    · rw [decide_eq_false hescape] at he
      simp [hpercent, hescape, he, mem_bind]
  · simp [hz, hpercent, mem_bind]

/-- The writes go through the buffer one by one, the terminator last. -/
theorem stored_mem_decodeTrace {str : List UInt8} {p q i : ℕ} :
    .stored i ∈ (decodeTrace str p q).accesses ↔
      q ≤ i ∧ i ≤ q + (decodeLoop (str.drop p)).length := by
  induction p, q using decodeTrace.induct str with
  | case1 p q ihEscape ihDropped ihPlain =>
    rw [mem_decodeTrace, decodeLoop_drop, mem_escapeTrace]
    by_cases hz : readAt str p = 0
    · simp [hz]
      omega
    simp only [hz, if_false, ihEscape hz, ihDropped hz, ihPlain hz]
    split_ifs
    all_goals
      simp
      try omega

/-- The loop reads up to the terminator of the text and never past it. -/
theorem data_mem_decodeTrace {str : List UInt8} {p q : ℕ} (hp : p ≤ (cstr str).length) :
    .data (cstr str).length ∈ (decodeTrace str p q).accesses ∧
      ∀ i, .data i ∈ (decodeTrace str p q).accesses → i ≤ (cstr str).length := by
  induction p, q using decodeTrace.induct str with
  | case1 p q ihEscape ihDropped ihPlain =>
    have hend := readAt_eq_zero_iff hp
    simp only [mem_decodeTrace (p := p), mem_escapeTrace]
    by_cases hz : readAt str p = 0
    · simp [hz, ← hend.mp hz]
    have hlt : p < (cstr str).length := lt_of_le_of_ne hp fun he => hz (hend.mpr he)
    have hnext : readAt str (p + 1) = 0 ↔ p + 1 = (cstr str).length := readAt_eq_zero_iff hlt
    have hdropped := ihDropped hz hlt
    have hplain := ihPlain hz hlt
    simp only [hz, if_false]
    split_ifs with hpercent hescape
    · have hlt' : p + 2 ≤ (cstr str).length :=
        lt_of_le_of_ne hlt fun he => hescape.1 (hnext.mpr he)
      have hlt'' : p + 3 ≤ (cstr str).length :=
        lt_of_le_of_ne hlt' fun he => hescape.2 ((readAt_eq_zero_iff hlt').mpr he)
      have hescaped := ihEscape hz hlt''
      refine ⟨.inr (.inr (.inr hescaped.1)), fun i hi => ?_⟩
      rcases hi with hi | (hi | ⟨-, hi⟩) | hi | hi
      · rwa [BufferAccess.data.inj hi]
      · rwa [BufferAccess.data.inj hi]
      · rwa [BufferAccess.data.inj hi]
      · contradiction
      · exact hescaped.2 i hi
    · -- the second character is looked at only if the first is not the terminator
      refine ⟨.inr (.inr hdropped.1), fun i hi => ?_⟩
      rcases hi with hi | (hi | ⟨hne, hi⟩) | hi
      · rwa [BufferAccess.data.inj hi]
      · rwa [BufferAccess.data.inj hi]
      · have hlt' : p + 2 ≤ (cstr str).length := lt_of_le_of_ne hlt fun he => hne (hnext.mpr he)
        rwa [BufferAccess.data.inj hi]
      · exact hdropped.2 i hi
    · refine ⟨.inr (.inr hplain.1), fun i hi => ?_⟩
      rcases hi with hi | hi | hi
      · rwa [BufferAccess.data.inj hi]
      · contradiction
      · exact hplain.2 i hi

theorem decoded_not_mem_decodeTrace {str : List UInt8} {p q i : ℕ} :
    .decoded i ∉ (decodeTrace str p q).accesses := by
  induction p, q using decodeTrace.induct str with
  | case1 p q ihEscape ihDropped ihPlain =>
    rw [mem_decodeTrace, mem_escapeTrace]
    split_ifs with hz hpercent hescape
    · simp
    · simp [ihEscape hz]
    · simp [ihDropped hz]
    · simp [ihPlain hz]

/-- The escapes of a text, a `%` with two characters after it, from left to right. -/
def escapes : List UInt8 → ℕ
  | [] => 0
  | 37 :: _ :: _ :: rest => escapes rest + 1
  | _ :: rest => escapes rest

/-- The `%` signs that have fewer than two characters after them. -/
def dangling : List UInt8 → ℕ
  | [] => 0
  | 37 :: _ :: _ :: rest => dangling rest
  | c :: rest => dangling rest + if c = 37 then 1 else 0

/-- An escape takes two bytes off a text, a dangling `%` one. -/
theorem length_decodeLoop {text : List UInt8} (hz : ∀ c ∈ text, c ≠ 0) :
    (decodeLoop text).length + 2 * escapes text + dangling text = text.length := by
  induction text using escapes.induct with
  | case1 => rfl
  | case2 a b rest ih =>
    have ha : a ≠ 0 := hz a (by simp)
    have hb : b ≠ 0 := hz b (by simp)
    have hrest := ih fun c hc => hz c (by simp [hc])
    simp only [decodeLoop, ha, hb, ne_eq, not_false_eq_true, and_self, if_true, List.length_cons,
      escapes, dangling]
    omega
  | case3 c rest hnot ih =>
    have hc : c ≠ 0 := hz c (by simp)
    have hrest := ih fun d hd => hz d (by simp [hd])
    rw [decodeLoop.eq_3 _ _ hnot, escapes.eq_3 _ _ hnot, dangling.eq_3 _ _ hnot, if_neg hc]
    simp only [List.length_cons]
    split_ifs
    all_goals
      try simp only [List.length_cons]
      omega

/-- Text without an incomplete escape is decoded by itself. -/
theorem decodeLoop_append_of_dangling {u : List UInt8} (hu : dangling u = 0)
    (hz : ∀ c ∈ u, c ≠ 0) (rest : List UInt8) :
    decodeLoop (u ++ rest) = decodeLoop u ++ decodeLoop rest := by
  induction u using escapes.induct with
  | case1 => rfl
  | case2 a b u ih =>
    have ha : a ≠ 0 := hz a (by simp)
    have hb : b ≠ 0 := hz b (by simp)
    have hrest := ih hu fun c hc => hz c (by simp [hc])
    simp [decodeLoop, ha, hb, hrest]
  | case3 c u hnot ih =>
    have hc : c ≠ 0 := hz c (by simp)
    rw [dangling.eq_3 c u hnot] at hu
    by_cases hp : c = 37
    · simp [hp] at hu
    · have hrest := ih (by omega) fun d hd => hz d (by simp [hd])
      rw [List.cons_append, decodeLoop_cons hp, decodeLoop_cons hp, if_neg hc, if_neg hc, hrest]
      split_ifs <;> rfl

theorem dangling_cons {c : UInt8} (hc : c ≠ 37) (s : List UInt8) :
    dangling (c :: s) = dangling s := by
  rw [dangling.eq_3 _ _ fun _ _ _ h _ => hc h, if_neg hc, Nat.add_zero]

theorem dangling_append {u : List UInt8} (hu : dangling u = 0) (v : List UInt8) :
    dangling (u ++ v) = dangling v := by
  induction u using escapes.induct with
  | case1 => rfl
  | case2 a b u ih => exact ih hu
  | case3 c u hnot ih =>
    rw [dangling.eq_3 c u hnot] at hu
    have hc : c ≠ 37 := by
      rintro rfl
      simp at hu
    rw [List.cons_append, dangling_cons hc]
    exact ih (Nat.eq_zero_of_add_eq_zero_right hu)

/-- What stands behind the terminator is not decoded. -/
theorem decodeLoop_terminated {text : List UInt8} (hz : ∀ c ∈ text, c ≠ 0) (past : List UInt8) :
    decodeLoop (text ++ 0 :: past) = decodeLoop text := by
  induction text using escapes.induct with
  | case1 => exact decodeLoop_cons (by decide) past
  | case2 a b rest ih =>
    have hrest := ih fun c hc => hz c (by simp [hc])
    have ha : a ≠ 0 := hz a (by simp)
    have hb : b ≠ 0 := hz b (by simp)
    simp [decodeLoop, ha, hb, hrest]
  | case3 c rest hnot ih =>
    have hrest := ih fun d hd => hz d (by simp [hd])
    have hc : c ≠ 0 := hz c (by simp)
    by_cases hp : c = 37
    · -- fewer than two characters are left, so the terminator is among the next two bytes
      subst hp
      rcases rest with _ | ⟨a, _ | ⟨b, rest⟩⟩
      · have hdrop := decodeLoop_drop (37 :: 0 :: past) 0
        simpa [readAt, decodeLoop] using hdrop
      · have hdrop : decodeLoop (37 :: a :: 0 :: past) = decodeLoop (a :: 0 :: past) := by
          simpa [readAt] using decodeLoop_drop (37 :: a :: 0 :: past) 0
        have hdropped : decodeLoop [37, a] = decodeLoop [a] := by simp [decodeLoop]
        exact (hdrop.trans hrest).trans hdropped.symm
      · exact absurd rfl (hnot a b rest rfl)
    · rw [List.cons_append, decodeLoop_cons hp, decodeLoop_cons hp, hrest]

theorem stored_mem_urldecodeTrace {text : List UInt8} (hz : ∀ c ∈ text, c ≠ 0)
    (past : List UInt8) (size i : ℕ) :
    .stored i ∈ (urldecodeTrace (text ++ 0 :: past) size).accesses ↔
      i ≤ (decodeLoop text).length := by
  simp [urldecodeTrace, mem_bind, stored_mem_decodeTrace, decodeLoop_terminated hz]

theorem length_decodeLoop_le (s : List UInt8) : (decodeLoop s).length ≤ (cstr s).length := by
  have hlen := length_decodeLoop (cstr_no_zero s)
  have hdecode : decodeLoop s = decodeLoop (cstr s) := by
    rcases cstr_terminated s with hs | ⟨rest, hs⟩
    · rw [← hs]
    · conv_lhs => rw [hs]
      exact decodeLoop_terminated (cstr_no_zero s) rest
  rw [hdecode]
  omega

/-- As `filter_check` calls it, `urldecode` writes inside its buffer exactly for the texts that
decode to at most 6128 bytes: of that length, with every escape counted as one byte and a
dangling `%` as none. -/
theorem decode_writes_inside_iff {text past : List UInt8} (hz : ∀ c ∈ text, c ≠ 0) :
    (∀ i, .stored i ∈ (urldecodeTrace (text ++ 0 :: past)
        (strnlen (text ++ 0 :: past) 6128)).accesses →
      i ≤ strnlen (text ++ 0 :: past) 6128) ↔
    text.length ≤ 6128 + 2 * escapes text + dangling text := by
  have hlen := length_decodeLoop hz
  simp only [stored_mem_urldecodeTrace hz, strnlen_terminated hz]
  constructor
  · intro h
    have hlast := h (decodeLoop text).length le_rfl
    omega
  · intro h i hi
    omega

/-- A short text is decoded inside its buffer. -/
theorem decode_writes_inside_short :
    strnlen (ascii "GET /%41" ++ 0 :: []) 6128 = 8 ∧
      ∀ i, .stored i ∈ (urldecodeTrace (ascii "GET /%41" ++ 0 :: []) 8).accesses → i ≤ 8 := by
  have hsize : strnlen (ascii "GET /%41" ++ 0 :: []) 6128 = 8 := by decide +kernel
  have hz : ∀ c ∈ ascii "GET /%41", c ≠ 0 := by decide +kernel
  have h : ∀ i, .stored i ∈ (urldecodeTrace (ascii "GET /%41" ++ 0 :: [])
      (strnlen (ascii "GET /%41" ++ 0 :: []) 6128)).accesses → i ≤ _ :=
    (decode_writes_inside_iff hz).mpr (by decide +kernel)
  rw [hsize] at h
  exact ⟨hsize, h⟩

theorem decodeLoop_replicate (n : ℕ) : decodeLoop (List.replicate n 97) = List.replicate n 97 := by
  induction n with
  | zero => rfl
  | succ n ih =>
    rw [List.replicate_succ, decodeLoop_cons (by decide), ih]
    rfl

/-- A text of 6129 plain characters has its terminator written behind the buffer of 6129
bytes. -/
theorem decode_writes_past_buffer :
    strnlen (List.replicate 6129 97 ++ 0 :: []) 6128 = 6128 ∧
      .stored 6129 ∈ (urldecodeTrace (List.replicate 6129 97 ++ 0 :: [])
        (strnlen (List.replicate 6129 97 ++ 0 :: []) 6128)).accesses := by
  have hz : ∀ c ∈ List.replicate 6129 (97 : UInt8), c ≠ 0 := by
    intro c hc
    rw [List.eq_of_mem_replicate hc]
    decide
  rw [strnlen_terminated hz, stored_mem_urldecodeTrace hz, decodeLoop_replicate,
    List.length_replicate]
  exact ⟨rfl, le_rfl⟩

end OctopusWaf
