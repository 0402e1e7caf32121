import OctopusWaf.DecodeBounds

/-! `urldecode` as an inverse. Every spelling of a text decodes to it, while malformed escapes
do not come through as they are. -/
namespace OctopusWaf
open CMachine CString

/-- `ch` is the digit of value `n` below 16, a letter in either case. -/
def IsHexDigit (n : ℕ) (ch : UInt8) : Prop :=
  n < 10 ∧ ch.toNat = 48 + n ∨
    (10 ≤ n ∧ n < 16) ∧ (ch.toNat = 55 + n ∨ ch.toNat = 87 + n)

/-- `e` spells `s`: each byte as itself, if it is neither `%` nor `+`, a space as `+`, or
any byte as `%` and its two digits. -/
inductive Encodes : (s e : List UInt8) → Prop where
  | nil : Encodes [] []
  | plain {s e : List UInt8} {c : UInt8} (hp : c ≠ 37) (hplus : c ≠ 43) (h : Encodes s e) :
      Encodes (c :: s) (c :: e)
  | plus {s e : List UInt8} (h : Encodes s e) : Encodes (32 :: s) (43 :: e)
  | escape {s e : List UInt8} {c high low : UInt8} (hhigh : IsHexDigit (c.toNat / 16) high)
      (hlow : IsHexDigit (c.toNat % 16) low) (h : Encodes s e) :
      Encodes (c :: s) (37 :: high :: low :: e)

theorem from_hex_digit {n : ℕ} {ch : UInt8} (h : IsHexDigit n ch) :
    from_hex ch = UInt8.ofNat n := by
  have hof (k : ℕ) (hk : ch.toNat = k) : ch = UInt8.ofNat k := by rw [← hk, UInt8.ofNat_toNat]
  rcases h with ⟨hn, hch⟩ | ⟨⟨hlo, hhi⟩, hch | hch⟩
  · rw [hof _ hch]
    interval_cases n <;> rfl
  · rw [hof _ hch]
    interval_cases n <;> rfl
  · rw [hof _ hch]
    interval_cases n <;> rfl

theorem digit_ne_zero {n : ℕ} {ch : UInt8} (h : IsHexDigit n ch) : ch ≠ 0 := by
  rintro rfl
  have hzero : (0 : UInt8).toNat = 0 := rfl
  unfold IsHexDigit at h
  omega

/-- The two digits of a byte give the byte back. -/
theorem escape_value {c high low : UInt8} (hhigh : IsHexDigit (c.toNat / 16) high)
    (hlow : IsHexDigit (c.toNat % 16) low) : (from_hex high <<< 4) ||| from_hex low = c := by
  have hc := c.toNat_lt
  have hvalue : ∀ k < 256, (UInt8.ofNat (k / 16) <<< 4) ||| UInt8.ofNat (k % 16) =
      UInt8.ofNat k := by decide +kernel
  rw [from_hex_digit hhigh, from_hex_digit hlow, hvalue c.toNat hc, UInt8.ofNat_toNat]

theorem setWidth_charWord (c : UInt8) : (charWord c).setWidth 8 = c.toBitVec := by
  have hc := c.toNat_lt
  apply BitVec.eq_of_toNat_eq
  rw [charWord, BitVec.toNat_setWidth, BitVec.toNat_ofInt, charInt]
  change _ = c.toNat
  split_ifs <;> omega

theorem setWidth_charWord_sub (c : UInt8) (k : BitVec 32) :
    (charWord c - k).setWidth 8 = c.toBitVec - k.setWidth 8 := by
  rw [BitVec.sub_eq_add_neg, BitVec.setWidth_add _ _ (by decide),
    BitVec.setWidth_neg_of_le (by decide), setWidth_charWord, BitVec.sub_eq_add_neg]

/-- The source computes with promoted `int`s and narrows the result to a `char`, which is the
byte `from_hex` gives here, whatever the sign of the operand. -/
theorem from_hex_narrowed (ch : UInt8) :
    (if isdigit ch then charWord ch - 48 else charWord (tolower ch) - 97 + 10).setWidth 8 =
      (from_hex ch).toBitVec := by
  unfold from_hex
  split_ifs
  · rw [setWidth_charWord_sub]
    rfl
  · rw [BitVec.setWidth_add _ _ (by decide), setWidth_charWord_sub]
    rfl

/-- So are the shift and the combination of two digits. -/
theorem escape_narrowed (a b : UInt8) :
    ((charWord a <<< 4) ||| charWord b).setWidth 8 = ((a <<< 4) ||| b).toBitVec := by
  rw [BitVec.setWidth_or, BitVec.setWidth_shiftLeft_of_le (by decide), setWidth_charWord,
    setWidth_charWord]
  rfl

theorem Encodes.length_le {s e : List UInt8} (h : Encodes s e) : s.length ≤ e.length := by
  induction h with
  | nil => exact le_rfl
  | plain _ _ _ ih => exact Nat.succ_le_succ ih
  | plus _ ih => exact Nat.succ_le_succ ih
  | escape _ _ _ ih =>
    simp only [List.length_cons]
    omega

/-- A spelling of a text without zero bytes has none either. -/
theorem Encodes.no_zero {s e : List UInt8} (h : Encodes s e) (hz : ∀ c ∈ s, c ≠ 0) :
    ∀ c ∈ e, c ≠ 0 := by
  induction h with
  | nil => exact hz
  | plain _ _ _ ih =>
    rw [List.forall_mem_cons] at hz ⊢
    exact ⟨hz.1, ih hz.2⟩
  | plus _ ih =>
    rw [List.forall_mem_cons] at hz ⊢
    exact ⟨by decide, ih hz.2⟩
  | escape hhigh hlow _ ih =>
    simp only [List.forall_mem_cons] at hz ⊢
    exact ⟨by decide, digit_ne_zero hhigh, digit_ne_zero hlow, ih hz.2⟩

/-- A spelling is decoded by itself, whatever stands behind it. -/
theorem decodeLoop_encodes {s e : List UInt8} (h : Encodes s e) (hz : ∀ c ∈ s, c ≠ 0)
    (rest : List UInt8) : decodeLoop (e ++ rest) = s ++ decodeLoop rest := by
  induction h with
  | nil => rfl
  | plain hp hplus _ ih =>
    rw [List.forall_mem_cons] at hz
    rw [List.cons_append, decodeLoop_cons hp, if_neg hz.1, if_neg hplus, ih hz.2,
      List.cons_append]
  | plus _ ih =>
    rw [List.forall_mem_cons] at hz
    rw [List.cons_append, decodeLoop_cons (by decide), if_neg (by decide), if_pos rfl, ih hz.2,
      List.cons_append]
  | escape hhigh hlow _ ih =>
    rw [List.forall_mem_cons] at hz
    simp only [List.cons_append, decodeLoop, ne_eq, digit_ne_zero hhigh, digit_ne_zero hlow,
      not_false_eq_true, and_self, if_true]
    rw [escape_value hhigh hlow, ih hz.2]

/-- Every spelling of a text without zero bytes decodes to exactly that text and a
terminator, which fit into the buffer. -/
theorem urldecode_inverts {s e : List UInt8} (henc : Encodes s e) (hz : ∀ c ∈ s, c ≠ 0)
    (past : List UInt8) :
    urldecode (e ++ 0 :: past) (cstr (e ++ 0 :: past)).length = ⟨e.length + 1, s ++ [0]⟩ ∧
      s.length ≤ e.length := by
  have hend : decodeLoop (0 :: past) = [] := decodeLoop_cons (by decide) past
  refine ⟨?_, henc.length_le⟩
  rw [urldecode, length_cstr_terminated (henc.no_zero hz), decodeLoop_encodes henc hz, hend,
    List.append_nil]

/-- `a é` in Latin-1, spelled as `%61+%e9`. -/
theorem urldecode_inverts_mixed :
    urldecode (ascii "%61+%e9" ++ 0 :: []) (cstr (ascii "%61+%e9" ++ 0 :: [])).length =
        ⟨(ascii "%61+%e9").length + 1, [97, 32, 233] ++ [0]⟩ ∧
      [(97 : UInt8), 32, 233].length ≤ (ascii "%61+%e9").length := by
  have henc : Encodes [97, 32, 233] (ascii "%61+%e9") :=
    .escape (.inl (by decide)) (.inl (by decide))
      (.plus (.escape (.inr (by decide)) (.inl (by decide)) .nil))
  exact urldecode_inverts henc (by simp) []

/-- Characters that the decoder passes on as they are. -/
def Plain (s : List UInt8) : Prop := ∀ c ∈ s, c ≠ 0 ∧ c ≠ 37 ∧ c ≠ 43

instance (s : List UInt8) : Decidable (Plain s) := List.decidableBAll _ s

theorem encodes_plain {s : List UInt8} (hs : Plain s) : Encodes s s := by
  induction s with
  | nil => exact .nil
  | cons c s ih =>
    obtain ⟨-, hp, hplus⟩ := hs c (by simp)
    exact .plain hp hplus (ih fun d hd => hs d (by simp [hd]))

theorem decodeLoop_plain {s : List UInt8} (hs : Plain s) (rest : List UInt8) :
    decodeLoop (s ++ rest) = s ++ decodeLoop rest :=
  decodeLoop_encodes (encodes_plain hs) (fun c hc => (hs c hc).1) rest

theorem dangling_plain {s : List UInt8} (hs : Plain s) : dangling s = 0 := by
  induction s with
  | nil => rfl
  | cons c s ih =>
    rw [dangling_cons (hs c (by simp)).2.1]
    exact ih fun d hd => hs d (by simp [hd])

/-- Text that is decoded by itself, and to no zero byte. -/
structure Readable (text : List UInt8) : Prop where
  complete : dangling text = 0
  nonzero : ∀ c ∈ text, c ≠ 0
  decoded : ∀ c ∈ decodeLoop text, c ≠ 0

theorem readable_nil : Readable [] := ⟨rfl, by simp, by simp [decodeLoop]⟩

/-- Plain text keeps what it follows readable, and is decoded to itself there. -/
theorem Readable.append_plain {text plain : List UInt8} (h : Readable text) (hp : Plain plain) :
    Readable (text ++ plain) ∧ decodeLoop (text ++ plain) = decodeLoop text ++ plain := by
  have hdecode : decodeLoop (text ++ plain) = decodeLoop text ++ plain := by
    have hplain := decodeLoop_plain hp []
    rw [List.append_nil] at hplain
    rw [decodeLoop_append_of_dangling h.complete h.nonzero, hplain]
    simp [decodeLoop]
  have hnonzero : ∀ c ∈ text ++ plain, c ≠ 0 := by
    intro c hc
    rcases List.mem_append.mp hc with hc | hc
    · exact h.nonzero c hc
    · exact (hp c hc).1
  refine ⟨⟨?_, hnonzero, ?_⟩, hdecode⟩
  · rw [dangling_append h.complete]
    exact dangling_plain hp
  · rw [hdecode]
    intro c hc
    rcases List.mem_append.mp hc with hc | hc
    · exact h.decoded c hc
    · exact (hp c hc).1

/-- A text whose escapes are all malformed: no `%` in it stands before two hexadecimal
digits. -/
structure MalformedOnly (t : List UInt8) : Prop where
  nonzero : ∀ c ∈ t, c ≠ 0
  noPlus : ∀ c ∈ t, c ≠ 43
  incomplete : ∀ i < t.length, readAt t i = 37 →
    ¬ (isxdigit (readAt t (i + 1)) = true ∧ isxdigit (readAt t (i + 2)) = true)

/-- Every `%` makes the decoded text shorter. -/
theorem exists_percent_of_mem {t : List UInt8} (h : 37 ∈ t) : 0 < escapes t + dangling t := by
  induction t using escapes.induct with
  | case1 => contradiction
  | case2 a b rest ih =>
    simp only [escapes]
    omega
  | case3 c rest hnot ih =>
    rw [escapes.eq_3 _ _ hnot, dangling.eq_3 _ _ hnot]
    rcases List.mem_cons.mp h with rfl | hrest
    · simp
    · have hpos := ih hrest
      omega

/-- Text with malformed escapes only is decoded to itself exactly if it has no `%` at all. -/
theorem malformed_unchanged_iff {t : List UInt8} (h : MalformedOnly t) (past : List UInt8) :
    (urldecode (t ++ 0 :: past) (cstr (t ++ 0 :: past)).length).written = t ++ [0] ↔ 37 ∉ t := by
  simp only [urldecode, decodeLoop_terminated h.nonzero, List.append_cancel_right_eq]
  constructor
  · intro heq hmem
    have hlen := length_decodeLoop h.nonzero
    have hpos := exists_percent_of_mem hmem
    rw [heq] at hlen
    omega
  · intro hno
    have hplain : Plain t := fun c hc =>
      ⟨h.nonzero c hc, fun he => hno (he ▸ hc), h.noPlus c hc⟩
    simpa [decodeLoop] using decodeLoop_plain hplain []

theorem malformed_unchanged_plain :
    (urldecode (ascii "x=1" ++ 0 :: []) (cstr (ascii "x=1" ++ 0 :: [])).length).written =
      ascii "x=1" ++ [0] ↔ 37 ∉ ascii "x=1" :=
  malformed_unchanged_iff ⟨by decide +kernel, by decide +kernel, by decide +kernel⟩ []

/-- A `%` at the end is lost, and two characters that are no digits become a third one. -/
theorem malformed_changed :
    MalformedOnly (ascii "100%") ∧
      (urldecode (ascii "100%" ++ 0 :: []) (cstr (ascii "100%" ++ 0 :: [])).length).written =
        ascii "100" ++ [0] ∧
      MalformedOnly (ascii "%zz") ∧
      (urldecode (ascii "%zz" ++ 0 :: []) (cstr (ascii "%zz" ++ 0 :: [])).length).written =
        ascii "3" ++ [0] ∧
      ascii "100" ≠ ascii "100%" ∧ ascii "3" ≠ ascii "%zz" := by
  refine ⟨⟨?_, ?_, ?_⟩, ?_, ⟨?_, ?_, ?_⟩, ?_, ?_, ?_⟩
  all_goals decide +kernel

end OctopusWaf
