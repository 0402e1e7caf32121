import OctopusWaf.SqliQuoting

/-! A number that a comment follows: the whole analysis of `1--` and its like, with blanks in
front. -/
namespace OctopusWaf.Libinjection
open CMachine CString

variable {lookup : ptr_lookup_fn} {sf sf' : sfilter} {pre digits rest : List UInt8} {k : ℕ}

/-- A token with a text that was cut from the input. -/
def cutToken (t : stoken_t) (type : UInt8) (pos : ℕ) (text : List UInt8) : stoken_t :=
  { t with
    type := type, pos := pos, len := min text.length 31,
    val := text.take (min text.length 31) ++ List.replicate (32 - min text.length 31) 0 }

theorem assignCurrent_cut (hc : sf.cur.Cleared) (type : UInt8) (pos : ℕ) (text rest : List UInt8)
    (next : ℕ) : assignCurrent sf type pos text.length (text ++ rest) next =
      .ok (next, sf.setCurrent (cutToken sf.cur type pos text)) := by
  have hassign := @st_assign_cleared sf.cur hc type pos text.length (text ++ rest) (by simp)
  have htake : (text ++ rest).take (min text.length 31) = text.take (min text.length 31) := by
    rw [List.take_append_of_le_length (by omega)]
  unfold assignCurrent
  rw [hassign, ok_bind, htake]
  rfl

/-- What stands at `pos` when the input is split there. -/
theorem drop_at {s a b : List UInt8} {pos : ℕ} (hs : s = a ++ b) (hpos : pos = a.length) :
    s.drop pos = b := by
  rw [hs, hpos, List.drop_left]

theorem readInput_at {s a w : List UInt8} {c : UInt8} {pos : ℕ} (hs : s = a ++ c :: w)
    (hpos : pos = a.length) : readInput s pos = .ok c := by
  rw [hs, hpos]
  exact readInput_append a c w

theorem not_digit {c : UInt8} (h : ISDIGIT c = true) :
    ¬ (c = chr 'X' ∨ c = chr 'x') ∧ ¬ (c = chr 'B' ∨ c = chr 'b') := by
  have hrange : 48 ≤ c ∧ c ≤ 57 := of_decide_eq_true h
  constructor
  · rintro (rfl | rfl) <;> exact absurd hrange (by decide)
  · rintro (rfl | rfl) <;> exact absurd hrange (by decide)

/-- What stands behind a byte of a number is a digit or the dash, and no radix mark. -/
theorem radixDigits_none (hs : sf.s = pre ++ (digits ++ chr '-' :: rest)) {pos : ℕ}
    (hpos : pos = pre.length) (hdigits : ∀ d ∈ digits, ISDIGIT d = true) (hne : digits ≠ []) :
    radixDigits sf.s pos = .ok none := by
  obtain ⟨d, ds, rfl⟩ := List.exists_cons_of_ne_nil hne
  have hfirst : readInput sf.s pos = .ok d := readInput_at hs hpos
  obtain ⟨c, w, hc, hmark⟩ : ∃ c w, ds ++ chr '-' :: rest = c :: w ∧
      ¬ (c = chr 'X' ∨ c = chr 'x') ∧ ¬ (c = chr 'B' ∨ c = chr 'b') := by
    cases ds with
    | nil => exact ⟨_, _, rfl, by decide⟩
    | cons c ds => exact ⟨c, _, rfl, not_digit (hdigits c (by simp))⟩
  have hsecond : readInput sf.s (pos + 1) = .ok c := by
    apply @readInput_at _ (pre ++ [d]) w
    · rw [hs, List.append_assoc, List.cons_append, hc]
      rfl
    · rw [List.length_append, hpos]
      rfl
  unfold radixDigits
  rw [hfirst, ok_bind, hsecond, ok_bind, if_neg hmark.1, if_neg hmark.2]
  exact ite_self _

theorem skipDigits_all (hs : sf.s = pre ++ (digits ++ chr '-' :: rest)) {pos : ℕ}
    (hpos : pos = pre.length) (hdigits : ∀ d ∈ digits, ISDIGIT d = true) :
    skipDigits sf.s pos = .ok (pos + digits.length) := by
  have htake : (digits ++ chr '-' :: rest).takeWhile ISDIGIT = digits := by
    rw [List.takeWhile_append_of_pos hdigits, List.takeWhile_cons_of_neg (by decide),
      List.append_nil]
  have hle : pos ≤ sf.s.length := by
    rw [hs, hpos, List.length_append]
    omega
  unfold skipDigits
  rw [tailInput_ok hle, ok_bind, drop_at hs hpos, htake]

/-- A dash ends a number. -/
theorem numberTail_dash (hs : sf.s = pre ++ (digits ++ chr '-' :: rest))
    {start : ℕ} (hstart : start = pre.length) (hc : sf.cur.Cleared) :
    numberTail sf start (start + digits.length) = .ok (start + digits.length,
      sf.setCurrent (cutToken sf.cur TYPE_NUMBER start digits)) := by
  have hsplit : sf.s = (pre ++ digits) ++ chr '-' :: rest := by rw [hs, List.append_assoc]
  have hend : start + digits.length = (pre ++ digits).length := by
    rw [List.length_append, hstart]
  have hread := readInput_at hsplit hend
  have hexponent : numberExponent sf.s (start + digits.length) =
      .ok (start + digits.length, false, false) := by
    unfold numberExponent andAlso
    rw [hread, ok_bind]
    split_ifs <;> rfl
  have hsuffix : numberSuffix sf.s (start + digits.length) = .ok (start + digits.length) := by
    unfold numberSuffix andAlso
    rw [hread, ok_bind]
    split_ifs <;> rfl
  have hle : start ≤ sf.s.length := by
    rw [hs, hstart, List.length_append]
    omega
  unfold numberTail
  rw [hexponent, ok_bind]
  dsimp only
  rw [hsuffix, ok_bind, tailInput_ok hle, ok_bind, drop_at hs hstart, Nat.add_sub_cancel_left]
  exact assignCurrent_cut hc TYPE_NUMBER start digits (chr '-' :: rest) _

/-- Digits before a dash are a number. -/
theorem parse_number_digits (hs : sf.s = pre ++ (digits ++ chr '-' :: rest))
    (hpos : sf.pos = pre.length) (hc : sf.cur.Cleared)
    (hdigits : ∀ d ∈ digits, ISDIGIT d = true) (hne : digits ≠ []) :
    parse_number sf = .ok (sf.pos + digits.length,
      sf.setCurrent (cutToken sf.cur TYPE_NUMBER sf.pos digits)) := by
  have hsplit : sf.s = (pre ++ digits) ++ chr '-' :: rest := by rw [hs, List.append_assoc]
  have hend : sf.pos + digits.length = (pre ++ digits).length := by
    rw [List.length_append, hpos]
  have hpoint : andAlso (ε := Fault) (sf.pos + digits.length < sf.slen) (do
      let c ← readInput sf.s (sf.pos + digits.length)
      .ok (c = chr '.')) = .ok false := by
    unfold andAlso
    rw [readInput_at hsplit hend, ok_bind]
    split_ifs <;> rfl
  unfold parse_number
  dsimp only
  rw [radixDigits_none hs hpos hdigits hne, ok_bind]
  dsimp only
  rw [skipDigits_all hs hpos hdigits, ok_bind, hpoint, ok_bind]
  exact numberTail_dash hs hpos hc

/-- Two dashes that end the input are a comment in either mode. -/
theorem parse_dash_end (hs : sf.s = pre ++ ascii "--") (hpos : sf.pos = pre.length)
    (hc : sf.cur.Cleared) : parse_dash sf =
      .ok (sf.slen, sf.setCurrent (cutToken sf.cur TYPE_COMMENT sf.pos (ascii "--"))) := by
  have hlen : sf.slen = sf.pos + 2 := by
    rw [sfilter.slen, hs, List.length_append, hpos]
    rfl
  have hsecond : readInput sf.s (sf.pos + 1) = .ok (chr '-') := by
    apply @readInput_at _ (pre ++ [chr '-']) []
    · rw [hs, List.append_assoc]
      rfl
    · rw [List.length_append, hpos]
      rfl
  have hcomment : parse_eol_comment sf =
      .ok (sf.slen, sf.setCurrent (cutToken sf.cur TYPE_COMMENT sf.pos (ascii "--"))) := by
    have htail : tailInput sf.s sf.pos = .ok (ascii "--") := by
      rw [tailInput_ok (show sf.pos ≤ sf.s.length from by rw [← sfilter.slen]; omega),
        drop_at hs hpos]
    unfold parse_eol_comment
    rw [htail, ok_bind]
    exact assignCurrent_cut hc TYPE_COMMENT sf.pos (ascii "--") [] sf.slen
  have hshort : ¬ sf.pos + 2 < sf.slen := by omega
  have heof : (andAlso (sf.pos + 2 = sf.slen) do
      let c1 ← readInput sf.s (sf.pos + 1)
      .ok (c1 = chr '-') : Except Fault Bool) = .ok true := by
    rw [andAlso, if_pos hlen.symm, hsecond, ok_bind]
    rfl
  unfold parse_dash
  dsimp only
  rw [andAlso, if_neg hshort, ok_bind, if_neg (by decide), heof, ok_bind, if_pos rfl, hcomment]

/-- Outside a quote, the call at the end of the input clears the token. -/
theorem tokenize_past_end
    (hflag : ¬ hasFlag sf.flags (FLAG_QUOTE_SINGLE ||| FLAG_QUOTE_DOUBLE))
    (hne : sf.slen ≠ 0) (hpos : sf.pos = sf.slen) :
    libinjection_sqli_tokenize lookup sf = .ok (false, sf.setCurrent st_clear) := by
  have hquote : ¬ ((sf.setCurrent st_clear).pos = 0 ∧
      hasFlag (sf.setCurrent st_clear).flags (FLAG_QUOTE_SINGLE ||| FLAG_QUOTE_DOUBLE)) :=
    fun h => hflag h.2
  have hround : tokenRound lookup (sf.setCurrent st_clear) =
      .ok (.inl (false, sf.setCurrent st_clear)) := if_neg (not_lt.mpr hpos.ge)
  unfold libinjection_sqli_tokenize
  rw [if_neg hne]
  dsimp only
  rw [if_neg hquote]
  exact rounds_leave hround _

/-- A comment is all that follows the first token. -/
theorem fetch_comment {f : Folding} (h : First f) (hne : f.sf.slen ≠ 0)
    (hcall : libinjection_sqli_tokenize lookup { f.sf with current := 1 } = .ok (true, sf))
    (htype : sf.cur.type = TYPE_COMMENT)
    (hend : libinjection_sqli_tokenize lookup { sf with current := 1 } = .ok (false, sf')) :
    fetch lookup 2 f = .ok { f with sf := sf', more := false, last_comment := sf.cur } := by
  have hcomment : fetchRound lookup 2 f =
      .ok (.inr { f with sf := sf, more := true, last_comment := sf.cur }) := by
    rw [fetchRound_first h, hcall, ok_bind]
    dsimp only
    rw [if_pos rfl, if_pos htype]
  have hsecond : First { f with sf := sf, more := true, last_comment := sf.cur } :=
    ⟨h.pos, h.left, rfl⟩
  have hlast : fetchRound lookup 2 { f with sf := sf, more := true, last_comment := sf.cur } =
      .ok (.inr { f with sf := sf', more := false, last_comment := sf.cur }) := by
    rw [fetchRound_first hsecond, hend]
    rfl
  have hleft : f.left ≤ f.pos := by
    rw [h.left]
    exact Nat.zero_le _
  have hstop : fetchRound lookup 2 { f with sf := sf', more := false, last_comment := sf.cur } =
      .ok (.inl { f with sf := sf', more := false, last_comment := sf.cur }) :=
    fetchRound_stop hleft rfl
  have hrounds : f.sf.slen + 2 = f.sf.slen - 1 + 1 + 1 + 1 := by omega
  rw [fetch, hrounds, rounds_again hcomment, rounds_again hlast]
  exact rounds_leave hstop _

theorem setCurrent_setCurrent (sf : sfilter) (t u : stoken_t) :
    (sf.setCurrent t).setCurrent u = sf.setCurrent u :=
  congrArg (fun v => { sf with tokenvec := v }) (Function.update_idem _ _ _)

theorem charParser_digit {c : UInt8} (h : ISDIGIT c = true) : charParser c = .parse_number := by
  have hall : ∀ i : Fin 256, ISDIGIT (UInt8.ofNat i) = true →
      charParser (UInt8.ofNat i) = .parse_number := by decide +kernel
  have hc := hall ⟨c.toNat, c.toNat_lt⟩
  rw [UInt8.ofNat_toNat] at hc
  exact hc h

/-- The call that reads the number. -/
theorem tokenize_number
    (hflag : ¬ hasFlag sf.flags (FLAG_QUOTE_SINGLE ||| FLAG_QUOTE_DOUBLE))
    (hs : sf.s = pre ++ (digits ++ chr '-' :: rest)) (hpos : sf.pos + k = pre.length)
    (hwhite : WhiteBetween sf.s sf.pos (sf.pos + k)) (hdigits : ∀ d ∈ digits, ISDIGIT d = true)
    (hne : digits ≠ []) : libinjection_sqli_tokenize lookup sf =
      .ok (true, { sf.setCurrent (cutToken st_clear TYPE_NUMBER pre.length digits) with
        pos := pre.length + digits.length, stats_tokens := sf.stats_tokens + 1 }) := by
  rw [← hpos]
  have hlen : sf.pos + k < sf.slen := by
    rw [sfilter.slen, hs, hpos, List.length_append, List.length_append, List.length_cons]
    omega
  have hfirst : charParser (readAt sf.s (sf.pos + k)) = .parse_number := by
    obtain ⟨d, ds, rfl⟩ := List.exists_cons_of_ne_nil hne
    have hread := readInput_at hs hpos
    rw [readInput_ok hlen] at hread
    rw [Except.ok.inj hread]
    exact charParser_digit (hdigits d List.mem_cons_self)
  have hcur : sfilter.cur { sf.setCurrent st_clear with pos := sf.pos + k } = st_clear :=
    cur_setCurrent sf st_clear
  have hclear : (sfilter.cur { sf.setCurrent st_clear with pos := sf.pos + k }).Cleared := by
    rw [hcur]
    rfl
  have hrun := @parse_number_digits { sf.setCurrent st_clear with pos := sf.pos + k }
    pre digits rest hs hpos hclear hdigits hne
  rw [hcur] at hrun
  have htype : TYPE_NUMBER ≠ CHAR_NULL := by decide
  rw [tokenize_token hflag hlen hwhite hfirst hrun (by rw [cur_setCurrent]; exact htype)]
  exact congrArg (fun t => Except.ok (true, ({ t with
    pos := sf.pos + k + digits.length, stats_tokens := sf.stats_tokens + 1 } : sfilter)))
      (setCurrent_setCurrent sf st_clear _)

/-- The call that reads the comment. -/
theorem tokenize_comment
    (hflag : ¬ hasFlag sf.flags (FLAG_QUOTE_SINGLE ||| FLAG_QUOTE_DOUBLE))
    (hs : sf.s = pre ++ ascii "--") (hpos : sf.pos = pre.length) :
    libinjection_sqli_tokenize lookup sf =
      .ok (true, { sf.setCurrent (cutToken st_clear TYPE_COMMENT sf.pos (ascii "--")) with
        pos := sf.slen, stats_tokens := sf.stats_tokens + 1 }) := by
  have hlen : sf.pos + 0 < sf.slen := by
    rw [sfilter.slen, hs, hpos, List.length_append, Nat.add_zero]
    exact Nat.lt_add_of_pos_right (by decide)
  have hfirst : charParser (readAt sf.s (sf.pos + 0)) = .parse_dash := by
    have hread : readInput sf.s (sf.pos + 0) = .ok (chr '-') := readInput_at hs hpos
    rw [readInput_ok hlen] at hread
    rw [Except.ok.inj hread]
    decide
  have hwhite : WhiteBetween sf.s sf.pos (sf.pos + 0) := fun i hi hlt => by omega
  have hcur : sfilter.cur { sf.setCurrent st_clear with pos := sf.pos + 0 } = st_clear :=
    cur_setCurrent sf st_clear
  have hclear : (sfilter.cur { sf.setCurrent st_clear with pos := sf.pos + 0 }).Cleared := by
    rw [hcur]
    rfl
  have hrun := @parse_dash_end { sf.setCurrent st_clear with pos := sf.pos + 0 } pre hs hpos hclear
  rw [hcur] at hrun
  have htype : TYPE_COMMENT ≠ CHAR_NULL := by decide
  rw [tokenize_token hflag hlen hwhite hfirst hrun (by rw [cur_setCurrent]; exact htype)]
  exact congrArg (fun t => Except.ok (true, ({ t with
    pos := sf.slen, stats_tokens := sf.stats_tokens + 1 } : sfilter)))
      (setCurrent_setCurrent sf st_clear _)

/-- The comment that was kept aside is the last token. -/
theorem foldEnd_comment {f : Folding} (hpos : f.pos = 1)
    (htype : f.last_comment.type = TYPE_COMMENT) : foldEnd f =
      .ok (2, { f.sf with tokenvec := Function.update f.sf.tokenvec 1 f.last_comment }) := by
  have hfew : f.pos < 5 := by omega
  unfold foldEnd
  rw [if_pos ⟨hfew, htype⟩, hpos]
  rfl

/-- What the fold leaves of a number from `k` on and a comment. -/
structure NumberThenComment (s : List UInt8) (k : ℕ) (digits : List UInt8) (sf : sfilter) :
    Prop where
  input : sf.s = s
  number : sf.tokenvec 0 = cutToken st_clear TYPE_NUMBER k digits
  comment : sf.tokenvec 1 =
    cutToken st_clear TYPE_COMMENT (k + digits.length) (ascii "--")
  tokens : sf.stats_tokens = 2
  ddx : sf.stats_comment_ddx = 0
  hash : sf.stats_comment_hash = 0

theorem fold_number_comment
    (hflag : ¬ hasFlag sf.flags (FLAG_QUOTE_SINGLE ||| FLAG_QUOTE_DOUBLE))
    (hs : sf.s = pre ++ (digits ++ ascii "--")) (hpos : sf.pos = 0)
    (hwhite : WhiteBetween sf.s 0 pre.length) (hdigits : ∀ d ∈ digits, ISDIGIT d = true)
    (hne : digits ≠ []) (htokens : sf.stats_tokens = 0) (hddx : sf.stats_comment_ddx = 0)
    (hhash : sf.stats_comment_hash = 0) : ∃ sf', libinjection_sqli_fold lookup sf = .ok (2, sf') ∧
      NumberThenComment sf.s pre.length digits sf' := by
  have hstart : sf.pos + pre.length = pre.length := by rw [hpos, Nat.zero_add]
  have hsplit : sf.s = (pre ++ digits) ++ ascii "--" := by rw [hs, List.append_assoc]
  have hslen : sf.slen ≠ 0 := by
    rw [sfilter.slen, hsplit, List.length_append]
    exact Nat.succ_ne_zero _
  -- the number goes into the first cell, the comment into the second and out of it
  let number := cutToken st_clear TYPE_NUMBER pre.length digits
  let comment := cutToken st_clear TYPE_COMMENT (pre.length + digits.length) (ascii "--")
  let sf₁ : sfilter := { sfilter.setCurrent { sf with current := 0 } number with
    pos := pre.length + digits.length, stats_tokens := sf.stats_tokens + 1 }
  let sf₂ : sfilter := { sfilter.setCurrent { sf₁ with current := 1 } comment with
    pos := sf.slen, stats_tokens := sf.stats_tokens + 1 + 1 }
  let sf₃ : sfilter := sfilter.setCurrent { sf₂ with current := 1 } st_clear
  have hnumber : libinjection_sqli_tokenize lookup { sf with current := 0 } = .ok (true, sf₁) := by
    exact @tokenize_number lookup { sf with current := 0 } pre digits [chr '-'] pre.length hflag hs
      hstart (by dsimp only; rwa [hstart, hpos]) hdigits hne
  have hcomment : libinjection_sqli_tokenize lookup { sf₁ with current := 1 } = .ok (true, sf₂) :=
    @tokenize_comment lookup { sf₁ with current := 1 } (pre ++ digits) hflag hsplit
      List.length_append.symm
  have hend : libinjection_sqli_tokenize lookup { sf₂ with current := 1 } = .ok (false, sf₃) :=
    @tokenize_past_end lookup { sf₂ with current := 1 } hflag hslen rfl
  have htype₁ : sf₁.cur.type = TYPE_NUMBER :=
    congrArg stoken_t.type (cur_setCurrent { sf with current := 0 } number)
  have hcur₂ : sf₂.cur = comment := cur_setCurrent { sf₁ with current := 1 } comment
  have hkeep : ¬ Skips sf₁.cur := by
    unfold Skips st_is_unary_op
    simp [htype₁]
  have hfirst : First ⟨sf₁, st_clear, 1, 0, true⟩ := ⟨rfl, rfl, rfl⟩
  have hfetch := @fetch_comment lookup _ _ ⟨sf₁, st_clear, 1, 0, true⟩ hfirst hslen hcomment
    (by rw [hcur₂]; rfl) hend
  obtain ⟨n, hn⟩ := foldRounds_eq sf₁.slen
  have hrun := foldRounds_first hfirst hfetch rfl rfl rfl n
  have hlast := @foldEnd_comment ⟨sf₃, sf₂.cur, 1, 1, false⟩ rfl (by dsimp only; rw [hcur₂]; rfl)
  refine ⟨{ sf₃ with tokenvec := Function.update sf₃.tokenvec 1 sf₂.cur }, ?_, rfl, ?_, ?_, ?_,
    hddx, hhash⟩
  · rw [fold_first hnumber hkeep, hn]
    exact hrun.trans hlast
  · have hother : (0 : Fin 8) ≠ 1 := by decide
    have hlast : Function.update sf₃.tokenvec 1 sf₂.cur 0 = sf₃.tokenvec 0 :=
      Function.update_of_ne hother _ _
    have hcleared : sf₃.tokenvec 0 = sf₂.tokenvec 0 :=
      (frame_setCurrent { sf₂ with current := 1 } st_clear).tokenvec 0 hother
    have hread : sf₂.tokenvec 0 = sf₁.tokenvec 0 :=
      (frame_setCurrent { sf₁ with current := 1 } comment).tokenvec 0 hother
    have hfirst : sf₁.tokenvec 0 = number := cur_setCurrent { sf with current := 0 } number
    exact ((hlast.trans hcleared).trans hread).trans hfirst
  · have hlast : Function.update sf₃.tokenvec 1 sf₂.cur 1 = sf₂.cur := Function.update_self _ _ _
    exact hlast.trans hcur₂
  · change sf.stats_tokens + 1 + 1 = 2
    rw [htokens]

theorem split_at {s : List UInt8} {n : ℕ} (h : n < s.length) :
    ∃ a c w, s = a ++ c :: w ∧ n = a.length := by
  refine ⟨s.take n, s[n], s.drop (n + 1), ?_, ?_⟩
  · rw [List.getElem_cons_drop, List.take_append_drop]
  · rw [List.length_take, Nat.min_eq_left h.le]

theorem my_memmem_none {haystack needle : List UInt8} (h : 1 < needle.length)
    (hout : readAt needle 0 ∉ haystack) : my_memmem haystack needle = .ok none := by
  obtain ⟨r, hr, hfound⟩ := @my_memmem_spec haystack needle h
  cases r with
  | none => exact hr
  | some n =>
    obtain ⟨hin, heq⟩ := hfound n rfl
    have hlt : n < haystack.length := by omega
    exact absurd (heq 0 (by omega) ▸ readAt_mem hlt) hout

theorem digit_range {c : UInt8} (h : ISDIGIT c = true) :
    ¬ charInt c ≤ 32 ∧ c ≠ chr '/' ∧ c ≠ chr '-' := by
  have hall : ∀ i : Fin 256, ISDIGIT (UInt8.ofNat i) = true → ¬ charInt (UInt8.ofNat i) ≤ 32 ∧
      UInt8.ofNat i ≠ chr '/' ∧ UInt8.ofNat i ≠ chr '-' := by decide +kernel
  have hc := hall ⟨c.toNat, c.toNat_lt⟩
  rw [UInt8.ofNat_toNat] at hc
  exact hc h

/-- The byte at the length of the number is not always the one behind the number. -/
theorem numberComment_eq {n : ℕ} (hn : n ≤ pre.length + digits.length)
    (hblanks : ∀ c ∈ pre, charInt c ≤ 32) (hdigits : ∀ d ∈ digits, ISDIGIT d = true) :
    numberComment (pre ++ (digits ++ ascii "--")) n =
      .ok (decide (n < pre.length ∨ n = pre.length + digits.length)) := by
  unfold numberComment
  rcases lt_or_ge n pre.length with hblank | hge
  · -- among the blanks in front
    obtain ⟨a, c, w, hsplit, ha⟩ := split_at hblank
    have hread : readInput (pre ++ (digits ++ ascii "--")) n = .ok c := by
      apply @readInput_at _ a (w ++ (digits ++ ascii "--")) c n _ ha
      rw [hsplit, List.append_assoc, List.cons_append]
    have hin : c ∈ pre := by simp [hsplit]
    rw [hread, ok_bind, if_pos (hblanks c hin), decide_eq_true (.inl hblank)]
  rcases hn.lt_or_eq with hlt | rfl
  · -- among the digits
    have hdigit : n - pre.length < digits.length := by omega
    obtain ⟨a, c, w, hsplit, ha⟩ := split_at hdigit
    have hread : readInput (pre ++ (digits ++ ascii "--")) n = .ok c := by
      apply @readInput_at _ (pre ++ a) (w ++ ascii "--")
      · simp [hsplit]
      · rw [List.length_append]
        omega
    have hin : c ∈ digits := by simp [hsplit]
    obtain ⟨hblank, hslash, hdash⟩ := digit_range (hdigits c hin)
    rw [hread, ok_bind, if_neg hblank, andAlso, if_neg hslash, ok_bind, if_neg (by decide), andAlso,
      if_neg hdash, decide_eq_false (by omega)]
  · -- at the comment
    have hfirst : readInput (pre ++ (digits ++ ascii "--")) (pre.length + digits.length) =
        .ok (chr '-') := by
      apply @readInput_at _ (pre ++ digits) [chr '-']
      · rw [List.append_assoc]
        rfl
      · exact List.length_append.symm
    have hsecond : readInput (pre ++ (digits ++ ascii "--")) (pre.length + digits.length + 1) =
        .ok (chr '-') := by
      apply @readInput_at _ (pre ++ digits ++ [chr '-']) []
      · rw [List.append_assoc, List.append_assoc]
        rfl
      · rw [List.length_append, List.length_append]
        rfl
    rw [hfirst, ok_bind, if_neg (by decide), andAlso, if_neg (by decide), ok_bind,
      if_neg (by decide), andAlso, if_pos rfl, hsecond, ok_bind]
    simp

/-- Two tokens in the input, and nothing that would settle the matter earlier. -/
theorem whitelist_number_comment {s : List UInt8} (h : NumberThenComment s k digits sf)
    (hprint : sf.print = ascii "1c") (hout : chr 's' ∉ s) :
    libinjection_sqli_not_whitelist sf = numberComment s (min digits.length 31) := by
  have hlen : sf.print.length = 2 := by rw [hprint]; rfl
  have hcell : readAt sf.fingerprint 1 = TYPE_COMMENT := by
    obtain ⟨rest, heq⟩ := cstr_prefix_self sf.fingerprint
    rw [← heq, show cstr sf.fingerprint = ascii "1c" from hprint]
    rfl
  have hpassword (c : Prop) [Decidable c] : (andAlso c do
      let found ← my_memmem sf.s (ascii "sp_password")
      .ok found.isSome : Except Fault Bool) = .ok false := by
    rw [my_memmem_none (by decide) (h.input ▸ hout)]
    exact ite_self _
  have hdash : readAt (sf.tokenvec 1).val 0 = chr '-' := by rw [h.comment]; rfl
  have hcomment : (sf.tokenvec 1).type = TYPE_COMMENT := by rw [h.comment]; rfl
  have hnumber : (sf.tokenvec 0).type = TYPE_NUMBER := by rw [h.number]; rfl
  have hcut : (sf.tokenvec 0).len = min digits.length 31 := by rw [h.number]; rfl
  have hbare : ¬ (TYPE_NUMBER = TYPE_BAREWORD ∧ TYPE_COMMENT = TYPE_COMMENT ∧ chr '-' ≠ chr '/') := by
    decide
  have hslash : ¬ (TYPE_NUMBER = TYPE_NUMBER ∧ TYPE_COMMENT = TYPE_COMMENT ∧ chr '-' = chr '/') := by
    decide
  have htwo : whitelistTwo sf = numberComment s (min digits.length 31) := by
    unfold whitelistTwo
    rw [show getToken sf 0 = .ok (sf.tokenvec 0) from rfl, ok_bind,
      show getToken sf 1 = .ok (sf.tokenvec 1) from rfl, ok_bind, hcell, hdash, hcomment, hnumber,
      hcut, h.tokens, h.input, if_neg (by decide), if_neg (by decide), if_neg hbare, if_neg hslash,
      if_pos ⟨rfl, rfl⟩, if_neg (by decide)]
  unfold libinjection_sqli_not_whitelist
  dsimp only
  rw [hpassword, ok_bind, hlen, if_neg (by decide), if_pos rfl, htwo]

/-- The context without a quote, in ANSI mode. -/
theorem context_number_comment {sql_keywords : KeywordTable}
    (hlisted : sql_keywords.Lists (ascii "1c")) {s : List UInt8}
    (hs : s = pre ++ (digits ++ ascii "--")) (hwhite : WhiteBetween s 0 pre.length)
    (hdigits : ∀ d ∈ digits, ISDIGIT d = true) (hne : digits ≠ []) (hout : chr 's' ∉ s) {hit : Bool}
    (hit_eq : numberComment s (min digits.length 31) = .ok hit) :
    ∃ sf, context sql_keywords s (FLAG_QUOTE_NONE ||| FLAG_SQL_ANSI) = .ok (hit, sf) ∧
      sf.s = s ∧ sf.print = ascii "1c" ∧ reparse_as_mysql sf = false := by
  have hflag : ¬ hasFlag (FLAG_QUOTE_NONE ||| FLAG_SQL_ANSI)
      (FLAG_QUOTE_SINGLE ||| FLAG_QUOTE_DOUBLE) := by decide
  obtain ⟨sf₁, hfold, h⟩ := @fold_number_comment (is_keyword sql_keywords)
    (libinjection_sqli_reset (libinjection_sqli_init s 0) (FLAG_QUOTE_NONE ||| FLAG_SQL_ANSI))
    pre digits hflag hs rfl hwhite hdigits hne rfl rfl rfl
  have htypes : sf₁.firstTypes 2 = ascii "1c" := by
    have hpair : sf₁.firstTypes 2 = [(sf₁.tokenvec 0).type, (sf₁.tokenvec 1).type] := rfl
    rw [hpair, h.number, h.comment]
    rfl
  have hplain : ∀ c ∈ sf₁.firstTypes 2, c ≠ CHAR_NULL ∧ c ≠ TYPE_EVIL := by
    rw [htypes]
    decide +kernel
  obtain ⟨fingerprint, hfingerprint, hprint⟩ := fingerprint_plain hfold le_rfl hplain
  rw [htypes] at hprint
  have hfolded : NumberThenComment s pre.length digits { sf₁ with fingerprint := fingerprint } :=
    ⟨h.input, h.number, h.comment, h.tokens, h.ddx, h.hash⟩
  have hblack : libinjection_sqli_blacklist sql_keywords { sf₁ with fingerprint := fingerprint } =
      .ok true := by
    have hword := (is_keyword_fingerprint (ascii "1c")).mpr hlisted
    unfold libinjection_sqli_blacklist sfilter.print
    dsimp only
    rw [hprint, hword]
    rfl
  refine ⟨{ sf₁ with fingerprint := fingerprint }, ?_, h.input, hprint, ?_⟩
  · unfold context checkContext libinjection_sqli_check_fingerprint
    rw [hfingerprint, ok_bind, hblack, ok_bind, if_pos rfl,
      whitelist_number_comment hfolded hprint hout, hit_eq, ok_bind]
  · simp [reparse_as_mysql, h.ddx, h.hash]

/-- An input without quotes whose comments are the same in both modes is settled by one
context. -/
theorem libinjection_sqli_plain {sql_keywords : KeywordTable} {s : List UInt8} {hit : Bool}
    (hne : s ≠ []) (hcontext : context sql_keywords s (FLAG_QUOTE_NONE ||| FLAG_SQL_ANSI) =
      .ok (hit, sf)) (hs : sf.s = s) (hreparse : reparse_as_mysql sf = false)
    (hsingle : CHAR_SINGLE ∉ s) (hdouble : CHAR_DOUBLE ∉ s) :
    libinjection_sqli sql_keywords s = .ok (hit, if hit then sf.print else []) := by
  have hlen : (libinjection_sqli_init s 0).slen ≠ 0 := fun h => hne (List.length_eq_zero_iff.mp h)
  have hnone : checkReparsed sql_keywords (libinjection_sqli_init s 0) FLAG_QUOTE_NONE =
      .ok (hit, sf) := by
    have hcontext : checkContext sql_keywords (libinjection_sqli_init s 0)
      (FLAG_QUOTE_NONE ||| FLAG_SQL_ANSI) = .ok (hit, sf) := hcontext
    unfold checkReparsed
    rw [hcontext, ok_bind]
    cases hit with
    | true => rfl
    | false => simp [hreparse]
  have hafter : checkSingle sql_keywords sf = .ok (false, sf) := by
    apply if_neg
    rwa [memchr_isSome, hs]
  have hlast : checkDouble sql_keywords sf = .ok (false, sf) := by
    apply if_neg
    rwa [memchr_isSome, hs]
  have hall : libinjection_is_sqli sql_keywords (libinjection_sqli_init s 0) = .ok (hit, sf) := by
    unfold libinjection_is_sqli
    rw [if_neg hlen, hnone, ok_bind]
    cases hit with
    | true => rfl
    | false => simp only [Bool.false_eq_true, if_false, hafter, hlast, ok_bind]
  rw [libinjection_sqli, hall, ok_bind]

/-- The byte that decides about `1--` and its like, behind blanks, is looked for at the length
of the number, which is at most 31, and not where the number ends: one blank in front, or a
number of more than 31 digits, and the input passes; with more blanks than digits it does not. -/
theorem number_comment_verdict {sql_keywords : KeywordTable}
    (hlisted : sql_keywords.Lists (ascii "1c")) {blanks digits : List UInt8}
    (hblanks : ∀ c ∈ blanks, c ≤ 32) (hdigits : ∀ d ∈ digits, ISDIGIT d = true)
    (hne : digits ≠ []) : libinjection_sqli sql_keywords (blanks ++ (digits ++ ascii "--")) = .ok
      (if min digits.length 31 < blanks.length ∨ (blanks = [] ∧ digits.length ≤ 31) then
        (true, ascii "1c") else (false, [])) := by
  have hpos : 0 < digits.length := List.length_pos_iff.mpr hne
  have hhit : (min digits.length 31 < blanks.length ∨
      min digits.length 31 = blanks.length + digits.length) ↔
        (min digits.length 31 < blanks.length ∨ (blanks = [] ∧ digits.length ≤ 31)) := by
    rw [← List.length_eq_zero_iff]
    omega
  have hout (c : UInt8) (hc : 32 < c) (hdigit : ISDIGIT c = false) (hdash : c ∉ ascii "--") :
      c ∉ blanks ++ (digits ++ ascii "--") := by
    rw [List.mem_append, List.mem_append]
    rintro (hin | hin | hin)
    · exact absurd (hblanks c hin) (UInt8.not_le.mpr hc)
    · exact absurd (hdigits c hin) (by simp [hdigit])
    · exact hdash hin
  have hsmall : ∀ c ∈ blanks, charInt c ≤ 32 := by
    intro c hc
    have hle : c.toNat ≤ 32 := hblanks c hc
    unfold charInt
    split_ifs <;> omega
  have hwhite : WhiteBetween (blanks ++ (digits ++ ascii "--")) 0 blanks.length := by
    intro i _ hi
    rw [isWhite_iff, readAt_append_left hi]
    exact .inl (hblanks _ (readAt_mem hi))
  have hcomment := @numberComment_eq blanks digits (min digits.length 31) (by omega) hsmall hdigits
  obtain ⟨sf, hcontext, hs, hprint, hreparse⟩ := context_number_comment hlisted rfl hwhite hdigits
    hne (hout _ (by decide) (by decide) (by decide)) hcomment
  rw [libinjection_sqli_plain (by simp [hne]) hcontext hs hreparse
    (hout _ (by decide) (by decide) (by decide)) (hout _ (by decide) (by decide) (by decide)), hprint,
    decide_eq_decide.mpr hhit]
  by_cases h : min digits.length 31 < blanks.length ∨ (blanks = [] ∧ digits.length ≤ 31)
  · rw [if_pos h, decide_eq_true h]
    rfl
  · rw [if_neg h, decide_eq_false h]
    rfl

/-- A blank in front. -/
theorem number_comment_verdict_blank : libinjection_sqli fewKeywords (ascii " 1--") = .ok
    (if min 1 31 < 1 ∨ (ascii " " = [] ∧ 1 ≤ 31) then (true, ascii "1c") else (false, [])) :=
  @number_comment_verdict fewKeywords (by unfold KeywordTable.Lists; decide +kernel) (ascii " ")
    (ascii "1") (by decide +kernel) (by decide +kernel) (by decide)

end OctopusWaf.Libinjection
