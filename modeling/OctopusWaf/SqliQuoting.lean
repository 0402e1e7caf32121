import OctopusWaf.SqliVerdict

/-! A text that never closes the quote it is put into is one string token in that context,
and the context says nothing against it. -/
namespace OctopusWaf.Libinjection
open CMachine CString

variable {lookup : ptr_lookup_fn} {sql_keywords : KeywordTable} {sf sf' sf₁ : sfilter}
  {f f' : Folding} {n flags : ℕ}

/-- At the end of the input there is no token. -/
theorem tokenize_at_end (h : sf.pos = sf.slen) :
    ∃ sf', libinjection_sqli_tokenize lookup sf = .ok (false, sf') ∧ Exhausted sf sf' := by
  obtain ⟨r, hr, hspec⟩ := @tokenize_spec lookup sf h.le
  obtain ⟨more, sf'⟩ := r
  cases more with
  | false => exact ⟨sf', hr, hspec⟩
  | true =>
    obtain ⟨a, hfound⟩ := hspec
    have hstart : sf.pos ≤ a := hfound.start
    have hprog : a < sf'.pos := hfound.progress
    have hin : sf'.pos ≤ sf.slen := hfound.token.inside
    omega

/-- Where the fold is after its first token. -/
structure First (f : Folding) : Prop where
  pos : f.pos = 1
  left : f.left = 0
  more : f.more = true

theorem fetchRound_stop (hleft : f.left ≤ f.pos) (hmore : f.more = false) :
    fetchRound lookup n f = .ok (.inl f) := by
  simp [fetchRound, hleft, hmore]

/-- The second cell is read into. -/
theorem fetchRound_first (h : First f) : fetchRound lookup 2 f = (do
    let (more, sf) ← libinjection_sqli_tokenize lookup { f.sf with current := 1 }
    if more then
      if sf.cur.type = TYPE_COMMENT then
        .ok (.inr { f with sf := sf, more := more, last_comment := sf.cur })
      else
        .ok (.inr { f with
          sf := sf, more := more, pos := f.pos + 1,
          last_comment := { f.last_comment with type := CHAR_NULL } })
    else .ok (.inr { f with sf := sf, more := more })) := by
  have hpoint : pointCurrent f.sf f.pos = .ok { f.sf with current := 1 } := by
    rw [h.pos]
    rfl
  unfold fetchRound
  simp only [sizeSub, h.pos, h.left, h.more] at hpoint ⊢
  simp only [hpoint, ok_bind, zero_le, if_true]
  rfl

/-- Nothing follows the first token. -/
theorem fetch_end (h : First f) (hend : f.sf.pos = f.sf.slen) :
    ∃ sf', Exhausted { f.sf with current := 1 } sf' ∧
      fetch lookup 2 f = .ok { f with sf := sf', more := false } := by
  obtain ⟨sf', hcall, hex⟩ := @tokenize_at_end lookup { f.sf with current := 1 } hend
  have hround : fetchRound lookup 2 f = .ok (.inr { f with sf := sf', more := false }) := by
    rw [fetchRound_first h, hcall]
    rfl
  have hleft : f.left ≤ f.pos := by
    rw [h.left]
    exact Nat.zero_le _
  have hstop : fetchRound lookup 2 { f with sf := sf', more := false } =
      .ok (.inl { f with sf := sf', more := false }) := fetchRound_stop hleft rfl
  exact ⟨sf', hex, (rounds_again hround _).trans (rounds_leave hstop _)⟩

theorem foldFive_few (h : f.pos < 5) : foldFive f = .ok f :=
  if_neg fun hfive => absurd hfive.1 (not_le.mpr h)

/-- One token is all there is: the fold ends with it, and with a comment behind it. -/
theorem foldRounds_first (h : First f) (hfetch : fetch lookup 2 f = .ok f')
    (hpos : f'.pos = 1) (hleft : f'.left = 0) (hmore : f'.more = false) (n : ℕ) :
    rounds .diverges (foldRound lookup) (n + 2) f = foldEnd { f' with left := 1 } := by
  have hfirst : foldRound lookup f = .ok (.inr { f' with left := 1 }) := by
    have hgo : ¬ (f.more = false ∨ LIBINJECTION_SQLI_MAX_TOKENS ≤ f.left) := by
      rw [h.more, h.left]
      decide
    have hheld : sizeSub f'.pos f'.left = .ok 1 := by
      rw [hpos, hleft]
      rfl
    have hfew : f.pos < 5 := by
      rw [h.pos]
      decide
    unfold foldRound
    rw [foldFive_few hfew, ok_bind, if_neg hgo, hfetch, ok_bind, hheld, ok_bind, if_pos (by decide),
      hpos]
  have hlast : foldRound lookup { f' with left := 1 } = Sum.inl <$> foldEnd { f' with left := 1 } := by
    have hfew : Folding.pos { f' with left := 1 } < 5 := by
      dsimp only
      omega
    unfold foldRound
    rw [foldFive_few hfew, ok_bind, if_pos (.inl hmore)]
  rw [rounds_again hfirst, rounds, hlast]
  cases foldEnd { f' with left := 1 } with
  | error e => rfl
  | ok r => rfl

/-- The tokens in front of an expression. -/
def Skips (t : stoken_t) : Prop :=
  t.type = TYPE_COMMENT ∨ t.type = TYPE_LEFTPARENS ∨ t.type = TYPE_SQLTYPE ∨ st_is_unary_op t

/-- The first loop of the fold leaves with a token that is kept. -/
theorem fold_first (hcall : libinjection_sqli_tokenize lookup { sf with current := 0 } =
    .ok (true, sf₁)) (hkeep : ¬ Skips sf₁.cur) : libinjection_sqli_fold lookup sf =
      rounds .diverges (foldRound lookup) (foldRounds sf₁.slen) ⟨sf₁, st_clear, 1, 0, true⟩ := by
  have hskip : skipRound lookup { sf with current := 0 } = .ok (.inl (true, sf₁)) := by
    unfold skipRound
    rw [hcall, ok_bind]
    exact if_neg fun h => hkeep h.2
  have hpoint : pointCurrent sf 0 = .ok { sf with current := 0 } := rfl
  unfold libinjection_sqli_fold
  rw [hpoint, ok_bind, rounds_leave hskip, ok_bind]
  exact if_pos rfl

theorem foldRounds_eq (slen : ℕ) : ∃ n, foldRounds slen = n + 2 :=
  ⟨3332 * (slen + 2) - 2, by unfold foldRounds; omega⟩

/-- An input that is a single token. -/
theorem fold_single (hcall : libinjection_sqli_tokenize lookup { sf with current := 0 } =
    .ok (true, sf₁)) (hkeep : ¬ Skips sf₁.cur) (hfirst : sf₁.current = 0)
    (hend : sf₁.pos = sf₁.slen) : ∃ sf₂, libinjection_sqli_fold lookup sf = .ok (1, sf₂) ∧
      sf₂.tokenvec 0 = sf₁.cur := by
  have hstart : First ⟨sf₁, st_clear, 1, 0, true⟩ := ⟨rfl, rfl, rfl⟩
  obtain ⟨sf₂, hex, hfetch⟩ := @fetch_end lookup _ hstart hend
  obtain ⟨n, hn⟩ := foldRounds_eq sf₁.slen
  have hrun := foldRounds_first hstart hfetch rfl rfl rfl n
  refine ⟨sf₂, ?_, ?_⟩
  · rw [fold_first hcall hkeep, hn, hrun]
    rfl
  · rw [sfilter.cur, hfirst]
    exact hex.frame.tokenvec 0 (by simp)

/-- The fingerprint of one or two tokens, none of them evil, is their types. -/
theorem fingerprint_plain (hfold : libinjection_sqli_fold lookup
    (libinjection_sqli_reset sf flags) = .ok (n, sf₁)) (hn : n ≤ 2)
    (hplain : ∀ c ∈ sf₁.firstTypes n, c ≠ CHAR_NULL ∧ c ≠ TYPE_EVIL) :
    ∃ fingerprint, libinjection_sqli_fingerprint lookup sf flags =
      .ok { sf₁ with fingerprint := fingerprint } ∧ cstr fingerprint = sf₁.firstTypes n := by
  have hback : backtickComment sf₁ n = .ok sf₁ := if_neg (not_lt.mpr hn)
  have hprint : cstr (sf₁.firstTypes n ++ CHAR_NULL :: sf₁.fingerprint.drop (n + 1)) =
      sf₁.firstTypes n := by
    rw [cstr_append fun c hc => (hplain c hc).1, cstr_zero, List.append_nil]
  have hevil : ¬ strchr (sf₁.firstTypes n ++ CHAR_NULL :: sf₁.fingerprint.drop (n + 1))
      TYPE_EVIL = true := by
    rw [strchr, hprint]
    simpa using fun hin => (hplain _ hin).2 rfl
  unfold libinjection_sqli_fingerprint
  rw [hfold, ok_bind]
  dsimp only
  rw [hback, ok_bind, writeFingerprint_ok (by omega), ok_bind]
  exact ⟨_, if_neg hevil, hprint⟩

/-- A context whose fingerprint is empty or not in the table is not positive. -/
theorem not_positive_of_print {input : List UInt8} (hprint : libinjection_sqli_fingerprint
    (is_keyword sql_keywords) (libinjection_sqli_init input 0) flags = .ok sf')
    (hlisted : sf'.print = [] ∨ ¬ sql_keywords.Lists sf'.print) : ¬ Positive sql_keywords input flags := by
  intro hpos
  obtain ⟨sf₂, hcontext⟩ := hpos
  obtain ⟨r, hr, -, hhit⟩ := @checkContext_spec sql_keywords (libinjection_sqli_init input 0) flags
  obtain rfl : (true, sf₂) = r := Except.ok.inj (hcontext.symm.trans hr)
  unfold context checkContext at hcontext
  rw [hprint, ok_bind] at hcontext
  obtain ⟨hit, -, hsame⟩ := bind_ok hcontext
  obtain ⟨-, rfl⟩ := Prod.mk.inj (Except.ok.inj hsame)
  obtain ⟨hne, hlist⟩ := hhit rfl
  exact hlisted.elim hne (absurd hlist)

/-- An input that never closes the quote it is put into is one string. -/
theorem tokenize_unclosed (hpos : sf.pos = 0) (hne : sf.s ≠ [])
    (hflag : hasFlag sf.flags (FLAG_QUOTE_SINGLE ||| FLAG_QUOTE_DOUBLE))
    (hopen : ¬ ∃ body rest, Quoted (flag2delim sf.flags) sf.s body rest) :
    ∃ sf', libinjection_sqli_tokenize lookup sf = .ok (true, sf') ∧ sf'.pos = sf'.slen ∧
      sf'.current = sf.current ∧ sf'.cur.type = TYPE_STRING := by
  have hdelim : flag2delim sf.flags ≠ 92 := by
    unfold flag2delim
    split_ifs <;> decide
  have hslen : sf.slen ≠ 0 := fun hzero => hne (List.length_eq_zero_iff.mp hzero)
  have hclosing : closing (flag2delim sf.flags) false (sf.s.drop (0 + 0)) = none :=
    closing_eq_none hdelim hopen
  have hclear : (sf.setCurrent st_clear).cur.Cleared := by
    rw [cur_setCurrent]
    rfl
  have hcore := parse_string_core_eq hdelim (Nat.zero_le sf.s.length) hclear hclosing.symm
  unfold libinjection_sqli_tokenize
  rw [if_neg hslen]
  dsimp only
  rw [if_pos ⟨hpos, hflag⟩]
  have hflags : (sf.setCurrent st_clear).flags = sf.flags := rfl
  rw [s_setCurrent, hflags, hcore, ok_bind]
  exact ⟨_, rfl, rfl, rfl, congrArg stoken_t.type (cur_setCurrent (sf.setCurrent st_clear) _)⟩

/-- An input that never closes the quote it is put into is not held to be an injection in
the context of that quote, unless the table lists a lone string. -/
theorem unclosed_not_positive (hlisted : ¬ sql_keywords.Lists [TYPE_STRING])
    {input : List UInt8} (hflag : hasFlag flags (FLAG_QUOTE_SINGLE ||| FLAG_QUOTE_DOUBLE))
    (hopen : ¬ ∃ body rest, Quoted (flag2delim flags) input body rest) :
    ¬ Positive sql_keywords input flags := by
  rcases eq_or_ne input [] with rfl | hne
  · -- no token at all
    exact not_positive_of_print rfl (.inl rfl)
  have hflags : (libinjection_sqli_reset (libinjection_sqli_init input 0) flags).flags = flags :=
    if_neg fun hzero => hflag (by rw [hzero, Nat.zero_and])
  rw [← hflags] at hflag hopen
  obtain ⟨sf₁, hcall, hend, hfirst, htype⟩ := @tokenize_unclosed (is_keyword sql_keywords)
    (libinjection_sqli_reset (libinjection_sqli_init input 0) flags) rfl hne hflag hopen
  have hkeep : ¬ Skips sf₁.cur := by
    unfold Skips st_is_unary_op
    simp [htype]
  obtain ⟨sf₂, hfold, hcell⟩ := @fold_single _
    (libinjection_sqli_reset (libinjection_sqli_init input 0) flags) _ hcall hkeep hfirst hend
  have htypes : sf₂.firstTypes 1 = [TYPE_STRING] := by
    rw [← htype, ← hcell]
    rfl
  have hplain : ∀ c ∈ sf₂.firstTypes 1, c ≠ CHAR_NULL ∧ c ≠ TYPE_EVIL := by
    rw [htypes]
    intro c hc
    obtain rfl := List.mem_singleton.mp hc
    decide
  obtain ⟨fingerprint, hprint, heq⟩ := fingerprint_plain hfold (by decide) hplain
  apply not_positive_of_print hprint
  right
  rwa [sfilter.print, heq, htypes]

/-- A string body is not closed by any of its bytes. -/
theorem Body.closing_none {delim : UInt8} {body : List UInt8} (h : Body delim body)
    (hdelim : delim ≠ 92) : closing delim false body = none := by
  induction h with
  | nil => rfl
  | @byte c body hc h92 _ ih =>
    have hplain : (c = 92 && !false) = false := by simp [h92]
    rw [closing_other hc, hplain, ih, Option.map_none]
  | @escaped c body _ ih =>
    have hslash : ((92 : UInt8) = 92 && !false) = true := rfl
    rw [closing_other hdelim.symm, hslash, closing_true, ih, Option.map_none, Option.map_none]
  | doubled _ ih =>
    rw [closing, if_pos rfl, if_neg (by decide), if_pos rfl, ih, Option.map_none]

theorem Body.not_quoted {delim : UInt8} {body : List UInt8} (h : Body delim body)
    (hdelim : delim ≠ 92) : ¬ ∃ text rest, Quoted delim body text rest := by
  intro hquoted
  obtain ⟨text, rest, hquoted⟩ := hquoted
  have hclose := hquoted.closing_eq hdelim
  rw [h.closing_none hdelim] at hclose
  exact absurd hclose (by simp)

/-- A text that is escaped for the quote it is put into, in either way, is not held to be an
injection in a context of that quote. -/
theorem escaped_text_not_positive {sql_keywords : KeywordTable}
    (hlisted : ¬ sql_keywords.Lists [TYPE_STRING]) (text : List UInt8) {flags : ℕ}
    (hflag : hasFlag flags (FLAG_QUOTE_SINGLE ||| FLAG_QUOTE_DOUBLE)) :
    ¬ Positive sql_keywords (slashQuote (flag2delim flags) text) flags ∧
      ((∀ c ∈ text, c ≠ 92) →
        ¬ Positive sql_keywords (doubleQuote (flag2delim flags) text) flags) := by
  have hdelim : flag2delim flags ≠ 92 := by
    unfold flag2delim
    split_ifs <;> decide
  constructor
  · exact unclosed_not_positive hlisted hflag ((body_slashQuote _ text).not_quoted hdelim)
  · intro h92
    exact unclosed_not_positive hlisted hflag ((body_doubleQuote h92).not_quoted hdelim)

/-- `it's`, in single quotes. -/
theorem escaped_text_not_positive_quote :
    ¬ Positive fewKeywords (ascii "it\\'s") (FLAG_QUOTE_SINGLE ||| FLAG_SQL_ANSI) ∧
      ¬ Positive fewKeywords (ascii "it''s") (FLAG_QUOTE_SINGLE ||| FLAG_SQL_ANSI) := by
  have hboth := @escaped_text_not_positive fewKeywords
    (by unfold KeywordTable.Lists; decide +kernel) (ascii "it's")
    (FLAG_QUOTE_SINGLE ||| FLAG_SQL_ANSI) (by decide)
  exact ⟨hboth.1, hboth.2 (by decide +kernel)⟩

end OctopusWaf.Libinjection
