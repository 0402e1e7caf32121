import OctopusWaf.SqliStrings

/-! What every parser does: it completes, moves forward within the input, changes nothing
but the current token and two counters, and the token is a piece of what was passed. -/
namespace OctopusWaf.Libinjection
open CMachine CString

/-- A token whose text is cut from the bytes `a ≤ i < b` of the input; a comment starts at
`a`, and at a slash or dash it takes two bytes. -/
structure Scanned (s : List UInt8) (a b : ℕ) (t : stoken_t) : Prop where
  typed : t.type ≠ CHAR_NULL
  short : t.len < 32
  starts : a ≤ t.pos
  ends : t.pos + t.len ≤ b
  inside : b ≤ s.length
  val_eq : t.val = (s.drop t.pos).take t.len ++
    List.replicate (32 - t.len) 0
  comment : t.type = TYPE_COMMENT →
    t.pos = a ∧ (readAt s a = chr '/' ∨ readAt s a = chr '-' → a + 2 ≤ b)

/-- What a parser leaves alone. -/
structure Frame (sf sf' : sfilter) : Prop where
  s : sf'.s = sf.s
  flags : sf'.flags = sf.flags
  current : sf'.current = sf.current
  tokenvec : ∀ i, i ≠ sf.current → sf'.tokenvec i = sf.tokenvec i
  fingerprint : sf'.fingerprint = sf.fingerprint
  folds : sf'.stats_folds = sf.stats_folds
  tokens : sf'.stats_tokens = sf.stats_tokens

/-- A token has been read. -/
structure Reads (sf : sfilter) (r : Parsed) : Prop where
  frame : Frame sf r.2
  progress : sf.pos < r.1
  token : Scanned sf.s sf.pos r.1 r.2.cur

theorem Frame.refl (sf : sfilter) : Frame sf sf := ⟨rfl, rfl, rfl, fun _ _ => rfl, rfl, rfl, rfl⟩

theorem Frame.trans {sf sf' sf'' : sfilter} (h : Frame sf sf') (h' : Frame sf' sf'') :
    Frame sf sf'' where
  s := h'.s.trans h.s
  flags := h'.flags.trans h.flags
  current := h'.current.trans h.current
  tokenvec i hi := (h'.tokenvec i (h.current ▸ hi)).trans (h.tokenvec i hi)
  fingerprint := h'.fingerprint.trans h.fingerprint
  folds := h'.folds.trans h.folds
  tokens := h'.tokens.trans h.tokens

theorem frame_setCurrent (sf : sfilter) (t : stoken_t) : Frame sf (sf.setCurrent t) :=
  ⟨rfl, rfl, rfl, fun _ hi => Function.update_of_ne hi _ _, rfl, rfl, rfl⟩

/-- The two counters and the position are no part of the frame. -/
theorem frame_counters (sf : sfilter) (pos ddx hash : ℕ) : Frame sf { sf with
    pos := pos, stats_comment_ddx := ddx, stats_comment_hash := hash } :=
  ⟨rfl, rfl, rfl, fun _ _ => rfl, rfl, rfl, rfl⟩

theorem scanned_assign {s : List UInt8} {a b pos len : ℕ} {stype : UInt8} {t : stoken_t}
    (htype : stype ≠ CHAR_NULL) (ha : a ≤ pos) (hb : pos + len ≤ b) (hs : b ≤ s.length)
    (hcomment : stype = TYPE_COMMENT →
      pos = a ∧ (readAt s a = chr '/' ∨ readAt s a = chr '-' → a + 2 ≤ b))
    (ht : t.type = stype ∧ t.pos = pos ∧ t.len = min len 31 ∧
      t.val = (s.drop pos).take (min len 31) ++ List.replicate (32 - min len 31) 0) :
    Scanned s a b t := by
  obtain ⟨htt, htp, htl, htv⟩ := ht
  constructor
  · rwa [htt]
  · rw [htl]
    omega
  · rwa [htp]
  · rw [htp, htl]
    omega
  · exact hs
  · rw [htv, htp, htl]
  · rwa [htt, htp]

section Parsers

variable {sf₀ sf : sfilter} {lookup : ptr_lookup_fn}

/-- `st_assign` on the current token, with a piece of the input that is passed. -/
theorem assignCurrent_reads (hf : Frame sf₀ sf) (hc : sf.cur.Cleared) {stype : UInt8}
    {pos len next : ℕ} (htype : stype ≠ CHAR_NULL) (ha : sf₀.pos ≤ pos) (hb : pos + len ≤ next)
    (hp : sf₀.pos < next) (hs : next ≤ sf₀.s.length)
    (hcomment : stype = TYPE_COMMENT → pos = sf₀.pos ∧
      (readAt sf₀.s sf₀.pos = chr '/' ∨ readAt sf₀.s sf₀.pos = chr '-' → sf₀.pos + 2 ≤ next)) :
    Returns (assignCurrent sf stype pos len (sf₀.s.drop pos) next) (Reads sf₀) := by
  have hlen : len ≤ (sf₀.s.drop pos).length := by
    rw [List.length_drop]
    omega
  rw [assignCurrent, st_assign_cleared hc stype hlen, ok_bind, returns_ok]
  refine ⟨hf.trans (frame_setCurrent _ _), hp, ?_⟩
  rw [cur_setCurrent]
  exact scanned_assign htype ha hb hs hcomment ⟨rfl, rfl, rfl, rfl⟩

theorem assignChar_reads (hf : Frame sf₀ sf) (hc : sf.cur.Cleared) {stype value : UInt8}
    {pos next : ℕ} (htype : stype ≠ CHAR_NULL) (ha : sf₀.pos ≤ pos) (hb : pos < next)
    (hs : next ≤ sf₀.s.length) (hvalue : value = readAt sf₀.s pos)
    (hcomment : stype ≠ TYPE_COMMENT ∨ stype = readAt sf₀.s sf₀.pos ∧ pos = sf₀.pos) :
    Reads sf₀ (assignChar sf stype pos value next) := by
  have hpos : pos < sf₀.s.length := by omega
  have hval : value :: CHAR_NULL :: sf.cur.val.drop 2 =
      (sf₀.s.drop pos).take 1 ++ List.replicate (32 - 1) 0 := by
    rw [hc, List.drop_eq_getElem_cons hpos, hvalue, readAt, List.getD_eq_getElem?_getD,
      List.getElem?_eq_getElem hpos]
    rfl
  have hlen : (st_assign_char sf.cur stype pos value).len = min 1 31 := rfl
  refine ⟨hf.trans (frame_setCurrent _ _), by dsimp [assignChar]; omega, ?_⟩
  rw [assignChar, cur_setCurrent]
  refine scanned_assign htype ha (by omega) hs (fun h => ?_)
    ⟨rfl, rfl, hlen, hval⟩
  rcases hcomment with hne | ⟨heq, hpos⟩
  · exact absurd h hne
  · rw [← heq, h]
    exact ⟨hpos, fun h => by simp at h⟩

theorem parse_operator1_reads (hc : sf.cur.Cleared) (h : sf.pos < sf.s.length) :
    Returns (parse_operator1 sf) (Reads sf) := by
  rw [parse_operator1, readInput_ok h, ok_bind, returns_ok]
  exact assignChar_reads (.refl sf) hc (by decide) le_rfl (by omega) h rfl (.inl (by decide))

theorem parse_other_reads (hc : sf.cur.Cleared) (h : sf.pos < sf.s.length) :
    Returns (parse_other sf) (Reads sf) := by
  rw [parse_other, readInput_ok h, ok_bind, returns_ok]
  exact assignChar_reads (.refl sf) hc (by decide) le_rfl (by omega) h rfl (.inl (by decide))

theorem parse_char_reads (hc : sf.cur.Cleared) (h : sf.pos < sf.s.length)
    (hchar : readAt sf.s sf.pos ≠ 0) : Returns (parse_char sf) (Reads sf) := by
  rw [parse_char, readInput_ok h, ok_bind, returns_ok]
  exact assignChar_reads (.refl sf) hc hchar le_rfl (by omega) h rfl (.inr ⟨rfl, rfl⟩)

theorem parse_eol_comment_reads (hf : Frame sf₀ sf) (hpos : sf.pos = sf₀.pos)
    (hc : sf.cur.Cleared) (h : sf.pos < sf.s.length)
    (hlong : readAt sf₀.s sf₀.pos = chr '/' ∨ readAt sf₀.s sf₀.pos = chr '-' →
      sf₀.pos + 2 ≤ sf₀.s.length) :
    Returns (parse_eol_comment sf) (Reads sf₀) := by
  rw [hf.s, hpos] at h
  rw [parse_eol_comment, hf.s, hpos, tailInput_ok h.le, ok_bind]
  cases hm : memchr (sf₀.s.drop sf₀.pos) 10 with
  | none =>
    have hlen : sf₀.pos + (sf₀.s.drop sf₀.pos).length = sf₀.s.length := by
      rw [List.length_drop]
      omega
    dsimp only
    rw [show sf.slen = sf₀.s.length from congrArg List.length hf.s]
    exact assignCurrent_reads hf hc (by decide) le_rfl hlen.le h le_rfl
      fun _ => ⟨rfl, hlong⟩
  | some n =>
    obtain ⟨hn, hread⟩ := memchr_lt hm
    rw [List.length_drop] at hn
    refine assignCurrent_reads hf hc (by decide) le_rfl (by omega) (by omega) (by omega)
      fun _ => ⟨rfl, fun hslash => ?_⟩
    -- the line end is not the first byte
    rcases Nat.eq_zero_or_pos n with rfl | hpos
    · rw [readAt_drop, Nat.add_zero] at hread
      rw [hread] at hslash
      exact absurd hslash (by decide)
    · omega

theorem parse_hash_reads (hc : sf.cur.Cleared) (h : sf.pos < sf.s.length)
    (hhash : readAt sf.s sf.pos = chr '#') : Returns (parse_hash sf) (Reads sf) := by
  unfold parse_hash
  dsimp only
  refine Returns.ite (fun _ => ?_) fun _ => ?_
  · refine parse_eol_comment_reads (frame_counters sf _ _ _) rfl hc h fun hslash => ?_
    rw [hhash] at hslash
    exact absurd hslash (by decide)
  · rw [returns_ok]
    have hf := frame_counters sf sf.pos sf.stats_comment_ddx (sf.stats_comment_hash + 1)
    refine assignChar_reads hf hc ?_ le_rfl (Nat.lt_succ_self _) h hhash.symm (.inl ?_)
    · decide
    · decide

theorem parse_dash_reads (hc : sf.cur.Cleared) (h : sf.pos < sf.s.length)
    (hdash : readAt sf.s sf.pos = chr '-') : Returns (parse_dash sf) (Reads sf) := by
  -- each guard that holds has seen a second byte
  have hcomment (h2 : sf.pos + 2 ≤ sf.s.length) : Returns (parse_eol_comment sf) (Reads sf) :=
    parse_eol_comment_reads (.refl sf) rfl hc h fun _ => h2
  unfold parse_dash
  dsimp only
  refine (Returns.andAlso (R := fun b => b = true → sf.pos + 2 < sf.s.length)
    (fun h2 => ?_) (by simp)).bind fun ddw hddw => Returns.ite (fun hb => ?_) fun _ => ?_
  · have h2 : sf.pos + 2 < sf.s.length := h2
    rw [readInput_ok (by omega), ok_bind]
    refine Returns.andAlso (fun _ => ?_) (by simp)
    rw [readInput_ok h2, ok_bind, returns_ok]
    exact fun _ => h2
  · exact hcomment (hddw hb).le
  refine (Returns.andAlso (R := fun b => b = true → sf.pos + 2 = sf.s.length)
    (fun h2 => ?_) (by simp)).bind fun eof heof => Returns.ite (fun hb => ?_) fun _ => ?_
  · have h2 : sf.pos + 2 = sf.s.length := h2
    rw [readInput_ok (by omega), ok_bind, returns_ok]
    exact fun _ => h2
  · exact hcomment (heof hb).le
  refine (Returns.andAlso (R := fun b => b = true → sf.pos + 1 < sf.s.length)
    (fun h1 => ?_) (by simp)).bind fun ddx hddx => Returns.ite (fun hb => ?_) fun _ => ?_
  · have h1 : sf.pos + 1 < sf.s.length := h1
    rw [readInput_ok h1, ok_bind, returns_ok]
    exact fun _ => h1
  · exact parse_eol_comment_reads (frame_counters sf _ _ _) rfl hc h fun _ => hddx hb
  · rw [returns_ok]
    exact assignChar_reads (.refl sf) hc (by decide) le_rfl (by omega) h hdash.symm
      (.inl (by decide))

theorem parse_slash_reads (hc : sf.cur.Cleared) (h : sf.pos < sf.s.length) :
    Returns (parse_slash sf) (Reads sf) := by
  unfold parse_slash
  dsimp only
  refine (Returns.orElse (R := fun b => b = false → sf.pos + 2 ≤ sf.s.length) (by simp)
    fun hne => ?_).bind fun op hop => Returns.ite (fun _ => parse_operator1_reads hc h)
    fun hb => ?_
  · have hne : ¬ sf.pos + 1 = sf.s.length := hne
    rw [readInput_ok (by omega), ok_bind, returns_ok]
    exact fun _ => by omega
  have h2 : sf.pos + 2 ≤ sf.s.length := hop (by simpa using hb)
  have hevil : Returns (orElse ((memchr2 (commentInside (sf.s.drop (sf.pos + 2))
      (memchr2 (sf.s.drop (sf.pos + 2)) (chr '*') (chr '/'))) (chr '/') (chr '*')).isSome = true)
      (is_mysql_comment sf.s sf.pos)) fun _ => True := by
    refine Returns.orElse (fun _ => trivial) fun _ => ?_
    refine Returns.andAlso (fun h3 => ?_) fun _ => trivial
    rw [readInput_ok h3, ok_bind, returns_ok]
    trivial
  rw [tailInput_ok h.le, ok_bind, tailInput_ok h2, ok_bind]
  refine hevil.bind fun evil _ => ?_
  -- the comment ends at the end of the input or after its closing mark
  have hclen : ∀ ptr, memchr2 (sf.s.drop (sf.pos + 2)) (chr '*') (chr '/') = ptr →
      2 ≤ ptr.elim (sf.s.drop sf.pos).length (· + 4) ∧
        sf.pos + ptr.elim (sf.s.drop sf.pos).length (· + 4) ≤ sf.s.length := by
    intro ptr hptr
    cases ptr with
    | none =>
      rw [Option.elim_none, List.length_drop]
      omega
    | some n =>
      have hn := (memchr2_lt hptr).1
      rw [List.length_drop] at hn
      rw [Option.elim_some]
      omega
  obtain ⟨hmin, hmax⟩ := hclen _ rfl
  refine assignCurrent_reads (.refl sf) hc ?_ le_rfl le_rfl (by omega) hmax
    fun _ => ⟨rfl, fun _ => by omega⟩
  split_ifs <;> decide

theorem parse_backslash_reads (hc : sf.cur.Cleared) (h : sf.pos < sf.s.length) :
    Returns (parse_backslash sf) (Reads sf) := by
  unfold parse_backslash
  dsimp only
  refine (Returns.andAlso (R := fun b => b = true → sf.pos + 2 ≤ sf.s.length)
    (fun h1 => ?_) (by simp)).bind fun null hnull => Returns.ite (fun hb => ?_) fun _ => ?_
  · rw [readInput_ok h1, ok_bind, returns_ok]
    exact fun _ => h1
  · rw [tailInput_ok h.le, ok_bind]
    exact assignCurrent_reads (.refl sf) hc (by decide) le_rfl le_rfl (by omega) (hnull hb)
      fun _ => ⟨rfl, fun _ => le_rfl⟩
  · rw [readInput_ok h, ok_bind, returns_ok]
    exact assignChar_reads (.refl sf) hc (by decide) le_rfl (by omega) h rfl (.inl (by decide))

theorem parse_operator2_reads (hc : sf.cur.Cleared) (h : sf.pos < sf.s.length) :
    Returns (parse_operator2 lookup sf) (Reads sf) := by
  unfold parse_operator2
  dsimp only
  refine Returns.ite (fun _ => parse_operator1_reads hc h) fun hlt => ?_
  have h2 : sf.pos + 2 ≤ sf.s.length := not_le.mp hlt
  rw [tailInput_ok h.le, ok_bind]
  refine (Returns.andAlso (R := fun b => b = true → sf.pos + 3 ≤ sf.s.length)
    (fun h3 => ?_) (by simp)).bind fun ship hship => Returns.ite (fun hb => ?_) fun _ => ?_
  · have h3 : sf.pos + 2 < sf.s.length := h3
    rw [readInput_ok h, ok_bind, readInput_ok (by omega), ok_bind, readInput_ok h3, ok_bind,
      returns_ok]
    exact fun _ => h3
  · exact assignCurrent_reads (.refl sf) hc (by decide) le_rfl le_rfl (by omega) (hship hb)
      fun _ => ⟨rfl, fun _ => by omega⟩
  rw [blockInput_ok h2, ok_bind]
  refine Returns.ite (fun hch => ?_) fun _ => ?_
  · exact assignCurrent_reads (.refl sf) hc hch le_rfl le_rfl (by omega) h2
      fun _ => ⟨rfl, fun _ => le_rfl⟩
  rw [readInput_ok h, ok_bind]
  refine Returns.ite (fun _ => ?_) fun _ => parse_operator1_reads hc h
  exact assignCurrent_reads (.refl sf) hc (by decide) le_rfl le_rfl (by omega) h
    fun hcom => absurd hcom (by decide)

/-- A quoted string that starts no earlier than the token. -/
theorem stringCurrent_reads (hf : Frame sf₀ sf) (hc : sf.cur.Cleared) {delim : UInt8}
    (hdelim : delim ≠ 92) {offset : ℕ} (ha : sf₀.pos ≤ sf.pos + offset)
    (h : sf.pos + offset ≤ sf₀.s.length) (h₀ : sf₀.pos < sf₀.s.length) :
    Returns (stringCurrent sf delim offset) fun r => Reads sf₀ r ∧ r.2.pos = sf.pos := by
  rw [← hf.s] at h h₀
  rw [stringCurrent, parse_string_core_eq hdelim h hc rfl, ok_bind, returns_ok]
  have hlen : sf.pos + offset + (sf.s.drop (sf.pos + offset)).length = sf.s.length := by
    rw [List.length_drop]
    omega
  have htype : TYPE_STRING ≠ CHAR_NULL := by decide
  have hcom : TYPE_STRING ≠ TYPE_COMMENT := by decide
  refine ⟨⟨hf.trans (frame_setCurrent _ _), ?_, ?_⟩, rfl⟩
  · cases closing delim false (sf.s.drop (sf.pos + offset)) with
    | none => exact h₀
    | some n =>
      dsimp only [Option.elim_some]
      omega
  · dsimp only
    rw [cur_setCurrent, ← hf.s]
    cases hq : closing delim false (sf.s.drop (sf.pos + offset)) with
    | none =>
      rw [Option.elim_none]
      exact scanned_assign htype ha hlen.le le_rfl (fun h => absurd h hcom) ⟨rfl, rfl, rfl, rfl⟩
    | some n =>
      have hn := closing_lt hq
      rw [Option.elim_some]
      exact scanned_assign htype ha (Nat.le_succ _) (by omega) (fun h => absurd h hcom)
        ⟨rfl, rfl, rfl, rfl⟩

theorem parse_string_reads (hf : Frame sf₀ sf) (hc : sf.cur.Cleared)
    (hquote : readAt sf.s sf.pos ≠ 92) (ha : sf₀.pos ≤ sf.pos) (h : sf.pos < sf.s.length) :
    Returns (parse_string sf) (Reads sf₀) := by
  rw [parse_string, readInput_ok h, ok_bind]
  rw [hf.s] at h
  exact (stringCurrent_reads hf hc hquote (by omega) h (by omega)).mono fun _ hr => hr.1

/-- The token that was read may be given another type or other quotes. -/
theorem Reads.retype {r : Parsed} (h : Reads sf₀ r) {t : stoken_t}
    (htype : t.type = r.2.cur.type ∨ t.type ≠ CHAR_NULL ∧ t.type ≠ TYPE_COMMENT)
    (ht : t.pos = r.2.cur.pos ∧ t.len = r.2.cur.len ∧ t.val = r.2.cur.val) :
    Reads sf₀ (r.1, r.2.setCurrent t) := by
  obtain ⟨hpos, hlen, hval⟩ := ht
  refine ⟨h.frame.trans (frame_setCurrent _ _), h.progress, ?_⟩
  dsimp only
  rw [cur_setCurrent]
  refine ⟨?_, ?_, ?_, ?_, h.token.inside, ?_, fun hc => ?_⟩
  · rcases htype with heq | hne
    · rw [heq]
      exact h.token.typed
    · exact hne.1
  · rw [hlen]
    exact h.token.short
  · rw [hpos]
    exact h.token.starts
  · rw [hpos, hlen]
    exact h.token.ends
  · rw [hpos, hlen, hval]
    exact h.token.val_eq
  · rcases htype with heq | hne
    · rw [hpos]
      exact h.token.comment (heq ▸ hc)
    · exact absurd hc hne.2

theorem parse_tick_reads (hf : Frame sf₀ sf) (hc : sf.cur.Cleared) (ha : sf₀.pos ≤ sf.pos)
    (h : sf.pos < sf.s.length) : Returns (parse_tick lookup sf) (Reads sf₀) := by
  rw [hf.s] at h
  refine (stringCurrent_reads hf hc (by decide) (by omega) h (by omega)).bind fun r hr => ?_
  obtain ⟨next, sf'⟩ := r
  rw [returns_ok]
  refine hr.1.retype (.inr ?_) ⟨rfl, rfl, rfl⟩
  dsimp only
  split_ifs <;> decide

/-- The bytes at which the word parsers are called. -/
def WordStart (c : UInt8) : Prop := strchr wordStops c = false ∧ c ≠ chr '.' ∧ c ≠ CHAR_TICK

instance (c : UInt8) : Decidable (WordStart c) := by
  unfold WordStart
  infer_instance

theorem WordStart.not_operator {c : UInt8} (h : WordStart c) : ¬ (c = chr '/' ∨ c = chr '-') := by
  intro hc
  rcases hc with rfl | rfl
  · exact absurd h.1 (by decide)
  · exact absurd h.1 (by decide)

/-- A keyword in front of a dot or back tick is not empty and ends inside the word. -/
theorem splitWord_bounds {val : List UInt8} {len i : ℕ} {ch : UInt8}
    (h : splitWord lookup val len = some (i, ch)) :
    i < len ∧ (readAt val i = chr '.' ∨ readAt val i = CHAR_TICK) ∧ ch ≠ TYPE_NONE := by
  obtain ⟨j, hj, hf⟩ := List.exists_of_findSome?_eq_some h
  dsimp only at hf
  split_ifs at hf with hd hch
  obtain ⟨rfl, rfl⟩ := Prod.mk.inj (Option.some.inj hf)
  exact ⟨List.mem_range.mp hj, hd, hch.1⟩

theorem strlencspn_pos {w reject : List UInt8} (hw : 0 < w.length)
    (h : strchr reject (readAt w 0) = false) : 0 < strlencspn w reject := by
  cases w with
  | nil => simp at hw
  | cons c w =>
    have hc : strchr reject c = false := h
    simp [strlencspn, hc]

theorem parse_word_reads (hc : sf.cur.Cleared) (h : sf.pos < sf.s.length)
    (hword : WordStart (readAt sf.s sf.pos)) : Returns (parse_word lookup sf) (Reads sf) := by
  have hread : readAt (sf.s.drop sf.pos) 0 = readAt sf.s sf.pos := by rw [readAt_drop, Nat.add_zero]
  have hlen := List.length_drop (i := sf.pos) (l := sf.s)
  have hpos : 0 < strlencspn (sf.s.drop sf.pos) wordStops := by
    refine strlencspn_pos (by omega) ?_
    rw [hread]
    exact hword.1
  have hle : strlencspn (sf.s.drop sf.pos) wordStops ≤ (sf.s.drop sf.pos).length :=
    (List.takeWhile_prefix _).length_le
  unfold parse_word
  dsimp only
  rw [tailInput_ok h.le, ok_bind, st_assign_cleared hc _ hle, ok_bind]
  generalize strlencspn (sf.s.drop sf.pos) wordStops = wlen at hpos hle
  dsimp only
  have hcomment (next : ℕ) : readAt sf.s sf.pos = chr '/' ∨ readAt sf.s sf.pos = chr '-' →
      sf.pos + 2 ≤ next := fun hop => absurd hop hword.not_operator
  cases hsplit : splitWord lookup ((sf.s.drop sf.pos).take (min wlen 31) ++
      List.replicate (32 - min wlen 31) 0) (min wlen 31) with
  | none =>
    dsimp only
    rw [returns_ok]
    refine ⟨frame_setCurrent _ _, by dsimp only; omega, ?_⟩
    rw [cur_setCurrent]
    refine scanned_assign ?_ le_rfl le_rfl (by dsimp only; omega) (fun _ => ⟨rfl, hcomment _⟩)
      ⟨rfl, rfl, rfl, rfl⟩
    have hbare : TYPE_BAREWORD ≠ CHAR_NULL := by decide
    split_ifs with _ hch
    · exact hbare
    · exact hch
    · exact hbare
  | some r =>
    obtain ⟨i, ch⟩ := r
    obtain ⟨hi, hdelim, hch⟩ := splitWord_bounds hsplit
    -- the word does not start with the dot or back tick
    have hi0 : i ≠ 0 := by
      rintro rfl
      have hfirst : readAt ((sf.s.drop sf.pos).take (min wlen 31) ++
          List.replicate (32 - min wlen 31) 0) 0 = readAt sf.s sf.pos := by
        rw [← hread, readAt, readAt, List.getD_eq_getElem?_getD, List.getD_eq_getElem?_getD,
          List.getElem?_append_left (by rw [List.length_take]; omega),
          List.getElem?_take_of_lt hi]
      rw [hfirst] at hdelim
      rcases hdelim with hdot | htick
      · exact hword.2.1 hdot
      · exact hword.2.2 htick
    dsimp only
    rw [st_assign_cleared (rfl : st_clear.Cleared) ch (show i ≤ (sf.s.drop sf.pos).length by omega),
      ok_bind, returns_ok]
    refine ⟨frame_setCurrent _ _, by dsimp only; omega, ?_⟩
    rw [cur_setCurrent]
    exact scanned_assign hch le_rfl le_rfl (by dsimp only; omega) (fun _ => ⟨rfl, hcomment _⟩)
      ⟨rfl, rfl, rfl, rfl⟩

theorem parse_estring_reads (hc : sf.cur.Cleared) (h : sf.pos < sf.s.length)
    (hword : WordStart (readAt sf.s sf.pos)) :
    Returns (parse_estring lookup sf) (Reads sf) := by
  unfold parse_estring
  refine (Returns.orElse (R := fun b => b = false → sf.pos + 2 < sf.s.length) (by simp)
    fun hlt => ?_).bind fun word hb => Returns.ite (fun _ => parse_word_reads hc h hword)
    fun hnot => ?_
  · have hlt : sf.pos + 2 < sf.s.length := not_le.mp hlt
    rw [readInput_ok (by omega), ok_bind, returns_ok]
    exact fun _ => hlt
  · have hlt := hb (by simpa using hnot)
    exact (stringCurrent_reads (.refl sf) hc (by decide) (by omega) hlt.le h).mono
      fun _ hr => hr.1

theorem parse_ustring_reads (hc : sf.cur.Cleared) (h : sf.pos < sf.s.length)
    (hword : WordStart (readAt sf.s sf.pos)) :
    Returns (parse_ustring lookup sf) (Reads sf) := by
  unfold parse_ustring
  refine (Returns.andAlso (R := fun b => b = true → sf.pos + 2 < sf.s.length ∧
      readAt sf.s (sf.pos + 2) = CHAR_SINGLE) (fun hlt => ?_) (by simp)).bind
    fun quoted hb => Returns.ite (fun hq => ?_) fun _ => parse_word_reads hc h hword
  · have hlt : sf.pos + 2 < sf.s.length := hlt
    rw [readInput_ok (by omega), ok_bind, readInput_ok hlt, ok_bind, returns_ok]
    exact fun hand => ⟨hlt, (of_decide_eq_true hand).2⟩
  · obtain ⟨hlt, hsingle⟩ := hb hq
    have hf := frame_counters sf (sf.pos + 2) sf.stats_comment_ddx sf.stats_comment_hash
    refine (parse_string_reads hf hc (by rw [hsingle]; decide) (by dsimp only; omega) hlt).bind
      fun r hr => ?_
    obtain ⟨next, sf'⟩ := r
    rw [returns_ok]
    refine hr.retype (.inl ?_) ?_
    · split_ifs <;> rfl
    · split_ifs <;> exact ⟨rfl, rfl, rfl⟩

/-- A string up to a closing mark that lies in the input. -/
theorem markedString_reads (hc : sf.cur.Cleared) {mark : UInt8} {start size : ℕ}
    (ha : sf.pos < start) (hs : start ≤ sf.s.length) {strend : Option ℕ}
    (hend : ∀ n, strend = some n → start + n + size ≤ sf.s.length) :
    Returns (markedString sf mark start (sf.s.drop start) size strend) (Reads sf) := by
  have hlen := List.length_drop (i := start) (l := sf.s)
  have hle : strend.getD (sf.s.drop start).length ≤ (sf.s.drop start).length := by
    cases strend with
    | none => exact le_rfl
    | some n =>
      have := hend n rfl
      rw [Option.getD_some]
      omega
  have htype : TYPE_STRING ≠ CHAR_NULL := by decide
  have hcom : TYPE_STRING ≠ TYPE_COMMENT := by decide
  rw [markedString, st_assign_cleared hc _ hle, ok_bind, returns_ok]
  cases strend with
  | none =>
    refine ⟨frame_setCurrent _ _, by dsimp [sfilter.slen]; omega, ?_⟩
    rw [cur_setCurrent]
    refine scanned_assign htype ha.le ?_ le_rfl (fun h => absurd h hcom) ⟨rfl, rfl, rfl, rfl⟩
    dsimp [sfilter.slen]
    omega
  | some n =>
    have hn := hend n rfl
    refine ⟨frame_setCurrent _ _, by dsimp only [Option.elim_some]; omega, ?_⟩
    rw [cur_setCurrent]
    exact scanned_assign htype ha.le (Nat.le_add_right _ size) hn (fun h => absurd h hcom)
      ⟨rfl, rfl, rfl, rfl⟩

theorem opensQstring_bounds (s : List UInt8) (pos : ℕ) :
    Returns (opensQstring s pos) fun b => b = true → pos + 2 < s.length := by
  unfold opensQstring
  refine Returns.andAlso (fun h => ?_) (by simp)
  rw [readInput_ok h, ok_bind]
  refine Returns.andAlso (fun h2 => ?_) (by simp)
  rw [readInput_ok (by omega), ok_bind, readInput_ok h2.2, ok_bind, returns_ok]
  exact fun _ => h2.2

theorem parse_qstring_core_reads (hc : sf.cur.Cleared) (h : sf.pos < sf.s.length)
    (hword : WordStart (readAt sf.s sf.pos)) (offset : ℕ) :
    Returns (parse_qstring_core lookup sf offset) (Reads sf) := by
  unfold parse_qstring_core
  refine (opensQstring_bounds _ _).bind fun q hq => Returns.ite (fun hb => ?_)
    fun _ => parse_word_reads hc h hword
  have h2 := hq hb
  rw [readInput_ok h2, ok_bind, tailInput_ok h2, ok_bind]
  refine markedString_reads hc (by omega) h2 fun n hn => ?_
  have hlt := (memchr2_lt hn).1
  rw [List.length_drop] at hlt
  omega

theorem parse_nqstring_reads (hc : sf.cur.Cleared) (h : sf.pos < sf.s.length)
    (hword : WordStart (readAt sf.s sf.pos)) :
    Returns (parse_nqstring lookup sf) (Reads sf) := by
  unfold parse_nqstring
  refine (Returns.andAlso (R := fun _ => True) (fun hlt => ?_) fun _ => trivial).bind
    fun quoted _ => Returns.ite (fun _ => parse_estring_reads hc h hword)
      fun _ => parse_qstring_core_reads hc h hword 1
  have hlt : sf.pos + 2 < sf.s.length := hlt
  rw [readInput_ok (by omega), ok_bind, returns_ok]
  trivial

theorem strlenspn_le (w accept : List UInt8) : strlenspn w accept ≤ w.length :=
  (List.takeWhile_prefix _).length_le

theorem strlencspn_le (w reject : List UInt8) : strlencspn w reject ≤ w.length :=
  (List.takeWhile_prefix _).length_le

theorem parseDigitString_reads (hc : sf.cur.Cleared) (h : sf.pos < sf.s.length)
    (hword : WordStart (readAt sf.s sf.pos)) (digits : List UInt8) :
    Returns (parseDigitString lookup digits sf) (Reads sf) := by
  unfold parseDigitString
  dsimp only
  refine (Returns.orElse (R := fun b => b = false → sf.pos + 2 < sf.s.length) (by simp)
    fun hlt => ?_).bind fun word hb => Returns.ite (fun _ => parse_word_reads hc h hword)
    fun hnot => ?_
  · have hlt : sf.pos + 2 < sf.s.length := not_le.mp hlt
    rw [readInput_ok (by omega), ok_bind, returns_ok]
    exact fun _ => hlt
  have h2 := hb (by simpa using hnot)
  rw [tailInput_ok h2.le, ok_bind]
  generalize strlenspn (sf.s.drop (sf.pos + 2)) digits = wlen
  refine (Returns.orElse (R := fun b => b = false → sf.pos + 2 + wlen < sf.s.length) (by simp)
    fun hlt => ?_).bind fun open_ hb => Returns.ite (fun _ => parse_word_reads hc h hword)
    fun hnot => ?_
  · have hlt : sf.pos + 2 + wlen < sf.s.length := not_le.mp hlt
    rw [readInput_ok hlt, ok_bind, returns_ok]
    exact fun _ => hlt
  have h3 := hb (by simpa using hnot)
  rw [tailInput_ok h.le, ok_bind]
  exact assignCurrent_reads (.refl sf) hc (by decide) le_rfl (by omega) (by omega) h3
    fun hcom => absurd hcom (by decide)

theorem parse_bword_reads (hc : sf.cur.Cleared) (h : sf.pos < sf.s.length) :
    Returns (parse_bword sf) (Reads sf) := by
  have hlen := List.length_drop (i := sf.pos) (l := sf.s)
  have hcom : TYPE_BAREWORD ≠ TYPE_COMMENT := by decide
  rw [parse_bword, tailInput_ok h.le, ok_bind]
  cases hm : memchr (sf.s.drop sf.pos) (chr ']') with
  | none =>
    exact assignCurrent_reads (.refl sf) hc (by decide) le_rfl (by dsimp only [sfilter.slen]; omega)
      h le_rfl fun h => absurd h hcom
  | some n =>
    have hn := (memchr_lt hm).1
    exact assignCurrent_reads (.refl sf) hc (by decide) le_rfl (by omega) (by omega) (by omega)
      fun h => absurd h hcom

theorem parse_var_reads (hc : sf.cur.Cleared) (h : sf.pos < sf.s.length) :
    Returns (parse_var lookup sf) (Reads sf) := by
  unfold parse_var
  dsimp only
  refine (Returns.andAlso (R := fun b => b = true → sf.pos + 1 < sf.s.length)
    (fun h1 => ?_) (by simp)).bind fun double hdouble => ?_
  · rw [readInput_ok h1, ok_bind, returns_ok]
    exact fun _ => h1
  have hpos : sf.pos < (if double = true then sf.pos + 2 else sf.pos + 1) ∧
      (if double = true then sf.pos + 2 else sf.pos + 1) ≤ sf.s.length := by
    split_ifs with hd
    · have := hdouble hd
      omega
    · omega
  generalize (if double = true then sf.pos + 2 else sf.pos + 1) = pos at hpos
  generalize (if double = true then 2 else 1) = count
  rw [s_setCurrent, tailInput_ok hpos.2, ok_bind]
  have hf := (frame_setCurrent sf { sf.cur with count := count })
  have hc' : (sf.setCurrent { sf.cur with count := count }).cur.Cleared := by
    rw [cur_setCurrent]
    exact hc
  -- a quote is looked for only where a byte is left
  have hbyte (q : UInt8) (hq : (sf.s.drop pos).head? = some q) :
      pos < sf.s.length ∧ readAt sf.s pos = q := by
    rw [List.head?_drop] at hq
    obtain ⟨hlt, hget⟩ := List.getElem?_eq_some_iff.mp hq
    exact ⟨hlt, by rw [readAt, List.getD_eq_getElem?_getD, hq, Option.getD_some]⟩
  have hmoved := hf.trans (frame_counters _ pos sf.stats_comment_ddx sf.stats_comment_hash)
  have hvar : TYPE_VARIABLE ≠ CHAR_NULL ∧ TYPE_VARIABLE ≠ TYPE_COMMENT := by decide
  refine Returns.ite (fun htick => ?_) fun _ => Returns.ite (fun hquote => ?_) fun _ => ?_
  · refine (parse_tick_reads hmoved hc' hpos.1.le (hbyte _ htick).1).bind fun r hr => ?_
    obtain ⟨next, sf'⟩ := r
    rw [returns_ok]
    exact hr.retype (.inr hvar) ⟨rfl, rfl, rfl⟩
  · have hstring : pos < sf.s.length ∧ readAt sf.s pos ≠ 92 := by
      rcases hquote with hq | hq
      · obtain ⟨hlt, hread⟩ := hbyte _ hq
        exact ⟨hlt, by rw [hread]; decide⟩
      · obtain ⟨hlt, hread⟩ := hbyte _ hq
        exact ⟨hlt, by rw [hread]; decide⟩
    refine (parse_string_reads hmoved hc' hstring.2 hpos.1.le hstring.1).bind fun r hr => ?_
    obtain ⟨next, sf'⟩ := r
    rw [returns_ok]
    exact hr.retype (.inr hvar) ⟨rfl, rfl, rfl⟩
  · have hle := strlencspn_le (sf.s.drop pos) varStops
    rw [List.length_drop] at hle
    exact assignCurrent_reads hf hc' hvar.1 hpos.1.le le_rfl (by omega) (by omega)
      fun h => absurd h hvar.2

theorem dollarTag_reads (hc : sf.cur.Cleared) {size : ℕ} (hsize : 1 < size)
    (h : sf.pos + size ≤ sf.s.length) : Returns (dollarTag sf size) (Reads sf) := by
  have hneedle : ((sf.s.drop sf.pos).take size).length = size := by
    rw [List.length_take, List.length_drop]
    omega
  unfold dollarTag
  dsimp only
  rw [show sf.slen = sf.s.length from rfl, sizeSub_ok h, ok_bind, blockInput_ok (by omega),
    ok_bind, blockInput_ok h, ok_bind]
  refine (my_memmem_spec (by omega)).bind fun strend hstrend => ?_
  rw [tailInput_ok h, ok_bind]
  refine markedString_reads hc (by omega) h fun n hn => ?_
  obtain ⟨m, hm, rfl⟩ := Option.map_eq_some_iff.mp hn
  obtain ⟨hm, hge⟩ := Option.filter_eq_some_iff.mp hm
  obtain ⟨k, hk, rfl⟩ := Option.map_eq_some_iff.mp hm
  have hfound := (hstrend k hk).1
  rw [hneedle, List.length_take, List.length_drop] at hfound
  have hge := of_decide_eq_true hge
  omega

theorem dollarString_reads (hc : sf.cur.Cleared) (h : sf.pos + 1 < sf.s.length)
    (hdollar : readAt sf.s sf.pos = chr '$') :
    Returns (dollarString sf (sf.s.drop (sf.pos + 1))) (Reads sf) := by
  have halone : Reads sf (assignChar sf TYPE_BAREWORD sf.pos (chr '$') (sf.pos + 1)) :=
    assignChar_reads (.refl sf) hc (by decide) le_rfl (by omega) h.le hdollar.symm
      (.inl (by decide))
  have hle := strlenspn_le (sf.s.drop (sf.pos + 1)) letters
  rw [List.length_drop] at hle
  unfold dollarString
  dsimp only
  rw [readInput_ok h, ok_bind]
  refine Returns.ite (fun _ => ?_) fun _ => Returns.ite (fun _ => returns_ok.mpr halone)
    fun hlen => ?_
  · rw [tailInput_ok h, ok_bind]
    refine markedString_reads hc (by omega) h fun n hn => ?_
    have hlt := (memchr2_lt hn).1
    rw [List.length_drop] at hlt
    omega
  generalize strlenspn (sf.s.drop (sf.pos + 1)) letters = xlen at hle hlen
  refine (Returns.orElse (R := fun b => b = false → sf.pos + xlen + 1 < sf.s.length) (by simp)
    fun hne => ?_).bind fun open_ hb => Returns.ite (fun _ => returns_ok.mpr halone)
    fun hnot => ?_
  · have hne : ¬ sf.pos + xlen + 1 = sf.s.length := hne
    rw [readInput_ok (by omega), ok_bind, returns_ok]
    exact fun _ => by omega
  · have hlt := hb (by simpa using hnot)
    exact dollarTag_reads hc (by omega) (by omega)

theorem parse_money_reads (hc : sf.cur.Cleared) (h : sf.pos < sf.s.length)
    (hdollar : readAt sf.s sf.pos = chr '$') :
    Returns (parse_money lookup sf) (Reads sf) := by
  unfold parse_money
  dsimp only
  refine Returns.ite (fun hend => ?_) fun hne => ?_
  · have hend : sf.pos + 1 = sf.s.length := hend
    rw [returns_ok]
    exact assignChar_reads (.refl sf) hc (by decide) le_rfl (by dsimp only [sfilter.slen]; omega)
      le_rfl hdollar.symm (.inl (by decide))
  have hne : ¬ sf.pos + 1 = sf.s.length := hne
  have h1 : sf.pos + 1 < sf.s.length := by omega
  have hle := strlenspn_le (sf.s.drop (sf.pos + 1)) (ascii "0123456789.,")
  rw [List.length_drop] at hle
  rw [tailInput_ok h1.le, ok_bind]
  refine Returns.ite (fun _ => dollarString_reads hc h1 hdollar) fun _ => ?_
  rw [readInput_ok h1, ok_bind]
  refine Returns.ite (fun _ => ?_) fun _ => ?_
  · refine parse_word_reads hc h ?_
    rw [hdollar]
    decide
  · rw [tailInput_ok h.le, ok_bind]
    exact assignCurrent_reads (.refl sf) hc (by decide) le_rfl (by omega) (by omega) (by omega)
      fun hcom => absurd hcom (by decide)

theorem radixDigits_bounds {s : List UInt8} {pos : ℕ} (h : pos < s.length) :
    Returns (radixDigits s pos) fun r => r ≠ none → pos + 2 ≤ s.length := by
  rw [radixDigits, readInput_ok h, ok_bind]
  refine Returns.ite (fun h0 => ?_) fun _ => ?_
  · rw [readInput_ok h0.2, ok_bind, returns_ok]
    exact fun _ => h0.2
  · rw [returns_ok]
    exact fun hne => absurd rfl hne

theorem skipDigits_bounds {s : List UInt8} {pos : ℕ} (h : pos ≤ s.length) :
    Returns (skipDigits s pos) fun r => pos ≤ r ∧ r ≤ s.length ∧
      (pos < s.length → ISDIGIT (readAt s pos) = true → pos < r) := by
  rw [skipDigits, tailInput_ok h, ok_bind, returns_ok]
  have hle := (List.takeWhile_prefix ISDIGIT (l := s.drop pos)).length_le
  rw [List.length_drop] at hle
  refine ⟨by omega, by omega, fun hlt hdigit => ?_⟩
  have hget : readAt s pos = s[pos] := by
    rw [readAt, List.getD_eq_getElem?_getD, List.getElem?_eq_getElem hlt, Option.getD_some]
  rw [hget] at hdigit
  rw [List.drop_eq_getElem_cons hlt, List.takeWhile_cons_of_pos hdigit, List.length_cons]
  omega

theorem numberExponent_bounds {s : List UInt8} {pos : ℕ} (h : pos ≤ s.length) :
    Returns (numberExponent s pos) fun r => pos ≤ r.1 ∧ r.1 ≤ s.length := by
  unfold numberExponent
  refine (Returns.andAlso (R := fun b => b = true → pos < s.length) (fun hlt => ?_)
    (by simp)).bind fun have_e hb => Returns.ite (fun he => ?_) fun _ => ?_
  · rw [readInput_ok hlt, ok_bind, returns_ok]
    exact fun _ => hlt
  · have hlt := hb he
    refine (Returns.andAlso (R := fun b => b = true → pos + 1 < s.length) (fun h1 => ?_)
      (by simp)).bind fun sign hs => ?_
    · rw [readInput_ok h1, ok_bind, returns_ok]
      exact fun _ => h1
    · have hfirst : pos ≤ (if sign = true then pos + 2 else pos + 1) ∧
          (if sign = true then pos + 2 else pos + 1) ≤ s.length := by
        split_ifs with hsign
        · have := hs hsign
          omega
        · omega
      refine (skipDigits_bounds hfirst.2).bind fun stop hstop => ?_
      rw [returns_ok]
      exact ⟨hfirst.1.trans hstop.1, hstop.2.1⟩
  · rw [returns_ok]
    exact ⟨le_rfl, h⟩

theorem numberSuffix_bounds {s : List UInt8} {pos : ℕ} (h : pos ≤ s.length) :
    Returns (numberSuffix s pos) fun r => pos ≤ r ∧ r ≤ s.length := by
  unfold numberSuffix
  refine (Returns.andAlso (R := fun b => b = true → pos < s.length) (fun hlt => ?_)
    (by simp)).bind fun suffix hb => Returns.ite (fun hs => ?_) fun _ => ?_
  · rw [readInput_ok hlt, ok_bind, returns_ok]
    exact fun _ => hlt
  · have hlt := hb hs
    refine (Returns.orElse (R := fun _ => True) (fun _ => trivial) fun hne => ?_).bind
      fun ends _ => ?_
    · rw [readInput_ok (by omega), ok_bind, returns_ok]
      trivial
    · rw [returns_ok]
      split_ifs <;> omega
  · rw [returns_ok]
    exact ⟨le_rfl, h⟩

theorem numberTail_reads (hc : sf.cur.Cleared) {pos : ℕ} (hpos : sf.pos < pos)
    (h : pos ≤ sf.s.length) : Returns (numberTail sf sf.pos pos) (Reads sf) := by
  unfold numberTail
  refine (numberExponent_bounds h).bind fun r hr => ?_
  obtain ⟨stop, have_e, have_exp⟩ := r
  refine (numberSuffix_bounds hr.2).bind fun last hlast => ?_
  have hstop : pos ≤ stop := hr.1
  dsimp only
  rw [tailInput_ok (by omega), ok_bind]
  refine assignCurrent_reads (.refl sf) hc ?_ le_rfl (by omega) (by omega) hlast.2 fun hcom => ?_
  · split_ifs <;> decide
  · split_ifs at hcom
    · exact absurd hcom (by decide)
    · exact absurd hcom (by decide)

theorem parse_number_reads (hc : sf.cur.Cleared) (h : sf.pos < sf.s.length)
    (hstart : ISDIGIT (readAt sf.s sf.pos) = true ∨ readAt sf.s sf.pos = chr '.') :
    Returns (parse_number sf) (Reads sf) := by
  unfold parse_number
  dsimp only
  refine (radixDigits_bounds h).bind fun digits hdigits => ?_
  cases digits with
  | some digits =>
    have h2 := hdigits (by simp)
    have hle := strlenspn_le (sf.s.drop (sf.pos + 2)) digits
    rw [List.length_drop] at hle
    dsimp only
    rw [tailInput_ok h2, ok_bind, tailInput_ok h.le, ok_bind]
    refine assignCurrent_reads (.refl sf) hc ?_ le_rfl (by omega) (by omega) (by omega)
      fun hcom => ?_
    · split_ifs <;> decide
    · split_ifs at hcom
      · exact absurd hcom (by decide)
      · exact absurd hcom (by decide)
  | none =>
    dsimp only
    refine (skipDigits_bounds h.le).bind fun pos hpos => ?_
    obtain ⟨hge, hle, hdigit⟩ := hpos
    refine (Returns.andAlso (R := fun b => if b = true then pos < sf.s.length ∧
        readAt sf.s pos = chr '.' else pos = sf.s.length ∨ readAt sf.s pos ≠ chr '.')
      (fun hlt => ?_) fun hnot => ?_).bind fun point hb => Returns.ite (fun hp => ?_)
      fun hp => ?_
    · have hlt : pos < sf.s.length := hlt
      rw [readInput_ok hlt, ok_bind, returns_ok]
      by_cases hdot : readAt sf.s pos = chr '.'
      · rw [if_pos (by simpa using hdot)]
        exact ⟨hlt, hdot⟩
      · rw [if_neg (by simpa using hdot)]
        exact .inr hdot
    · rw [if_neg (by decide)]
      have hnot : ¬ pos < sf.s.length := hnot
      exact .inl (by omega)
    · rw [if_pos hp] at hb
      refine (skipDigits_bounds hb.1).bind fun stop hstop => Returns.ite (fun hone => ?_)
        fun _ => numberTail_reads hc (by omega) hstop.2.1
      -- nothing but the point was read
      have heq : pos = sf.pos := by omega
      rw [returns_ok]
      exact assignChar_reads (.refl sf) hc (by decide) le_rfl (by omega) hstop.2.1
        (heq ▸ hb.2.symm) (.inl (by decide))
    · rw [if_neg hp] at hb
      refine numberTail_reads hc ?_ hle
      rcases hstart with hd | hdot
      · exact hdigit h hd
      · rcases hge.lt_or_eq with hlt | heq
        · exact hlt
        · rw [← heq] at hb
          rcases hb with hb | hb
          · omega
          · exact absurd hdot hb

end Parsers

end OctopusWaf.Libinjection
