import OctopusWaf.SqliShift
import OctopusWaf.SqliVerdict

/-! The fold does the same with tokens wherever they stand in the input, so that white bytes in
front of it leave the fingerprint as it is. -/
namespace OctopusWaf.Libinjection
open CMachine CString

variable {pre : List UInt8} {n : ℕ} {sf sf' : sfilter} {f f' : Folding} {lookup : ptr_lookup_fn}
  {a b t u : stoken_t} {p q : ℕ}

/-- Two folds that are at the same point. -/
structure SameFold (pre : List UInt8) (n : ℕ) (f f' : Folding) : Prop where
  sf : Shifted pre n f.sf f'.sf
  last_comment : f.last_comment.Alike f'.last_comment
  pos : f'.pos = f.pos
  left : f'.left = f.left
  more : f'.more = f.more

/-- The rules have ended alike. -/
def SameFolded (pre : List UInt8) (n : ℕ) : Folded → Folded → Prop
  | .returns k sf, .returns k' sf' => k' = k ∧ Shifted pre n sf sf'
  | .again f, .again f' => SameFold pre n f f'
  | .onward f, .onward f' => SameFold pre n f f'
  | _, _ => False

theorem getToken_shift (h : Shifted pre n sf sf') (i : ℕ) :
    Agree stoken_t.Alike (getToken sf i) (getToken sf' i) := by
  unfold getToken
  by_cases hi : i < 8
  · rw [dif_pos hi, dif_pos hi]
    exact agree_ok (h.cells _)
  · rw [dif_neg hi]
    exact agree_error

theorem setToken_shift (h : Shifted pre n sf sf') (i : ℕ) (ht : t.Alike u) :
    Agree (Shifted pre n) (setToken sf i t) (setToken sf' i u) := by
  unfold setToken
  by_cases hi : i < 8
  · rw [dif_pos hi, dif_pos hi]
    exact agree_ok (h.write ⟨i, hi⟩ ht)
  · rw [dif_neg hi]
    exact agree_error

theorem pointCurrent_shift (h : Shifted pre n sf sf') (i : ℕ) :
    Agree (Shifted pre n) (pointCurrent sf i) (pointCurrent sf' i) := by
  unfold pointCurrent
  by_cases hi : i < 8
  · rw [dif_pos hi, dif_pos hi]
    exact agree_ok ⟨h.s, h.pos, h.flags, rfl, h.cells, h.fingerprint, h.ddx, h.hash, h.tokens,
      h.nonempty, h.dollar, h.unquoted⟩
  · rw [dif_neg hi]
    exact agree_error

theorem again_shift {x y : Except Fault Folding} (hxy : Agree (SameFold pre n) x y) :
    Agree (SameFolded pre n) (Folded.again <$> x) (Folded.again <$> y) :=
  hxy.map (S := SameFolded pre n)

theorem onward_shift {x y : Except Fault Folding} (hxy : Agree (SameFold pre n) x y) :
    Agree (SameFolded pre n) (Folded.onward <$> x) (Folded.onward <$> y) :=
  hxy.map (S := SameFolded pre n)

section Rules

variable (h : SameFold pre n f f')
include h

theorem put_shift (i : ℕ) (ht : t.Alike u) :
    Agree (SameFold pre n) (f.put i t) (f'.put i u) :=
  (setToken_shift h.sf i ht).bind fun _ _ hsf =>
    agree_ok ⟨hsf, h.last_comment, h.pos, h.left, h.more⟩

theorem shrink_shift (k left folds : ℕ) :
    Agree (SameFold pre n) (f.shrink k left folds) (f'.shrink k left folds) := by
  unfold Folding.shrink
  rw [h.pos]
  apply Agree.same rfl
  intro pos
  have hsf := h.sf
  exact agree_ok ⟨⟨hsf.s, hsf.pos, hsf.flags, hsf.current, hsf.cells, hsf.fingerprint, hsf.ddx,
    hsf.hash, hsf.tokens, hsf.nonempty, hsf.dollar, hsf.unquoted⟩, h.last_comment, rfl, rfl,
    h.more⟩

theorem SameFold.goto (left : ℕ) :
    SameFold pre n { f with left := left } { f' with left := left } :=
  ⟨h.sf, h.last_comment, h.pos, rfl, h.more⟩

/-- A token is put over another one, and the tokens behind are dropped. -/
theorem put_shrink_shift (i k left folds : ℕ) (ht : t.Alike u) : Agree (SameFold pre n)
    (f.put i t >>= fun f => f.shrink k left folds)
    (f'.put i u >>= fun f => f.shrink k left folds) :=
  (put_shift h i ht).bind fun _ _ hf => shrink_shift hf k left folds

theorem foldPair_shift (a b : stoken_t) (p q : ℕ) : Agree (SameFolded pre n) (foldPair f a b)
    (foldPair f' { a with pos := p } { b with pos := q }) := by
  have hleft := h.left
  have hstay : Agree (SameFolded pre n) (.ok (.onward f) : Except Fault Folded) (.ok (.onward f')) :=
    agree_ok h
  unfold foldPair
  rw [hleft]
  apply Agree.ite Iff.rfl
  · intro _
    exact again_shift (put_shift h _ ⟨q, rfl⟩)
  intro _
  apply Agree.ite Iff.rfl
  · intro _
    exact again_shift (put_shift h _ ⟨p, rfl⟩)
  intro _
  apply Agree.ite Iff.rfl
  · intro _
    exact again_shift (put_shift h _ ⟨p, rfl⟩)
  intro _
  apply Agree.ite Iff.rfl
  · intro _
    apply Agree.ite Iff.rfl
    · intro _
      exact onward_shift (put_shift h _ ⟨p, rfl⟩)
    · exact fun _ => hstay
  intro _
  apply Agree.ite Iff.rfl
  · intro _
    apply (put_shift h _ ⟨q, rfl⟩).bind
    exact fun _ _ hf => again_shift (shrink_shift hf 1 0 1)
  intro _
  apply Agree.ite Iff.rfl
  · intro _
    apply Agree.ite Iff.rfl
    · intro _
      exact (put_shift h _ ⟨q, rfl⟩).bind fun _ _ hf => agree_ok (hf.goto 0)
    · exact fun _ => hstay
  intro _
  apply Agree.ite Iff.rfl
  · intro _
    apply Agree.ite Iff.rfl
    · intro _
      exact (put_shift h _ ⟨p, rfl⟩).bind fun _ _ hf => agree_ok (hf.goto 0)
    · intro _
      apply (put_shift h _ ⟨q, rfl⟩).bind
      exact fun _ _ hf => again_shift (shrink_shift hf 1 0 1)
  intro _
  apply Agree.ite Iff.rfl fun _ => again_shift (shrink_shift h 1 0 1)
  intro _
  apply Agree.ite Iff.rfl fun _ => again_shift (shrink_shift h 1 0 1)
  intro _
  apply Agree.ite Iff.rfl
  · intro _
    apply Agree.ite Iff.rfl
    · intro _
      exact (setToken_shift h.sf _ ⟨q, rfl⟩).bind fun _ _ hsf => agree_ok ⟨rfl, hsf⟩
    · exact fun _ => again_shift (shrink_shift h 2 0 2)
  intro _
  apply Agree.ite Iff.rfl fun _ => again_shift (shrink_shift h 1 0 1)
  exact fun _ => hstay

omit h in
theorem syntax_merge_words_shift (a b : stoken_t) (p q : ℕ) :
    Agree (Option.Rel stoken_t.Alike) (syntax_merge_words lookup a b)
      (syntax_merge_words lookup { a with pos := p } { b with pos := q }) := by
  unfold syntax_merge_words
  apply Agree.ite Iff.rfl
  · intro _
    apply Agree.ite Iff.rfl fun _ => agree_ok .none
    intro _
    apply Agree.ite Iff.rfl
    · intro _
      apply Agree.map
      exact (st_assign_alike ⟨p, rfl⟩ _ _ _ _ _).mono fun _ _ => .some
    · exact fun _ => agree_ok .none
  · exact fun _ => agree_ok .none

theorem foldTwo_shift : Agree (SameFolded pre n) (foldTwo lookup f) (foldTwo lookup f') := by
  unfold foldTwo
  rw [h.left]
  apply (getToken_shift h.sf f.left).bind
  rintro a _ ⟨p, rfl⟩
  apply (getToken_shift h.sf (f.left + 1)).bind
  rintro b _ ⟨q, rfl⟩
  apply Agree.ite Iff.rfl fun _ => again_shift (shrink_shift h 1 f.left 1)
  intro _
  apply Agree.ite Iff.rfl fun _ => again_shift (shrink_shift h 1 f.left 1)
  intro _
  apply Agree.ite Iff.rfl fun _ => again_shift (shrink_shift h 1 0 1)
  intro _
  apply Agree.ite Iff.rfl fun _ => again_shift (shrink_shift h 1 (f.left - 1) 1)
  intro _
  apply (syntax_merge_words_shift a b p q).bind
  intro r r' hr
  cases hr with
  | none => exact foldPair_shift h a b p q
  | some ht =>
    apply (put_shift h _ ht).bind
    intro g g' hg
    rw [hg.left]
    exact again_shift (shrink_shift hg 1 _ 1)

theorem foldThree_shift : Agree (SameFold pre n) (foldThree f) (foldThree f') := by
  have hdrop (folds : ℕ) : Agree (SameFold pre n) (f.shrink 2 0 folds) (f'.shrink 2 0 folds) :=
    shrink_shift h 2 0 folds
  unfold foldThree
  rw [h.left, h.pos]
  apply (getToken_shift h.sf f.left).bind
  rintro a _ ⟨p, rfl⟩
  apply (getToken_shift h.sf (f.left + 1)).bind
  rintro b _ ⟨q, rfl⟩
  apply (getToken_shift h.sf (f.left + 2)).bind
  rintro c _ ⟨r, rfl⟩
  have hcopy : Agree (SameFold pre n) (f.put (f.left + 1) c >>= fun f => f.shrink 1 0 0)
      (f'.put (f.left + 1) { c with pos := r } >>= fun f => f.shrink 1 0 0) :=
    put_shrink_shift h _ 1 0 0 ⟨r, rfl⟩
  apply Agree.ite Iff.rfl fun _ => hdrop 0
  intro _
  apply Agree.ite Iff.rfl fun _ => hdrop 0
  intro _
  apply Agree.ite Iff.rfl fun _ => hdrop 0
  intro _
  apply Agree.ite Iff.rfl fun _ => hdrop 0
  intro _
  apply Agree.ite Iff.rfl fun _ => hdrop 0
  intro _
  apply Agree.ite Iff.rfl fun _ => hdrop 2
  intro _
  apply Agree.ite Iff.rfl fun _ => hdrop 0
  intro _
  apply Agree.ite Iff.rfl fun _ => hcopy
  intro _
  apply Agree.ite Iff.rfl fun _ => hcopy
  intro _
  apply Agree.ite Iff.rfl
  · intro _
    apply (put_shift h _ ⟨r, rfl⟩).bind
    intro g g' hg
    rw [hg.pos]
    exact Agree.ite Iff.rfl (fun _ => agree_error) fun _ => shrink_shift hg 3 0 0
  intro _
  apply Agree.ite Iff.rfl fun _ => hcopy
  intro _
  apply Agree.ite Iff.rfl
  · intro _
    exact Agree.ite Iff.rfl (fun _ => agree_error) fun _ => hdrop 0
  intro _
  apply Agree.ite Iff.rfl fun _ => hcopy
  intro _
  apply Agree.ite Iff.rfl
  · intro _
    apply (put_shift h _ ⟨p, rfl⟩).bind
    intro g g' hg
    rw [hg.left]
    exact agree_ok (hg.goto _)
  · intro _
    exact agree_ok ⟨h.sf, h.last_comment, rfl, rfl, h.more⟩

theorem foldFive_shift : Agree (SameFold pre n) (foldFive f) (foldFive f') := by
  have htypes : f'.sf.types = f.sf.types := by
    funext i
    unfold sfilter.types
    split_ifs with hi
    · obtain ⟨p, hp⟩ := h.sf.cells ⟨i, hi⟩
      rw [hp]
    · rfl
  unfold foldFive
  rw [h.pos, htypes]
  apply Agree.ite Iff.rfl
  · intro _
    apply Agree.ite Iff.rfl
    · intro _
      apply (getToken_shift h.sf _).bind
      intro t u ht
      apply (put_shift h 1 ht).bind
      intro g g' hg
      exact agree_ok ⟨hg.sf, hg.last_comment, rfl, rfl, hg.more⟩
    · exact fun _ => agree_ok ⟨h.sf, h.last_comment, rfl, rfl, h.more⟩
  · exact fun _ => agree_ok h

/-- The folds have ended with the same number of tokens. -/
def SameResult (pre : List UInt8) (n : ℕ) (r r' : ℕ × sfilter) : Prop :=
  r'.1 = r.1 ∧ Shifted pre n r.2 r'.2

theorem foldEnd_shift : Agree (SameResult pre n) (foldEnd f) (foldEnd f') := by
  obtain ⟨p, hp⟩ := h.last_comment
  unfold foldEnd
  rw [h.pos, hp]
  apply Agree.ite Iff.rfl
  · intro _
    exact (setToken_shift h.sf _ ⟨p, rfl⟩).bind fun _ _ hsf => agree_ok ⟨rfl, hsf⟩
  · exact fun _ => agree_ok ⟨rfl, h.sf⟩

theorem fetchRound_shift (k : ℕ) : Agree (Steps (SameFold pre n) (SameFold pre n))
    (fetchRound lookup k f) (fetchRound lookup k f') := by
  unfold fetchRound
  rw [h.pos, h.left, h.more]
  apply Agree.same rfl
  intro held
  apply Agree.ite Iff.rfl
  · intro _
    apply (pointCurrent_shift h.sf f.pos).bind
    intro sf₁ sf₁' h₁
    apply (tokenize_shift h₁.clear).bind
    rintro ⟨more, sf₂⟩ ⟨more', sf₂'⟩ ⟨hmore, h₂⟩
    dsimp only at hmore h₂ ⊢
    obtain rfl := hmore
    obtain ⟨p, hp⟩ := h₂.cur
    obtain ⟨q, hq⟩ := h.last_comment
    rw [hp, hq]
    apply Agree.ite Iff.rfl
    · intro _
      apply Agree.ite Iff.rfl
      · exact fun _ => agree_ok ⟨h₂, ⟨p, rfl⟩, rfl, rfl, rfl⟩
      · exact fun _ => agree_ok ⟨h₂, ⟨q, rfl⟩, rfl, rfl, rfl⟩
    · exact fun _ => agree_ok ⟨h₂, ⟨q, rfl⟩, rfl, rfl, rfl⟩
  · exact fun _ => agree_ok h

theorem fetch_shift (k : ℕ) :
    Agree (SameFold pre n) (fetch lookup k f) (fetch lookup k f') :=
  Agree.rounds (fun _ _ h => fetchRound_shift h k) h

theorem foldRound_shift : Agree (Steps (SameFold pre n) (SameResult pre n))
    (foldRound lookup f) (foldRound lookup f') := by
  unfold foldRound
  apply (foldFive_shift h).bind
  intro f₁ f₁' h₁
  rw [h₁.more, h₁.left]
  apply Agree.ite Iff.rfl
  · intro _
    exact (foldEnd_shift h₁).map (S := Steps _ _)
  intro _
  apply (fetch_shift h₁ 2).bind
  intro f₂ f₂' h₂
  rw [h₂.pos, h₂.left]
  apply Agree.same rfl
  intro held
  apply Agree.ite Iff.rfl fun _ => agree_again ⟨h₂.sf, h₂.last_comment, rfl, rfl, h₂.more⟩
  intro _
  apply (foldTwo_shift h₂).bind
  intro r r' hr
  cases r with
  | returns k sf =>
    cases r' with
    | returns k' sf' => exact agree_ok hr
    | again g' => exact hr.elim
    | onward g' => exact hr.elim
  | again g =>
    cases r' with
    | returns k' sf' => exact hr.elim
    | again g' => exact agree_ok hr
    | onward g' => exact hr.elim
  | onward g =>
    cases r' with
    | returns k' sf' => exact hr.elim
    | again g' => exact hr.elim
    | onward g' =>
      apply (fetch_shift hr 3).bind
      intro f₃ f₃' h₃
      rw [h₃.pos, h₃.left]
      apply Agree.same rfl
      intro held
      apply Agree.ite Iff.rfl fun _ => agree_again ⟨h₃.sf, h₃.last_comment, rfl, rfl, h₃.more⟩
      exact fun _ => (foldThree_shift h₃).map (S := Steps _ _)

end Rules

/-- What follows the call in a round of the first loop. -/
theorem skipRound_shift (h : Agree (Answered pre n) (libinjection_sqli_tokenize lookup sf)
    (libinjection_sqli_tokenize lookup sf')) :
    Agree (Steps (Shifted pre n) (Answered pre n)) (skipRound lookup sf) (skipRound lookup sf') := by
  unfold skipRound
  apply h.bind
  rintro ⟨more, sf₁⟩ ⟨more', sf₁'⟩ ⟨hmore, h₁⟩
  dsimp only at hmore h₁ ⊢
  obtain rfl := hmore
  obtain ⟨p, hp⟩ := h₁.cur
  rw [hp]
  apply Agree.ite Iff.rfl
  · exact fun _ => agree_again h₁
  · exact fun _ => agree_ok ⟨rfl, h₁⟩

/-- The first loop from corresponding places. -/
theorem skipRounds_shift {k m : ℕ}
    (h : Agree (Steps (Shifted pre n) (Answered pre n)) (skipRound lookup sf)
      (skipRound lookup sf')) :
    Agree (Answered pre n) (rounds .diverges (skipRound lookup) k sf)
      (rounds .diverges (skipRound lookup) m sf') :=
  Agree.first_round (fun _ _ h => skipRound_shift (tokenize_shift h.clear)) h

/-- After the first loop the folds go side by side. -/
theorem fold_shift
    (h : Agree (Answered pre n)
      (rounds .diverges (skipRound lookup) (sf.slen + 2) { sf with current := 0 })
      (rounds .diverges (skipRound lookup) (sf'.slen + 2) { sf' with current := 0 })) :
    Agree (SameResult pre n) (libinjection_sqli_fold lookup sf)
      (libinjection_sqli_fold lookup sf') := by
  have hpoint (sf : sfilter) : pointCurrent sf 0 = .ok { sf with current := 0 } := rfl
  unfold libinjection_sqli_fold
  rw [hpoint, hpoint, ok_bind, ok_bind]
  apply h.bind
  rintro ⟨more, sf₁⟩ ⟨more', sf₁'⟩ ⟨hmore, h₁⟩
  dsimp only at hmore h₁ ⊢
  obtain rfl := hmore
  apply Agree.ite Iff.rfl
  · intro _
    exact Agree.rounds (fun _ _ h => foldRound_shift h)
      ⟨h₁, stoken_t.Alike.refl st_clear, rfl, rfl, rfl⟩
  · exact fun _ => agree_ok ⟨rfl, h₁⟩

section Blanks

variable {s blanks : List UInt8} {flags : ℕ}

theorem init_unquoted (s : List UInt8)
    (hflags : ¬ hasFlag flags (FLAG_QUOTE_SINGLE ||| FLAG_QUOTE_DOUBLE)) :
    ¬ hasFlag (libinjection_sqli_init s flags).flags
      (FLAG_QUOTE_SINGLE ||| FLAG_QUOTE_DOUBLE) := by
  unfold libinjection_sqli_init
  dsimp only
  split_ifs
  · decide
  · exact hflags

/-- The first call passes the white bytes, and then reads the same token. -/
theorem tokenize_blanks (hne : s ≠ []) (hdollar : chr '$' ∉ s)
    (hflags : ¬ hasFlag flags (FLAG_QUOTE_SINGLE ||| FLAG_QUOTE_DOUBLE))
    (hwhite : ∀ c ∈ blanks, isWhite c = true) :
    Agree (Answered blanks 0) (libinjection_sqli_tokenize lookup (libinjection_sqli_init s flags))
      (libinjection_sqli_tokenize lookup (libinjection_sqli_init (blanks ++ s) flags)) := by
  have hunquoted := init_unquoted s hflags
  have hunquoted' := init_unquoted (blanks ++ s) hflags
  have hlen : (libinjection_sqli_init (blanks ++ s) flags).slen =
      (libinjection_sqli_init s flags).slen + blanks.length :=
    List.length_append.trans (Nat.add_comm _ _)
  have hslen : (libinjection_sqli_init s flags).slen ≠ 0 :=
    fun hzero => hne (List.length_eq_zero_iff.mp hzero)
  have hslen' : (libinjection_sqli_init (blanks ++ s) flags).slen ≠ 0 := by omega
  have hpassed : WhiteBetween (blanks ++ s) 0 (0 + blanks.length) := by
    intro i _ hi
    have hin : i < blanks.length := Nat.zero_add blanks.length ▸ hi
    rw [readAt_append_left hin]
    exact hwhite _ (readAt_mem hin)
  have hstart : Shifted blanks 0 ((libinjection_sqli_init s flags).setCurrent st_clear)
      { (libinjection_sqli_init (blanks ++ s) flags).setCurrent st_clear with
        pos := 0 + blanks.length } :=
    ⟨rfl, Nat.zero_add _, rfl, rfl, fun _ => stoken_t.Alike.refl _, rfl, rfl, rfl, rfl, hne,
      hdollar, hunquoted⟩
  have hskip := @rounds_white lookup
    ((libinjection_sqli_init (blanks ++ s) flags).setCurrent st_clear) blanks.length
    ((libinjection_sqli_init s flags).slen + 1) (cur_setCurrent _ _)
    ((Nat.zero_add _).trans_le ((Nat.le_add_left _ _).trans_eq hlen.symm)) hpassed
  have hrounds : ((libinjection_sqli_init (blanks ++ s) flags).setCurrent st_clear).slen + 1 =
      (libinjection_sqli_init s flags).slen + 1 + blanks.length := by
    rw [Nat.add_right_comm, ← hlen]
    rfl
  unfold libinjection_sqli_tokenize
  rw [if_neg hslen, if_neg hslen']
  dsimp only
  rw [if_neg fun hq => hunquoted hq.2, if_neg fun hq => hunquoted' hq.2, hrounds, hskip]
  exact Agree.rounds (fun _ _ h => tokenRound_shift h) hstart

/-- White bytes in front do not change the tokens that the fold leaves. -/
theorem fold_blanks (hne : s ≠ []) (hdollar : chr '$' ∉ s)
    (hflags : ¬ hasFlag flags (FLAG_QUOTE_SINGLE ||| FLAG_QUOTE_DOUBLE))
    (hwhite : ∀ c ∈ blanks, isWhite c = true) :
    Agree (SameResult blanks 0) (libinjection_sqli_fold lookup (libinjection_sqli_init s flags))
      (libinjection_sqli_fold lookup (libinjection_sqli_init (blanks ++ s) flags)) := by
  apply fold_shift
  apply skipRounds_shift
  apply skipRound_shift
  exact tokenize_blanks hne hdollar hflags hwhite

theorem backtickComment_shift (h : Shifted pre n sf sf') (k : ℕ) :
    Agree (Shifted pre n) (backtickComment sf k) (backtickComment sf' k) := by
  unfold backtickComment
  apply Agree.ite Iff.rfl
  · intro _
    apply (getToken_shift h _).bind
    rintro t _ ⟨p, rfl⟩
    apply Agree.ite Iff.rfl
    · exact fun _ => setToken_shift h _ ⟨p, rfl⟩
    · exact fun _ => agree_ok h
  · exact fun _ => agree_ok h

theorem Shifted.printed (h : Shifted pre n sf sf') (print : List UInt8) :
    Shifted pre n { sf with fingerprint := print } { sf' with fingerprint := print } :=
  ⟨h.s, h.pos, h.flags, h.current, h.cells, rfl, h.ddx, h.hash, h.tokens, h.nonempty, h.dollar,
    h.unquoted⟩

/-- Only the types of the tokens are written. -/
theorem writeFingerprint_shift (h : Shifted pre n sf sf') (k : ℕ) :
    Agree (Shifted pre n) (writeFingerprint sf k) (writeFingerprint sf' k) := by
  have htypes : (fun i => stoken_t.type <$> getToken sf' i) =
      fun i => stoken_t.type <$> getToken sf i := by
    funext i
    unfold getToken
    by_cases hi : i < 8
    · obtain ⟨p, hp⟩ := h.cells ⟨i, hi⟩
      rw [dif_pos hi, dif_pos hi, hp]
      rfl
    · rw [dif_neg hi, dif_neg hi]
  unfold writeFingerprint
  rw [htypes, h.fingerprint]
  apply Agree.same rfl
  intro types
  exact Agree.ite Iff.rfl (fun _ => agree_ok (h.printed _)) fun _ => agree_error

theorem evilFingerprint_shift (h : Shifted pre n sf sf') :
    Agree (Shifted pre n) (evilFingerprint sf) (evilFingerprint sf') := by
  unfold evilFingerprint
  apply (getToken_shift h 0).bind
  rintro t₀ _ ⟨p, rfl⟩
  apply (getToken_shift h 1).bind
  rintro t₁ _ ⟨q, rfl⟩
  apply (setToken_shift h 0 ⟨p, rfl⟩).bind
  intro sf₁ sf₁' h₁
  apply (setToken_shift h₁ 1 ⟨q, rfl⟩).bind
  intro sf₂ sf₂' h₂
  rw [h₂.fingerprint]
  exact agree_ok (h₂.printed _)

/-- White bytes in front of an input leave its fingerprint as it is, and the marks after which
the input is read again as MySQL. -/
theorem libinjection_sqli_fingerprint_blanks (hne : sf.s ≠ []) (hdollar : chr '$' ∉ sf.s)
    (hflags : ¬ hasFlag flags (FLAG_QUOTE_SINGLE ||| FLAG_QUOTE_DOUBLE))
    (hwhite : ∀ c ∈ blanks, isWhite c = true) (hs : sf'.s = blanks ++ sf.s) : ∃ r r',
      libinjection_sqli_fingerprint lookup sf flags = .ok r ∧
      libinjection_sqli_fingerprint lookup sf' flags = .ok r' ∧
      r'.print = r.print ∧ reparse_as_mysql r' = reparse_as_mysql r := by
  obtain ⟨r, hr, -⟩ := @fingerprint_spec lookup sf flags
  obtain ⟨r', hr', -⟩ := @fingerprint_spec lookup sf' flags
  have hagree : Agree (Shifted blanks 0) (libinjection_sqli_fingerprint lookup sf flags)
      (libinjection_sqli_fingerprint lookup sf' flags) := by
    unfold libinjection_sqli_fingerprint libinjection_sqli_reset
    rw [hs]
    apply (fold_blanks hne hdollar hflags hwhite).bind
    rintro ⟨tlen, sf₁⟩ ⟨tlen', sf₁'⟩ ⟨hlen, h₁⟩
    dsimp only at hlen h₁ ⊢
    obtain rfl := hlen
    apply (backtickComment_shift h₁ _).bind
    intro sf₂ sf₂' h₂
    apply (writeFingerprint_shift h₂ _).bind
    intro sf₃ sf₃' h₃
    rw [h₃.fingerprint]
    exact Agree.ite Iff.rfl (fun _ => evilFingerprint_shift h₃) fun _ => agree_ok h₃
  have hshift := hagree.values r r' hr hr'
  refine ⟨r, r', hr, hr', congrArg cstr hshift.fingerprint, ?_⟩
  unfold reparse_as_mysql
  rw [hshift.ddx, hshift.hash]

/-- A tab and a blank in front of `1--`. -/
theorem libinjection_sqli_fingerprint_blanks_tab : ∃ r r',
    libinjection_sqli_fingerprint (fun _ => 0) (libinjection_sqli_init (ascii "1--") 0)
      (FLAG_QUOTE_NONE ||| FLAG_SQL_ANSI) = .ok r ∧
    libinjection_sqli_fingerprint (fun _ => 0) (libinjection_sqli_init ([9, 32] ++ ascii "1--") 0)
      (FLAG_QUOTE_NONE ||| FLAG_SQL_ANSI) = .ok r' ∧
    r'.print = r.print ∧ reparse_as_mysql r' = reparse_as_mysql r :=
  @libinjection_sqli_fingerprint_blanks (libinjection_sqli_init (ascii "1--") 0)
    (libinjection_sqli_init ([9, 32] ++ ascii "1--") 0) (fun _ => 0) [9, 32]
    (FLAG_QUOTE_NONE ||| FLAG_SQL_ANSI) (by decide +kernel) (by decide +kernel) (by decide +kernel)
    (by decide +kernel) rfl

end Blanks

end OctopusWaf.Libinjection
