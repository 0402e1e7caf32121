import OctopusWaf.SqliFold
import OctopusWaf.SqliTokenizer
import Mathlib.Algebra.BigOperators.Fin

/-! The fold completes: what holds of the eight token cells in every round of its loop, and
the rank that every round lowers. -/
namespace OctopusWaf.Libinjection
open CMachine CString

variable {lookup : ptr_lookup_fn} {s : List UInt8} {f f' : Folding}

/-- The array of a token has 32 cells, and its text leaves room for the terminator. -/
structure Shaped (t : stoken_t) : Prop where
  cells : t.val.length = 32
  short : t.len < 32

/-- Where a comment starts, and that a slash or dash there is not the last byte. -/
structure CommentAt (s : List UInt8) (t : stoken_t) : Prop where
  inside : t.pos < s.length
  two : readAt s t.pos = chr '/' ∨ readAt s t.pos = chr '-' → t.pos + 2 ≤ s.length

/-- The number of comments that are held. -/
def Folding.comments (f : Folding) : ℕ := if f.last_comment.type = TYPE_COMMENT then 1 else 0

/-- A token that still is as it was read: no comment, and before the one that is held. -/
structure AsRead (f : Folding) (t : stoken_t) : Prop where
  type : t.type ≠ TYPE_COMMENT
  passed : t.pos + t.len ≤ f.sf.pos
  before : f.last_comment.type = TYPE_COMMENT → t.pos + t.len ≤ f.last_comment.pos

/-- The invariant of the loop. Each of the `pos` tokens and the comment has been counted; as
long as nothing else was, nothing has been merged or dropped. -/
structure FoldInv (s : List UInt8) (f : Folding) : Prop where
  input : f.sf.s = s
  bound : f.sf.pos ≤ s.length
  left_le : f.left ≤ f.pos
  few : f.pos ≤ 6
  shaped : ∀ i, Shaped (f.sf.tokenvec i)
  shaped_comment : Shaped f.last_comment
  typed : ∀ i : Fin 8, i.val < f.pos → (f.sf.tokenvec i).type ≠ CHAR_NULL
  comment : f.last_comment.type = TYPE_COMMENT → CommentAt s f.last_comment
  counted : f.pos + f.comments ≤ f.sf.stats_tokens
  asRead : f.pos + f.comments = f.sf.stats_tokens →
    ∀ i : Fin 8, i.val < f.pos → AsRead f (f.sf.tokenvec i)

theorem shaped_clear : Shaped st_clear := ⟨rfl, by decide⟩

theorem Scanned.shaped {a b : ℕ} {t : stoken_t} (h : Scanned s a b t) : Shaped t := by
  have hs := h.short
  have he := h.ends
  have hb := h.inside
  refine ⟨?_, h.short⟩
  rw [h.val_eq, List.length_append, List.length_take, List.length_drop, List.length_replicate]
  omega

/-- What the type of a token leaves to be settled. -/
def unsettled (type : UInt8) : ℕ :=
  (if type = TYPE_SQLTYPE then 0 else 1) + if type = TYPE_BACKSLASH then 1 else 0

/-- What may still be decided about the two tokens at `left`. -/
def pending (a b : UInt8) : ℕ :=
  (if a = TYPE_KEYWORD then 2 else if a = TYPE_BAREWORD ∨ a = TYPE_VARIABLE then 1 else 0) +
    if b = TYPE_FUNCTION then 1 else 0

/-- What is left to read and the number of tokens. -/
def Folding.major (f : Folding) : ℕ :=
  (f.sf.slen - f.sf.pos + if f.more then 1 else 0) * 7 + f.pos

def Folding.weight (f : Folding) : ℕ := ∑ i, unsettled (f.sf.tokenvec i).type

/-- What is ahead of `left`. -/
def Folding.ahead (f : Folding) : ℕ := f.weight * 28 + (6 - f.left) * 4

def Folding.minor (f : Folding) : ℕ :=
  f.ahead + pending (f.sf.types f.left) (f.sf.types (f.left + 1))

/-- Every round lowers it. -/
def Folding.rank (f : Folding) : ℕ := f.major * 476 + f.minor

theorem pending_le (a b : UInt8) : pending a b ≤ 3 := by
  unfold pending
  split_ifs <;> omega

theorem weight_le (f : Folding) : f.weight ≤ 16 := by
  have hcell : ∀ i ∈ Finset.univ, unsettled (f.sf.tokenvec i).type ≤ 2 := fun i _ => by
    unfold unsettled
    split_ifs <;> omega
  have hsum := Finset.sum_le_card_nsmul _ _ _ hcell
  rwa [Finset.card_univ, Fintype.card_fin, smul_eq_mul] at hsum

theorem minor_lt (f : Folding) : f.minor < 476 := by
  have hw := weight_le f
  have hp := pending_le (f.sf.types f.left) (f.sf.types (f.left + 1))
  unfold Folding.minor Folding.ahead
  omega

theorem rank_lt_of_major (h : f'.major < f.major) : f'.rank < f.rank := by
  have hm := minor_lt f'
  unfold Folding.rank
  omega

theorem rank_lt_of_minor (hmajor : f'.major = f.major) (h : f'.minor < f.minor) :
    f'.rank < f.rank := by
  unfold Folding.rank
  omega

theorem rank_lt_of_ahead (hmajor : f'.major = f.major) (h : f'.ahead + 4 ≤ f.ahead) :
    f'.rank < f.rank := by
  have hp := pending_le (f'.sf.types f'.left) (f'.sf.types (f'.left + 1))
  refine rank_lt_of_minor hmajor ?_
  unfold Folding.minor
  omega

/-- A cell that is written changes the weight by that cell only. -/
theorem weight_update (t : Fin 8 → stoken_t) (i : Fin 8) (st : stoken_t) :
    ∑ j, unsettled (Function.update t i st j).type + unsettled (t i).type =
      ∑ j, unsettled (t j).type + unsettled st.type := by
  rw [← Finset.add_sum_erase _ _ (Finset.mem_univ i), Function.update_self,
    ← Finset.add_sum_erase _ (fun j => unsettled (t j).type) (Finset.mem_univ i)]
  have hrest : ∑ j ∈ Finset.univ.erase i, unsettled (Function.update t i st j).type =
      ∑ j ∈ Finset.univ.erase i, unsettled (t j).type :=
    Finset.sum_congr rfl fun j hj => by rw [Function.update_of_ne (Finset.ne_of_mem_erase hj)]
  omega

theorem getToken_ok {sf : sfilter} {i : ℕ} (h : i < 8) :
    getToken sf i = .ok (sf.tokenvec ⟨i, h⟩) := dif_pos h

theorem setToken_ok {sf : sfilter} {i : ℕ} (h : i < 8) (st : stoken_t) :
    setToken sf i st =
      .ok { sf with tokenvec := Function.update sf.tokenvec ⟨i, h⟩ st } := dif_pos h

/-- The loop's state with one token written. -/
def Folding.write (f : Folding) (i : Fin 8) (st : stoken_t) : Folding :=
  { f with sf := { f.sf with tokenvec := Function.update f.sf.tokenvec i st } }

theorem put_ok {i : ℕ} (h : i < 8) (st : stoken_t) : f.put i st = .ok (f.write ⟨i, h⟩ st) := by
  rw [Folding.put, setToken_ok h, ok_bind]
  rfl

theorem shrink_ok {n : ℕ} (h : n ≤ f.pos) (left folds : ℕ) : f.shrink n left folds = .ok { f with
    pos := f.pos - n, left := left,
    sf := { f.sf with stats_folds := f.sf.stats_folds + folds } } := by
  rw [Folding.shrink, sizeSub_ok h, ok_bind]

/-- What the folding rules leave alone. -/
structure Kept (f f' : Folding) : Prop where
  s : f'.sf.s = f.sf.s
  pos : f'.sf.pos = f.sf.pos
  tokens : f'.sf.stats_tokens = f.sf.stats_tokens
  comment : f'.last_comment = f.last_comment
  more : f'.more = f.more

/-- The invariant is kept and the rank is lower. -/
def Lower (s : List UInt8) (f f' : Folding) : Prop := FoldInv s f' ∧ f'.rank < f.rank

/-- Fewer tokens, of which all are counted and typed, keep the invariant. -/
theorem FoldInv.fewer (h : FoldInv s f) (hk : Kept f f') (hpos : f'.pos < f.pos)
    (hleft : f'.left ≤ f'.pos) (hshaped : ∀ i, Shaped (f'.sf.tokenvec i))
    (htyped : ∀ i : Fin 8, i.val < f'.pos → (f'.sf.tokenvec i).type ≠ CHAR_NULL) :
    Lower s f f' := by
  have hcom : f'.comments = f.comments := by rw [Folding.comments, hk.comment, Folding.comments]
  have hcounted := h.counted
  have hfew := h.few
  refine ⟨⟨hk.s.trans h.input, hk.pos ▸ h.bound, hleft, by omega, hshaped, ?_, htyped, ?_, ?_,
    fun heq => ?_⟩, rank_lt_of_major ?_⟩
  · rw [hk.comment]
    exact h.shaped_comment
  · rw [hk.comment]
    exact h.comment
  · rw [hcom, hk.tokens]
    omega
  · rw [hcom, hk.tokens] at heq
    omega
  · unfold Folding.major sfilter.slen
    rw [hk.s, hk.pos, hk.more]
    omega

/-- A token that gets another type, with a new `left`, keeps the invariant. -/
theorem FoldInv.retype (h : FoldInv s f) {i : Fin 8} {left : ℕ} (hleft : left ≤ f.pos)
    {type : UInt8} (htype : type ≠ CHAR_NULL ∧ type ≠ TYPE_COMMENT) :
    FoldInv s { f.write i { f.sf.tokenvec i with type := type } with left := left } := by
  have hcell (j : Fin 8) : Function.update f.sf.tokenvec i { f.sf.tokenvec i with type := type } j
      = f.sf.tokenvec j ∨ j = i := by
    by_cases hj : j = i
    · exact .inr hj
    · exact .inl (Function.update_of_ne hj _ _)
  refine ⟨h.input, h.bound, hleft, h.few, fun j => ?_, h.shaped_comment, fun j hj => ?_,
    h.comment, h.counted, fun heq j hj => ?_⟩
  · change Shaped (Function.update f.sf.tokenvec i _ j)
    rcases hcell j with hj | rfl
    · rw [hj]
      exact h.shaped j
    · rw [Function.update_self]
      exact ⟨(h.shaped j).cells, (h.shaped j).short⟩
  · change (Function.update f.sf.tokenvec i _ j).type ≠ CHAR_NULL
    rcases hcell j with hj' | rfl
    · rw [hj']
      exact h.typed j hj
    · rw [Function.update_self]
      exact htype.1
  · change AsRead _ (Function.update f.sf.tokenvec i _ j)
    have hread := h.asRead heq j hj
    rcases hcell j with hj' | rfl
    · rw [hj']
      exact ⟨hread.type, hread.passed, hread.before⟩
    · rw [Function.update_self]
      exact ⟨htype.2, hread.passed, hread.before⟩

/-- What is left to read. -/
def Folding.unread (f : Folding) : ℕ := f.sf.slen - f.sf.pos + if f.more then 1 else 0

theorem major_lt_of_unread (h : f'.unread < f.unread) (hfew : f'.pos ≤ 6) :
    f'.major < f.major := by
  unfold Folding.unread at h
  unfold Folding.major
  omega

theorem unread_le (f : Folding) : f.unread ≤ f.sf.slen + 1 := by
  unfold Folding.unread
  split_ifs <;> omega

/-- A cell that the tokenizer has written, and the others as they were. -/
theorem shaped_of_frame {sf sf' : sfilter} (h : ∀ i, Shaped (sf.tokenvec i))
    (hf : ∀ i, i ≠ sf.current → sf'.tokenvec i = sf.tokenvec i)
    (hcur : sf'.current = sf.current) (hnew : Shaped sf'.cur) (i : Fin 8) :
    Shaped (sf'.tokenvec i) := by
  by_cases hi : i = sf.current
  · rw [hi, ← hcur]
    exact hnew
  · rw [hf i hi]
    exact h i

/-- More of the input has been read since `f`, or nothing happened. -/
structure Fetched (s : List UInt8) (f f' : Folding) : Prop where
  inv : FoldInv s f'
  left : f'.left = f.left
  major : f' = f ∨ f'.major < f.major

section Fetch

variable {f₀ : Folding} {n : ℕ} {sf' : sfilter} {a : ℕ} {i : Fin 8}

/-- The tokenizer was called for the cell `i`, which is behind the tokens. -/
structure Called (f : Folding) (i : Fin 8) (sf : sfilter) : Prop where
  eq : sf = { f.sf with current := i }
  next : i.val = f.pos

theorem cell_before {sf : sfilter} (hc : Called f i sf)
    (hf : ∀ j, j ≠ sf.current → sf'.tokenvec j = sf.tokenvec j) {j : Fin 8} (hj : j.val < f.pos) :
    sf'.tokenvec j = f.sf.tokenvec j := by
  have hne : j ≠ i := fun he => by
    rw [he, hc.next] at hj
    omega
  rw [hf j (by rw [hc.eq]; exact hne), hc.eq]

/-- A comment is set aside. -/
theorem FoldInv.comment_read (h : FoldInv s f) {sf : sfilter} (hc : Called f i sf)
    (hfound : Found sf sf' a) (hcom : sf'.cur.type = TYPE_COMMENT) :
    FoldInv s { f with sf := sf', more := true, last_comment := sf'.cur } := by
  have hs : sf.s = s := by rw [hc.eq]; exact h.input
  have htoken := hfound.token
  rw [hs] at htoken
  obtain ⟨hpos, htwo⟩ := htoken.comment hcom
  have hshaped : ∀ j, Shaped (sf.tokenvec j) := by rw [hc.eq]; exact h.shaped
  have hin := htoken.inside
  have hprog := hfound.progress
  have hstart : f.sf.pos ≤ a := by
    have := hfound.start
    rwa [hc.eq] at this
  have hcount : sf'.stats_tokens = f.sf.stats_tokens + 1 := by
    rw [hfound.counted, hc.eq]
  have hone : Folding.comments { f with sf := sf', more := true, last_comment := sf'.cur } = 1 :=
    if_pos hcom
  have hcounted := h.counted
  refine ⟨hfound.frame.s.trans hs, hin, h.left_le, h.few, ?_, htoken.shaped, fun j hj => ?_,
    fun _ => ⟨lt_of_eq_of_lt hpos (by omega), fun hop => ?_⟩, ?_, fun heq j hj => ?_⟩
  · exact shaped_of_frame hshaped hfound.frame.tokenvec
      hfound.frame.current htoken.shaped
  · change (sf'.tokenvec j).type ≠ CHAR_NULL
    rw [cell_before hc hfound.frame.tokenvec hj]
    exact h.typed j hj
  · rw [hpos] at hop ⊢
    have := htwo hop
    omega
  · rw [hone, hcount]
    dsimp only
    omega
  · rw [hone, hcount] at heq
    dsimp only at heq hj ⊢
    rw [cell_before hc hfound.frame.tokenvec hj]
    have hread := h.asRead (by omega) j hj
    have hpassed := hread.passed
    exact ⟨hread.type, by dsimp only; omega, fun _ => hpassed.trans (hstart.trans hpos.ge)⟩

/-- Any other token is added. -/
theorem FoldInv.token_read (h : FoldInv s f) {sf : sfilter} (hc : Called f i sf)
    (hfound : Found sf sf' a) (hcom : sf'.cur.type ≠ TYPE_COMMENT) (hpos : f.pos ≤ 5) :
    FoldInv s { f with sf := sf', more := true, pos := f.pos + 1, last_comment :=
      { f.last_comment with type := CHAR_NULL } } := by
  have hs : sf.s = s := by rw [hc.eq]; exact h.input
  have htoken := hfound.token
  rw [hs] at htoken
  have hshaped : ∀ j, Shaped (sf.tokenvec j) := by rw [hc.eq]; exact h.shaped
  have hin := htoken.inside
  have hends := htoken.ends
  have hcurrent : sf'.current = i := by rw [hfound.frame.current, hc.eq]
  have hcur : sf'.tokenvec i = sf'.cur := by rw [sfilter.cur, hcurrent]
  have hstart : f.sf.pos ≤ sf'.pos := by
    have := hfound.start
    have := hfound.progress
    rw [hc.eq] at *
    dsimp only at *
    omega
  have hcount : sf'.stats_tokens = f.sf.stats_tokens + 1 := by rw [hfound.counted, hc.eq]
  have hzero : Folding.comments { f with sf := sf', more := true, pos := f.pos + 1, last_comment :=
      { f.last_comment with type := CHAR_NULL } } = 0 := rfl
  have hcounted := h.counted
  have hleft := h.left_le
  have hnew {j : Fin 8} (hj : j.val < f.pos + 1) : j.val < f.pos ∨ j = i := by
    rcases Nat.lt_succ_iff_lt_or_eq.mp hj with hlt | heq
    · exact .inl hlt
    · exact .inr (Fin.ext (heq.trans hc.next.symm))
  refine ⟨hfound.frame.s.trans hs, hin, by dsimp only; omega, by dsimp only; omega, ?_,
    ⟨h.shaped_comment.cells, h.shaped_comment.short⟩, fun j hj => ?_, fun hno => ?_, ?_,
    fun heq j hj => ?_⟩
  · exact shaped_of_frame hshaped hfound.frame.tokenvec
      hfound.frame.current htoken.shaped
  · change (sf'.tokenvec j).type ≠ CHAR_NULL
    rcases hnew hj with hj | rfl
    · rw [cell_before hc hfound.frame.tokenvec hj]
      exact h.typed j hj
    · rw [hcur]
      exact htoken.typed
  · exact absurd hno (by dsimp only; decide)
  · rw [hzero, hcount]
    dsimp only
    omega
  · rw [hzero, hcount] at heq
    dsimp only at heq hj ⊢
    rcases hnew hj with hj | rfl
    · rw [cell_before hc hfound.frame.tokenvec hj]
      have hread := h.asRead (by omega) j hj
      have hpassed := hread.passed
      exact ⟨hread.type, by dsimp only; omega, fun hno => absurd hno (by dsimp only; decide)⟩
    · rw [hcur]
      exact ⟨hcom, hends, fun hno => absurd hno (by dsimp only; decide)⟩

theorem FoldInv.exhausted (h : FoldInv s f) {sf : sfilter} (hc : Called f i sf)
    (hex : Exhausted sf sf') : FoldInv s { f with sf := sf', more := false } := by
  have hs : sf.s = s := by rw [hc.eq]; exact h.input
  have hframe := hex.frame
  have htokens : sf'.stats_tokens = f.sf.stats_tokens := by rw [hframe.tokens, hc.eq]
  have hpos : sf'.pos = s.length := by rw [hex.pos, sfilter.slen, hs]
  have hshaped : ∀ j, Shaped (sf.tokenvec j) := by rw [hc.eq]; exact h.shaped
  refine ⟨hframe.s.trans hs, hpos.le, h.left_le, h.few, ?_, h.shaped_comment, fun j hj => ?_,
    h.comment, ?_, fun heq j hj => ?_⟩
  · refine shaped_of_frame hshaped hframe.tokenvec hframe.current ?_
    rcases hex.cur with hcur | hcur
    · rw [hcur]
      exact shaped_clear
    · rw [hcur]
      exact hshaped sf.current
  · change (sf'.tokenvec j).type ≠ CHAR_NULL
    rw [cell_before hc hframe.tokenvec hj]
    exact h.typed j hj
  · exact htokens ▸ h.counted
  · dsimp only at heq hj ⊢
    rw [htokens] at heq
    rw [cell_before hc hframe.tokenvec hj]
    have hread := h.asRead heq j hj
    have hpassed := hread.passed
    have hbound := h.bound
    exact ⟨hread.type, by dsimp only; omega, hread.before⟩

/-- One more token is read, or there are enough, or none is left. -/
theorem fetchRound_spec (h : Fetched s f₀ f) :
    Returns (fetchRound lookup n f) (Descends (Fetched s f₀) Folding.unread
      (fun f' => Fetched s f₀ f' ∧ (f'.more = false ∨ 5 < f'.pos ∨ n ≤ f'.pos - f'.left)) f) := by
  unfold fetchRound
  rw [sizeSub_ok h.inv.left_le, ok_bind]
  refine Returns.ite (fun hgo => ?_) fun hstop => ?_
  · obtain ⟨hmore, hpos, -⟩ := hgo
    have hpos : f.pos ≤ 5 := hpos
    rw [show pointCurrent f.sf f.pos = .ok { f.sf with current := ⟨f.pos, by omega⟩ } from
      dif_pos (by omega), ok_bind]
    have hcall : Called f ⟨f.pos, by omega⟩ { f.sf with current := ⟨f.pos, by omega⟩ } :=
      ⟨rfl, rfl⟩
    have hslen : f.sf.slen = s.length := congrArg List.length h.inv.input
    have hbound : f.sf.pos ≤ f.sf.slen := by
      rw [hslen]
      exact h.inv.bound
    -- whatever is read, less is left, and the count of tokens stays small
    have hdescend {f' : Folding} (hinv : FoldInv s f') (hleft : f'.left = f.left)
        (hless : f'.unread < f.unread) : Fetched s f₀ f' ∧ f'.unread < f.unread := by
      refine ⟨⟨hinv, hleft.trans h.left, .inr ?_⟩, hless⟩
      have hlt := major_lt_of_unread hless hinv.few
      rcases h.major with rfl | hmajor
      · exact hlt
      · exact hlt.trans hmajor
    have htokenize : Returns (libinjection_sqli_tokenize lookup
        { f.sf with current := ⟨f.pos, by omega⟩ }) (Tokenized _) := tokenize_spec hbound
    refine htokenize.bind fun r hr => ?_
    obtain ⟨more, sf'⟩ := r
    cases more with
    | false =>
      have hex : Exhausted _ sf' := hr
      refine returns_ok.mpr (hdescend (h.inv.exhausted hcall hex) rfl ?_)
      have hend := hex.pos
      have hlen : sf'.slen = f.sf.slen := congrArg List.length hex.frame.s
      unfold Folding.unread
      dsimp only at hend ⊢
      rw [hlen, hmore, hend]
      simp [sfilter.slen]
    | true =>
      obtain ⟨a, hfound⟩ := hr
      have hfound : Found _ sf' a := hfound
      have hprog : f.sf.pos < sf'.pos := lt_of_le_of_lt hfound.start hfound.progress
      have hin : sf'.pos ≤ f.sf.slen := hfound.token.inside
      have hlen : sf'.slen = f.sf.slen := congrArg List.length hfound.frame.s
      have hunread (pos : ℕ) (st : stoken_t) : Folding.unread { f with
          sf := sf', more := true, pos := pos, last_comment := st } < f.unread := by
        unfold Folding.unread
        dsimp only
        rw [hlen, hmore]
        omega
      dsimp only
      rw [if_pos rfl]
      refine Returns.ite (fun hcom => ?_) fun hcom => ?_
      · exact returns_ok.mpr
          (hdescend (h.inv.comment_read hcall hfound hcom) rfl (hunread f.pos sf'.cur))
      · exact returns_ok.mpr
          (hdescend (h.inv.token_read hcall hfound hcom hpos) rfl (hunread _ _))
  · rw [returns_ok]
    refine ⟨h, ?_⟩
    by_cases hmore : f.more = true
    · by_cases hpos : f.pos ≤ 5
      · exact .inr (.inr (not_lt.mp fun hheld => hstop ⟨hmore, hpos, hheld⟩))
      · exact .inr (.inl (by omega))
    · exact .inl (by simpa using hmore)

theorem fetch_spec (h : FoldInv s f) : Returns (fetch lookup n f) fun f' =>
    Fetched s f f' ∧ (f'.more = false ∨ 5 < f'.pos ∨ n ≤ f'.pos - f'.left) :=
  returns_rounds (fun _ hf => fetchRound_spec hf) ⟨h, rfl, .inl rfl⟩
    (by have := unread_le f; omega)

end Fetch

end OctopusWaf.Libinjection
