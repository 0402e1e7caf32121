import OctopusWaf.SqliSpans

/-! The tokenizer: white bytes are passed, and any other byte starts a token. -/
namespace OctopusWaf.Libinjection
open CMachine CString

variable {lookup : ptr_lookup_fn} {sf : sfilter}

/-- What a parser relies on in the byte it is called for. -/
def Expects : pt2Function → UInt8 → Prop
  | .parse_char, c => c ≠ 0
  | .parse_hash, c => c = chr '#'
  | .parse_dash, c => c = chr '-'
  | .parse_money, c => c = chr '$'
  | .parse_string, c => c ≠ 92
  | .parse_number, c => ISDIGIT c = true ∨ c = chr '.'
  | .parse_word, c | .parse_estring, c | .parse_ustring, c | .parse_qstring, c
  | .parse_nqstring, c | .parse_bstring, c | .parse_xstring, c => WordStart c
  | _, _ => True

instance (p : pt2Function) (c : UInt8) : Decidable (Expects p c) := by
  cases p <;> unfold Expects <;> infer_instance

/-- The table sends every byte to a parser that is made for it. -/
theorem charParser_expects (c : UInt8) : Expects (charParser c) c := by
  have h : ∀ i : Fin 256, Expects (charParser (UInt8.ofNat i)) (UInt8.ofNat i) := by
    decide +kernel
  have hc := h ⟨c.toNat, c.toNat_lt⟩
  rwa [UInt8.ofNat_toNat] at hc

/-- A byte that the tokenizer passes: control characters, the blank and the Latin-1
non-breaking space. -/
def isWhite (c : UInt8) : Bool := charParser c = .parse_white

theorem isWhite_iff (c : UInt8) : isWhite c = true ↔ c ≤ 32 ∨ c = 127 ∨ c = 160 := by
  have h : ∀ i : Fin 256, isWhite (UInt8.ofNat i) = true ↔
      UInt8.ofNat i ≤ 32 ∨ UInt8.ofNat i = 127 ∨ UInt8.ofNat i = 160 := by decide +kernel
  have hc := h ⟨c.toNat, c.toNat_lt⟩
  rwa [UInt8.ofNat_toNat] at hc

/-- Every other parser reads a token. -/
theorem run_reads {p : pt2Function} (hp : p ≠ .parse_white) (hc : sf.cur.Cleared)
    (h : sf.pos < sf.s.length) (hexp : Expects p (readAt sf.s sf.pos)) :
    Returns (p.run lookup sf) (Reads sf) := by
  cases p with
  | parse_white => exact absurd rfl hp
  | parse_operator1 => exact parse_operator1_reads hc h
  | parse_operator2 => exact parse_operator2_reads hc h
  | parse_other => exact parse_other_reads hc h
  | parse_char => exact parse_char_reads hc h hexp
  | parse_hash => exact parse_hash_reads hc h hexp
  | parse_dash => exact parse_dash_reads hc h hexp
  | parse_slash => exact parse_slash_reads hc h
  | parse_backslash => exact parse_backslash_reads hc h
  | parse_string => exact parse_string_reads (.refl sf) hc hexp le_rfl h
  | parse_word => exact parse_word_reads hc h hexp
  | parse_estring => exact parse_estring_reads hc h hexp
  | parse_ustring => exact parse_ustring_reads hc h hexp
  | parse_qstring => exact parse_qstring_core_reads hc h hexp 0
  | parse_nqstring => exact parse_nqstring_reads hc h hexp
  | parse_bstring => exact parseDigitString_reads hc h hexp _
  | parse_xstring => exact parseDigitString_reads hc h hexp _
  | parse_bword => exact parse_bword_reads hc h
  | parse_tick => exact parse_tick_reads (.refl sf) hc le_rfl h
  | parse_var => exact parse_var_reads hc h
  | parse_money => exact parse_money_reads hc h hexp
  | parse_number => exact parse_number_reads hc h hexp

/-- From `a` up to `b` there are only white bytes. -/
def WhiteBetween (s : List UInt8) (a b : ℕ) : Prop :=
  ∀ i, a ≤ i → i < b → isWhite (readAt s i) = true

/-- The tokenizer returned a token: white bytes up to `a`, and then the piece of the input
that the token is cut from. -/
structure Found (sf sf' : sfilter) (a : ℕ) : Prop where
  frame : Frame sf { sf' with stats_tokens := sf.stats_tokens }
  counted : sf'.stats_tokens = sf.stats_tokens + 1
  start : sf.pos ≤ a
  white : WhiteBetween sf.s sf.pos a
  progress : a < sf'.pos
  token : Scanned sf.s a sf'.pos sf'.cur

/-- There is no token left: only white bytes to the end of the input. -/
structure Exhausted (sf sf' : sfilter) : Prop where
  frame : Frame sf sf'
  pos : sf'.pos = sf.slen
  cur : sf'.cur = st_clear ∨ sf'.cur = sf.cur
  white : WhiteBetween sf.s sf.pos sf.slen

def Tokenized (sf : sfilter) (r : Bool × sfilter) : Prop :=
  if r.1 then ∃ a, Found sf r.2 a else Exhausted sf r.2

/-- Where the loop of the tokenizer is: in white bytes, with a cleared token. -/
structure Skipping (sf sf' : sfilter) : Prop where
  frame : Frame sf sf'
  cleared : sf'.cur = st_clear
  start : sf.pos ≤ sf'.pos
  bound : sf'.pos ≤ sf.slen
  white : WhiteBetween sf.s sf.pos sf'.pos

theorem tokenRound_spec {sf' : sfilter} (hs : Skipping sf sf') :
    Returns (tokenRound lookup sf')
      (Descends (Skipping sf) (fun t => sf.slen - t.pos) (Tokenized sf) sf') := by
  have hslen : sf'.slen = sf.slen := congrArg List.length hs.frame.s
  unfold tokenRound
  refine Returns.ite (fun hlt => ?_) fun hge => ?_
  · have hlt' : sf'.pos < sf'.s.length := hlt
    rw [readInput_ok hlt', ok_bind]
    by_cases hp : charParser (readAt sf'.s sf'.pos) = .parse_white
    · -- a white byte
      rw [hp, show pt2Function.run lookup .parse_white sf' = .ok (sf'.pos + 1, sf') from rfl,
        ok_bind]
      have hzero : ¬ ({ sf' with pos := sf'.pos + 1 } : sfilter).cur.type ≠ CHAR_NULL := by
        rw [show ({ sf' with pos := sf'.pos + 1 } : sfilter).cur = sf'.cur from rfl, hs.cleared]
        decide
      dsimp only
      rw [if_neg hzero, returns_ok]
      refine ⟨⟨hs.frame.trans (frame_counters _ _ _ _), hs.cleared, ?_, ?_, fun i hi hlt => ?_⟩, ?_⟩
      · exact hs.start.trans (Nat.le_succ _)
      · rw [← hslen]
        exact hlt
      · rcases Nat.lt_succ_iff_lt_or_eq.mp hlt with hi' | rfl
        · exact hs.white i hi hi'
        · rw [← hs.frame.s]
          exact decide_eq_true hp
      · dsimp only
        omega
    · refine (run_reads hp (by rw [stoken_t.Cleared, hs.cleared]) hlt'
        (charParser_expects _)).bind fun r hr => ?_
      obtain ⟨next, sf''⟩ := r
      have htyped : ({ sf'' with pos := next } : sfilter).cur.type ≠ CHAR_NULL := hr.token.typed
      dsimp only
      rw [if_pos htyped, returns_ok]
      have hframe := hs.frame.trans hr.frame
      have htoken := hr.token
      rw [hs.frame.s] at htoken
      refine ⟨sf'.pos, ?_, ?_, hs.start, hs.white, hr.progress, htoken⟩
      · exact ⟨hframe.s, hframe.flags, hframe.current, hframe.tokenvec, hframe.fingerprint,
          hframe.folds, rfl⟩
      · rw [← hframe.tokens]
  · rw [returns_ok]
    have heq : sf'.pos = sf.slen := by
      have := hs.bound
      omega
    exact ⟨hs.frame, heq, .inl hs.cleared, heq ▸ hs.white⟩

/-- The tokenizer completes: with the next token, or at the end of the input. -/
theorem tokenize_spec (h : sf.pos ≤ sf.slen) :
    Returns (libinjection_sqli_tokenize lookup sf) (Tokenized sf) := by
  unfold libinjection_sqli_tokenize
  refine Returns.ite (fun hzero => ?_) fun hne => ?_
  · rw [returns_ok]
    have heq : sf.pos = sf.slen := by omega
    exact ⟨.refl sf, heq, .inr rfl, fun i hi hlt => by omega⟩
  have hclear := frame_setCurrent sf st_clear
  have hcur := cur_setCurrent sf st_clear
  have hpos : 0 < sf.s.length := Nat.pos_of_ne_zero hne
  dsimp only
  refine Returns.ite (fun hquote => ?_) fun _ => ?_
  · -- the input is taken to start inside a string
    obtain ⟨hzero, hflag⟩ := hquote
    have hzero : sf.pos = 0 := hzero
    have hdelim : flag2delim (sf.setCurrent st_clear).flags ≠ 92 := by
      unfold flag2delim
      split_ifs <;> decide
    have hstring : Returns (stringCurrent (sf.setCurrent st_clear)
        (flag2delim (sf.setCurrent st_clear).flags) 0) fun r => Reads sf r ∧ _ :=
      stringCurrent_reads hclear (by rw [hcur]; rfl) hdelim (by simp) h (by omega)
    rw [stringCurrent] at hstring
    obtain ⟨r, hr, hreads, -⟩ := hstring
    obtain ⟨core, hcore, hr⟩ := bind_ok hr
    obtain rfl := Except.ok.inj hr
    rw [pos_setCurrent, hzero] at hcore
    rw [hcore, ok_bind, returns_ok]
    have htoken := hreads.token
    have hprogress := hreads.progress
    have hframe := hreads.frame
    refine ⟨0, ?_, rfl, hzero.le, fun i _ hi => by omega, by rwa [hzero] at hprogress, ?_⟩
    · exact ⟨hframe.s, hframe.flags, hframe.current, hframe.tokenvec, hframe.fingerprint,
        hframe.folds, rfl⟩
    · rwa [hzero] at htoken
  · refine returns_rounds (I := Skipping sf) (m := fun t => sf.slen - t.pos)
      (fun t ht => tokenRound_spec ht) ⟨hclear, hcur, le_rfl, h, fun i hi hlt => ?_⟩ ?_
    · rw [pos_setCurrent] at hlt
      omega
    · rw [show (sf.setCurrent st_clear).slen = sf.slen from rfl]
      omega

section Exact

variable {sf' : sfilter} {k next : ℕ}

/-- A white byte is passed. -/
theorem tokenRound_white (hcur : sf.cur = st_clear) (hpos : sf.pos < sf.slen)
    (hwhite : isWhite (readAt sf.s sf.pos) = true) :
    tokenRound lookup sf = .ok (.inr { sf with pos := sf.pos + 1 }) := by
  have hp : charParser (readAt sf.s sf.pos) = .parse_white := of_decide_eq_true hwhite
  have hrun : pt2Function.run lookup .parse_white sf = .ok (sf.pos + 1, sf) := rfl
  have htype : ¬ sf.cur.type ≠ CHAR_NULL := by
    rw [hcur]
    decide
  unfold tokenRound
  rw [if_pos hpos, readInput_ok hpos, ok_bind, hp, hrun, ok_bind]
  exact if_neg htype

theorem rounds_white {n : ℕ} (hcur : sf.cur = st_clear) (hk : sf.pos + k ≤ sf.slen)
    (hwhite : WhiteBetween sf.s sf.pos (sf.pos + k)) :
    rounds .diverges (tokenRound lookup) (n + k) sf =
      rounds .diverges (tokenRound lookup) n { sf with pos := sf.pos + k } := by
  induction k generalizing sf with
  | zero => rfl
  | succ k ih =>
    have hround := @tokenRound_white lookup sf hcur (by omega) (hwhite sf.pos le_rfl (by omega))
    rw [← Nat.add_assoc, rounds_again hround]
    have hnext : sf.pos + 1 + k = sf.pos + (k + 1) := by omega
    have hrest := @ih { sf with pos := sf.pos + 1 } hcur (by dsimp only; exact hnext ▸ hk)
      fun i hi hlt => hwhite i (by dsimp only at hi; omega) (by dsimp only at hlt; omega)
    rw [hrest]
    dsimp only
    rw [hnext]

/-- Any other byte starts the token that is returned. -/
theorem tokenRound_token {p : pt2Function} (hpos : sf.pos < sf.slen)
    (hp : charParser (readAt sf.s sf.pos) = p) (hrun : p.run lookup sf = .ok (next, sf'))
    (htype : sf'.cur.type ≠ CHAR_NULL) : tokenRound lookup sf =
      .ok (.inl (true, { sf' with pos := next, stats_tokens := sf'.stats_tokens + 1 })) := by
  unfold tokenRound
  rw [if_pos hpos, readInput_ok hpos, ok_bind, hp, hrun, ok_bind]
  exact if_pos htype

/-- The next token, after white bytes, outside a quote. -/
theorem tokenize_token {p : pt2Function}
    (hflag : ¬ hasFlag sf.flags (FLAG_QUOTE_SINGLE ||| FLAG_QUOTE_DOUBLE))
    (hk : sf.pos + k < sf.slen) (hwhite : WhiteBetween sf.s sf.pos (sf.pos + k))
    (hp : charParser (readAt sf.s (sf.pos + k)) = p)
    (hrun : p.run lookup { sf.setCurrent st_clear with pos := sf.pos + k } = .ok (next, sf'))
    (htype : sf'.cur.type ≠ CHAR_NULL) : libinjection_sqli_tokenize lookup sf =
      .ok (true, { sf' with pos := next, stats_tokens := sf'.stats_tokens + 1 }) := by
  have hne : sf.slen ≠ 0 := by omega
  have hquote : ¬ ((sf.setCurrent st_clear).pos = 0 ∧
      hasFlag (sf.setCurrent st_clear).flags (FLAG_QUOTE_SINGLE ||| FLAG_QUOTE_DOUBLE)) :=
    fun h => hflag h.2
  have hcur := cur_setCurrent sf st_clear
  have hrounds : sf.slen + 1 = sf.slen - k + 1 + k := by omega
  unfold libinjection_sqli_tokenize
  rw [if_neg hne]
  dsimp only
  rw [if_neg hquote, show (sf.setCurrent st_clear).slen = sf.slen from rfl, hrounds,
    rounds_white hcur hk.le hwhite]
  exact rounds_leave (tokenRound_token hk hp hrun htype) _

end Exact

/-- A call of the tokenizer: where it began to read, where it stopped, and its token. -/
structure Piece where
  start : ℕ
  stop : ℕ
  token : stoken_t

/-- Calls that return a token each, one after the other. In between the cells may be moved
around and `current` may be pointed elsewhere. -/
inductive Calls (lookup : ptr_lookup_fn) (sf : sfilter) : List Piece → sfilter → Prop
  | none : Calls lookup sf [] sf
  | moved {pieces : List Piece} {sf₁ sf₂ : sfilter} : Calls lookup sf pieces sf₁ →
      sf₂.s = sf₁.s → sf₂.pos = sf₁.pos → Calls lookup sf pieces sf₂
  | call {pieces : List Piece} {sf₁ sf₂ : sfilter} : Calls lookup sf pieces sf₁ →
      libinjection_sqli_tokenize lookup sf₁ = .ok (true, sf₂) →
      Calls lookup sf (pieces ++ [⟨sf₁.pos, sf₂.pos, sf₂.cur⟩]) sf₂

/-- The pieces follow one another from `lo` to `hi`: white bytes first, and then the bytes
the token was cut from. -/
inductive Tiles (s : List UInt8) : ℕ → List Piece → ℕ → Prop
  | nil (lo : ℕ) : Tiles s lo [] lo
  | snoc {lo a : ℕ} {pieces : List Piece} {p : Piece} : Tiles s lo pieces p.start →
      p.start ≤ a → a < p.stop → WhiteBetween s p.start a → Scanned s a p.stop p.token →
      Tiles s lo (pieces ++ [p]) p.stop

theorem Tiles.length_le {s : List UInt8} {lo hi : ℕ} {pieces : List Piece}
    (h : Tiles s lo pieces hi) : pieces.length + lo ≤ hi := by
  induction h with
  | nil => simp
  | snoc _ hstart hstop _ _ ih =>
    rw [List.length_append, List.length_singleton]
    omega

/-- What a run of calls keeps. -/
theorem Calls.tiles {sf sf' : sfilter} {pieces : List Piece} (h : Calls lookup sf pieces sf')
    (hpos : sf.pos ≤ sf.slen) :
    sf'.s = sf.s ∧ sf'.pos ≤ sf.slen ∧ Tiles sf.s sf.pos pieces sf'.pos := by
  induction h with
  | none => exact ⟨rfl, hpos, .nil sf.pos⟩
  | moved _ hs hp ih => exact ⟨hs.trans ih.1, hp ▸ ih.2.1, hp ▸ ih.2.2⟩
  | @call pieces sf₁ sf₂ _ hcall ih =>
    obtain ⟨hs, hbound, htiles⟩ := ih
    have hslen : sf₁.slen = sf.slen := congrArg List.length hs
    have hspec : Tokenized sf₁ (true, sf₂) := (tokenize_spec (hslen ▸ hbound)).of_ok hcall
    obtain ⟨a, hfound⟩ := hspec
    have hfound : Found sf₁ sf₂ a := hfound
    have htoken := hfound.token
    have hwhite := hfound.white
    rw [hs] at htoken hwhite
    exact ⟨hfound.frame.s.trans hs, htoken.inside,
      .snoc htiles hfound.start hfound.progress hwhite htoken⟩

/-- However the fold calls it, the tokenizer returns, and it splits the input: every token is
cut from the place where the last one ended, with only white bytes skipped, and only white
bytes are left when there is no further token. -/
theorem tokenize_calls_tile (lookup : ptr_lookup_fn) (input : List UInt8) (flags : ℕ)
    {sf : sfilter} {pieces : List Piece}
    (hcalls : Calls lookup (libinjection_sqli_init input flags) pieces sf) :
    Tiles input 0 pieces sf.pos ∧ pieces.length ≤ sf.pos ∧
      ∃ more sf', libinjection_sqli_tokenize lookup sf = .ok (more, sf') ∧ sf.pos ≤ sf'.pos ∧
        sf'.pos ≤ input.length ∧
          (more = false → sf'.pos = input.length ∧ WhiteBetween input sf.pos input.length) := by
  obtain ⟨hs, hbound, htiles⟩ := hcalls.tiles (Nat.zero_le _)
  have hs : sf.s = input := hs
  have hslen : sf.slen = input.length := congrArg List.length hs
  have hbound : sf.pos ≤ input.length := hbound
  have hlength : pieces.length + 0 ≤ sf.pos := htiles.length_le
  refine ⟨htiles, by omega, ?_⟩
  obtain ⟨r, hr, hspec⟩ := @tokenize_spec lookup sf (hslen ▸ hbound)
  obtain ⟨more, sf'⟩ := r
  refine ⟨more, sf', hr, ?_⟩
  cases more with
  | true =>
    obtain ⟨a, hfound⟩ := hspec
    have hfound : Found sf sf' a := hfound
    have hinside := hfound.token.inside
    rw [hs] at hinside
    exact ⟨(hfound.start.trans_lt hfound.progress).le, hinside, nofun⟩
  | false =>
    have hex : Exhausted sf sf' := hspec
    have hend : sf'.pos = input.length := hex.pos.trans hslen
    have hwhite := hex.white
    rw [hslen, hs] at hwhite
    exact ⟨hend.symm ▸ hbound, hend.le, fun _ => ⟨hend, hwhite⟩⟩

/-- Two calls, on a number and an operator. -/
theorem tokenize_calls_tile_pair : ∃ pieces : List Piece, pieces.length = 2 ∧
    Tiles (ascii "1 =") 0 pieces 3 :=
  ⟨_, rfl, (tokenize_calls_tile (fun _ => 0) (ascii "1 =") 0 (.call (.call .none rfl) rfl)).1⟩

end OctopusWaf.Libinjection
