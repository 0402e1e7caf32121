import OctopusWaf.SqliFingerprint
import OctopusWaf.SqliFoldRules

/-! The analysis completes on every input, and a verdict against an input names a fingerprint
of the table. -/
namespace OctopusWaf.Libinjection
open CMachine CString

variable {lookup : ptr_lookup_fn} {sql_keywords : KeywordTable} {s : List UInt8} {sf sf' : sfilter}
  {n : ℕ}

/-- What is read off a fingerprint: it has at most five types of the first tokens. -/
structure Fingerprinted (s : List UInt8) (sf : sfilter) : Prop where
  input : sf.s = s
  short : sf.print.length ≤ 5
  counted : sf.print.length ≤ sf.stats_tokens
  types : ∀ i : Fin 8, i.val < sf.print.length → readAt sf.print i = (sf.tokenvec i).type
  evil : TYPE_EVIL ∈ sf.print → sf.print = [TYPE_EVIL]
  shaped : ∀ i, Shaped (sf.tokenvec i)
  pair : sf.print.length = 2 → sf.stats_tokens ≤ 2 → (sf.tokenvec 1).type = TYPE_COMMENT →
    CommentAt s (sf.tokenvec 1) ∧
      (sf.tokenvec 0).pos + (sf.tokenvec 0).len ≤ (sf.tokenvec 1).pos

theorem backtickComment_spec (h : FoldResult s (n, sf)) :
    Returns (backtickComment sf n) fun sf' => FoldResult s (n, sf') := by
  have hfew : n ≤ 6 := h.few
  unfold backtickComment
  refine Returns.ite (fun htwo => ?_) fun _ => returns_ok.mpr h
  have hlast : n - 1 < 8 := by omega
  rw [getToken_ok hlast, ok_bind]
  refine Returns.ite (fun hc => ?_) fun _ => returns_ok.mpr h
  rw [setToken_ok hlast]
  have hcomment : Shaped { sf.tokenvec ⟨n - 1, hlast⟩ with type := TYPE_COMMENT } :=
    ⟨(h.shaped _).cells, (h.shaped _).short⟩
  refine returns_ok.mpr ⟨h.input, h.few, h.counted, fun hsix => ?_, ?_, ?_,
    fun hpair => absurd hpair (by dsimp only; omega)⟩
  · have hfive : (⟨n - 1, hlast⟩ : Fin 8) = 5 := Fin.ext (by dsimp only at hsix ⊢; omega)
    have hevil := h.sixth hsix
    rw [hfive] at hc
    exact absurd (hc.1.symm.trans hevil) (by decide)
  · exact (Function.forall_update_iff sf.tokenvec (p := fun _ => Shaped)).mpr
      ⟨hcomment, fun j _ => h.shaped j⟩
  · exact (Function.forall_update_iff sf.tokenvec
      (p := fun j t => j.val < n → t.type ≠ CHAR_NULL)).mpr
        ⟨fun _ => by dsimp only; decide, fun j _ => h.typed j⟩

/-- The types of the first `n` tokens. -/
def sfilter.firstTypes (sf : sfilter) (n : ℕ) : List UInt8 := (List.range n).map sf.types

theorem readAt_firstTypes {i : Fin 8} (hi : i.val < n) :
    readAt (sf.firstTypes n) i = (sf.tokenvec i).type := by
  simp [sfilter.firstTypes, sfilter.types, readAt, hi]

theorem writeFingerprint_ok (hn : n ≤ 6) : writeFingerprint sf n = .ok { sf with
    fingerprint := sf.firstTypes n ++ CHAR_NULL :: sf.fingerprint.drop (n + 1) } := by
  have htypes : ((List.range n).mapM fun i => stoken_t.type <$> getToken sf i) =
      .ok (sf.firstTypes n) := mapM_ok fun i hi => by
    have hlt : i < 8 := by
      have := List.mem_range.mp hi
      omega
    rw [getToken_ok hlt, types_eq hlt]
    rfl
  rw [writeFingerprint, htypes, ok_bind, if_pos (by omega)]

/-- The fingerprint that stands for all that cannot be parsed with certainty. -/
theorem evilFingerprint_spec (hshaped : ∀ i, Shaped (sf.tokenvec i))
    (hcounted : 0 < sf.stats_tokens) :
    Returns (evilFingerprint sf) (Fingerprinted sf.s) := by
  have hevil : Shaped { sf.tokenvec 0 with
      type := TYPE_EVIL, val := TYPE_EVIL :: List.replicate 31 0 } := ⟨by simp, (hshaped 0).short⟩
  have hblank : Shaped { sf.tokenvec 1 with type := CHAR_NULL } :=
    ⟨(hshaped 1).cells, (hshaped 1).short⟩
  have hprint (rest : List UInt8) : cstr (TYPE_EVIL :: List.replicate 5 0 ++ rest) = [TYPE_EVIL] :=
    rfl
  refine ⟨_, rfl, ⟨rfl, ?_, ?_, ?_, ?_, ?_, ?_⟩⟩
  · dsimp only [sfilter.print]
    rw [hprint]
    decide
  · dsimp only [sfilter.print]
    rw [hprint]
    exact hcounted
  · dsimp only [sfilter.print]
    rw [hprint]
    intro i hi
    rw [show i = 0 from Fin.ext (by simpa using hi)]
    rfl
  · dsimp only [sfilter.print]
    rw [hprint]
    exact fun _ => rfl
  · exact (Function.forall_update_iff _ (p := fun _ => Shaped)).mpr
      ⟨hblank, (Function.forall_update_iff _ (p := fun j t => j ≠ 1 → Shaped t)).mpr
        ⟨fun _ => hevil, fun j _ _ => hshaped j⟩⟩
  · dsimp only [sfilter.print]
    rw [hprint]
    exact fun htwo => absurd htwo (by decide)

/-- The fingerprint of an input, in any state that holds the input. -/
theorem fingerprint_spec (sf : sfilter) (flags : ℕ) :
    Returns (libinjection_sqli_fingerprint lookup sf flags) (Fingerprinted sf.s) := by
  have hfold : Returns (libinjection_sqli_fold lookup (libinjection_sqli_reset sf flags))
      (FoldResult sf.s) := fold_spec rfl (Nat.zero_le _) fun _ => shaped_clear
  unfold libinjection_sqli_fingerprint
  refine hfold.bind fun r hr => ?_
  obtain ⟨n, sf₁⟩ := r
  refine (backtickComment_spec hr).bind fun sf₂ h₂ => ?_
  have hfew : n ≤ 6 := h₂.few
  rw [writeFingerprint_ok hfew, ok_bind]
  have hnonzero : ∀ c ∈ sf₂.firstTypes n, c ≠ 0 := fun c hc => by
    obtain ⟨i, hi, rfl⟩ := List.mem_map.mp hc
    have hlt : i < n := List.mem_range.mp hi
    have height : i < 8 := by omega
    rw [types_eq height]
    exact h₂.typed ⟨i, height⟩ hlt
  have hprint : cstr (sf₂.firstTypes n ++ CHAR_NULL :: sf₂.fingerprint.drop (n + 1)) =
      sf₂.firstTypes n := by rw [cstr_append hnonzero, cstr_zero, List.append_nil]
  have hlen : (sf₂.firstTypes n).length = n := by simp [sfilter.firstTypes]
  have hstr : strchr (sf₂.firstTypes n ++ CHAR_NULL :: sf₂.fingerprint.drop (n + 1)) TYPE_EVIL =
      true ↔ TYPE_EVIL ∈ sf₂.firstTypes n := by
    rw [strchr, hprint]
    simp
  refine Returns.ite (fun hevil => ?_) fun hplain => returns_ok.mpr ?_
  · have hin := List.length_pos_of_mem (hstr.mp hevil)
    have hcounted := h₂.counted
    have hspec := @evilFingerprint_spec { sf₂ with
      fingerprint := sf₂.firstTypes n ++ CHAR_NULL :: sf₂.fingerprint.drop (n + 1) } h₂.shaped
        (by dsimp only at hcounted ⊢; omega)
    rwa [show sf.s = sf₂.s from h₂.input.symm]
  · rw [hstr] at hplain
    have hsf : sfilter.print { sf₂ with
        fingerprint := sf₂.firstTypes n ++ CHAR_NULL :: sf₂.fingerprint.drop (n + 1) } =
          sf₂.firstTypes n := hprint
    -- a sixth token would be an evil one
    have hsix : n ≠ 6 := by
      intro hsix
      exact hplain (List.mem_map.mpr ⟨5, List.mem_range.mpr (by omega), h₂.sixth hsix⟩)
    refine ⟨h₂.input, ?_, ?_, ?_, ?_, h₂.shaped, ?_⟩
    · rw [hsf, hlen]
      omega
    · rw [hsf, hlen]
      exact h₂.counted
    · rw [hsf, hlen]
      exact fun i hi => readAt_firstTypes hi
    · rw [hsf]
      exact fun h => absurd h hplain
    · rw [hsf, hlen]
      exact h₂.pair

/-- The table lists the fingerprint as one of an injection. -/
def KeywordTable.Lists (sql_keywords : KeywordTable) (fingerprint : List UInt8) : Prop :=
  ∃ k ∈ sql_keywords.entries,
    k.word = chr '0' :: fingerprint.map upcase ∧ k.type = TYPE_FINGERPRINT

theorem upcase_upcase (c : UInt8) : upcase (upcase c) = upcase c := by
  unfold upcase
  grind

theorem is_keyword_fingerprint (fingerprint : List UInt8) :
    is_keyword sql_keywords (chr '0' :: fingerprint.map upcase) = TYPE_FINGERPRINT ↔
      sql_keywords.Lists fingerprint := by
  have hkey : (chr '0' :: fingerprint.map upcase).map upcase =
      chr '0' :: fingerprint.map upcase := by
    rw [List.map_cons, List.map_map, show upcase (chr '0') = chr '0' from rfl,
      show upcase ∘ upcase = upcase from funext upcase_upcase]
  unfold is_keyword
  constructor
  · intro h
    by_contra hno
    have hnone : ∀ k ∈ sql_keywords.entries,
        k.word ≠ (chr '0' :: fingerprint.map upcase).map upcase := by
      intro k hk heq
      rw [bsearch_hit hk heq] at h
      exact hno ⟨k, hk, heq.trans hkey, h⟩
    rw [bsearch_miss hnone] at h
    exact absurd h (by decide)
  · intro h
    obtain ⟨k, hk, heq, htype⟩ := h
    rw [bsearch_hit hk (heq.trans hkey.symm), htype]

/-- Only a fingerprint that the table lists is held against the input. -/
theorem blacklist_spec (h : Fingerprinted s sf) :
    Returns (libinjection_sqli_blacklist sql_keywords sf) fun hit =>
      hit = true → sf.print ≠ [] ∧ sql_keywords.Lists sf.print := by
  have hshort := h.short
  unfold libinjection_sqli_blacklist
  refine Returns.ite (fun _ => returns_ok.mpr (by simp)) fun hlen => ?_
  have hne : sf.print ≠ [] := fun hnil => hlen (by rw [hnil]; decide)
  refine Returns.ite (fun _ => returns_ok.mpr fun hit => ⟨hne, ?_⟩) fun hno => ?_
  · exact (is_keyword_fingerprint sf.print).mp (of_decide_eq_true hit)
  · exact absurd (by omega) hno

/-- The byte after the number and, where it is looked at, the next one are in the input. -/
theorem numberComment_spec {t : stoken_t} (ht : CommentAt s t) (hn : n ≤ t.pos) :
    Returns (numberComment s n) fun _ => True := by
  have hin := ht.inside
  have hnext (hop : readAt s n = chr '/' ∨ readAt s n = chr '-') :
      readInput s (n + 1) = .ok (readAt s (n + 1)) := by
    refine readInput_ok ?_
    rcases hn.eq_or_lt with heq | hlt
    · have htwo := ht.two (heq ▸ hop)
      omega
    · omega
  have hsecond (c d : UInt8) (hc : c = chr '/' ∨ c = chr '-') :
      Returns (andAlso (readAt s n = c) do
        let x ← readInput s (n + 1)
        .ok (x = d)) fun _ => True := by
    refine Returns.andAlso (fun heq => ?_) fun _ => trivial
    rw [hnext (heq ▸ hc), ok_bind]
    exact returns_ok.mpr trivial
  unfold numberComment
  rw [readInput_ok (by omega), ok_bind]
  refine Returns.ite (fun _ => returns_ok.mpr trivial) fun _ => ?_
  refine (hsecond (chr '/') (chr '*') (.inl rfl)).bind fun comment _ => ?_
  exact Returns.ite (fun _ => returns_ok.mpr trivial) fun _ => hsecond (chr '-') (chr '-') (.inr rfl)

theorem whitelistTwo_spec (h : Fingerprinted s sf) (htwo : sf.print.length = 2) :
    Returns (whitelistTwo sf) fun _ => True := by
  have hany (b : Bool) : Returns (.ok b : Except Fault Bool) fun _ => True :=
    returns_ok.mpr trivial
  unfold whitelistTwo
  rw [show getToken sf 0 = .ok (sf.tokenvec 0) from rfl, ok_bind,
    show getToken sf 1 = .ok (sf.tokenvec 1) from rfl, ok_bind]
  refine Returns.ite (fun _ => hany _) fun _ => ?_
  refine Returns.ite (fun _ => hany _) fun _ => ?_
  refine Returns.ite (fun _ => hany _) fun _ => ?_
  refine Returns.ite (fun _ => hany _) fun _ => ?_
  refine Returns.ite (fun hc => ?_) fun _ => Returns.ite (fun _ => hany _) fun _ => hany _
  refine Returns.ite (fun _ => hany _) fun hstats => ?_
  obtain ⟨hcomment, hends⟩ := h.pair htwo (not_lt.mp hstats) hc.2
  rw [h.input]
  exact numberComment_spec hcomment ((Nat.le_add_left _ _).trans hends)

theorem whitelistThree_spec (sf : sfilter) : Returns (whitelistThree sf) fun _ => True := by
  have hany (b : Bool) : Returns (.ok b : Except Fault Bool) fun _ => True :=
    returns_ok.mpr trivial
  unfold whitelistThree
  rw [show getToken sf 0 = .ok (sf.tokenvec 0) from rfl, ok_bind,
    show getToken sf 1 = .ok (sf.tokenvec 1) from rfl, ok_bind,
    show getToken sf 2 = .ok (sf.tokenvec 2) from rfl, ok_bind]
  refine Returns.ite (fun _ => hany _) fun _ => ?_
  refine Returns.ite (fun _ => hany _) fun _ => ?_
  exact Returns.ite (fun _ => hany _) fun _ => hany _

theorem not_whitelist_spec (h : Fingerprinted s sf) :
    Returns (libinjection_sqli_not_whitelist sf) fun _ => True := by
  have hpassword : Returns (andAlso (1 < sf.print.length ∧
      readAt sf.fingerprint (sf.print.length - 1) = TYPE_COMMENT) do
        let found ← my_memmem sf.s (ascii "sp_password")
        .ok found.isSome : Except Fault Bool) fun _ => True := by
    refine Returns.andAlso (fun _ => ?_) fun _ => trivial
    exact (my_memmem_spec (by decide)).bind fun _ _ => returns_ok.mpr trivial
  unfold libinjection_sqli_not_whitelist
  refine hpassword.bind fun found _ => ?_
  refine Returns.ite (fun _ => returns_ok.mpr trivial) fun _ => ?_
  refine Returns.ite (fun htwo => whitelistTwo_spec h htwo) fun _ => ?_
  exact Returns.ite (fun _ => whitelistThree_spec sf) fun _ => returns_ok.mpr trivial

theorem check_fingerprint_spec (h : Fingerprinted s sf) :
    Returns (libinjection_sqli_check_fingerprint sql_keywords sf) fun hit =>
      hit = true → sf.print ≠ [] ∧ sql_keywords.Lists sf.print := by
  unfold libinjection_sqli_check_fingerprint
  refine (blacklist_spec h).bind fun hit hlisted => ?_
  refine Returns.ite (fun hit => ?_) fun _ => returns_ok.mpr (by simp)
  exact (not_whitelist_spec h).mono fun _ _ _ => hlisted hit

/-- A context is decided, and only against a fingerprint that the table lists. -/
theorem checkContext_spec (sf : sfilter) (flags : ℕ) :
    Returns (checkContext sql_keywords sf flags) fun r => Fingerprinted sf.s r.2 ∧
      (r.1 = true → r.2.print ≠ [] ∧ sql_keywords.Lists r.2.print) := by
  unfold checkContext
  refine (fingerprint_spec sf flags).bind fun sf' hprint => ?_
  exact (check_fingerprint_spec hprint).bind fun hit hlisted =>
    returns_ok.mpr ⟨hprint, hlisted⟩

/-- The input alone in one context. -/
def context (sql_keywords : KeywordTable) (s : List UInt8) (flags : ℕ) :
    Except Fault (Bool × sfilter) :=
  checkContext sql_keywords (libinjection_sqli_init s 0) flags

/-- The input is held to be an injection in the context. -/
def Positive (sql_keywords : KeywordTable) (s : List UInt8) (flags : ℕ) : Prop :=
  ∃ sf, context sql_keywords s flags = .ok (true, sf)

/-- In ANSI mode comments were seen that MySQL reads otherwise. -/
def Reread (sql_keywords : KeywordTable) (s : List UInt8) (quote : ℕ) : Prop :=
  ∃ b sf, context sql_keywords s (quote ||| FLAG_SQL_ANSI) = .ok (b, sf) ∧
    reparse_as_mysql sf = true

/-- The contexts an input is looked at in, unless one before is positive. -/
inductive Tried (sql_keywords : KeywordTable) (s : List UInt8) : ℕ → Prop
  | plain : Tried sql_keywords s (FLAG_QUOTE_NONE ||| FLAG_SQL_ANSI)
  | plainMysql : Reread sql_keywords s FLAG_QUOTE_NONE →
      Tried sql_keywords s (FLAG_QUOTE_NONE ||| FLAG_SQL_MYSQL)
  | single : CHAR_SINGLE ∈ s → Tried sql_keywords s (FLAG_QUOTE_SINGLE ||| FLAG_SQL_ANSI)
  | singleMysql : CHAR_SINGLE ∈ s → Reread sql_keywords s FLAG_QUOTE_SINGLE →
      Tried sql_keywords s (FLAG_QUOTE_SINGLE ||| FLAG_SQL_MYSQL)
  | double : CHAR_DOUBLE ∈ s → Tried sql_keywords s (FLAG_QUOTE_DOUBLE ||| FLAG_SQL_MYSQL)

/-- What a verdict that was reached in one of some contexts says. -/
structure Verdict (sql_keywords : KeywordTable) (s : List UInt8) (contexts : ℕ → Prop)
    (r : Bool × sfilter) : Prop where
  input : r.2.s = s
  exact : r.1 = true ↔ ∃ flags, contexts flags ∧ Positive sql_keywords s flags
  listed : r.1 = true → Fingerprinted s r.2 ∧ r.2.print ≠ [] ∧ sql_keywords.Lists r.2.print

/-- A context depends on the input only, not on what was analysed before. -/
theorem checkContext_verdict (h : sf.s = s) (flags : ℕ) :
    Returns (checkContext sql_keywords sf flags) fun r =>
      context sql_keywords s flags = .ok r ∧ Verdict sql_keywords s (· = flags) r := by
  have hcontext : checkContext sql_keywords sf flags = context sql_keywords s flags := by
    unfold context checkContext libinjection_sqli_fingerprint libinjection_sqli_reset
    rw [h]
    rfl
  obtain ⟨r, hr, hprint, hlisted⟩ := @checkContext_spec sql_keywords sf flags
  rw [h] at hprint
  rw [hcontext] at hr
  refine ⟨r, hcontext.trans hr, hr, hprint.input, ?_, fun hit => ⟨hprint, hlisted hit⟩⟩
  constructor
  · intro hit
    exact ⟨flags, rfl, r.2, hit ▸ hr⟩
  · intro hpos
    obtain ⟨flags', rfl, sf', hsf'⟩ := hpos
    exact congrArg Prod.fst (Except.ok.inj (hr.symm.trans hsf'))

/-- A second look at contexts that were not positive so far. -/
theorem Verdict.or {c₁ c₂ : ℕ → Prop} {r₁ r₂ : Bool × sfilter}
    (h₁ : Verdict sql_keywords s c₁ r₁) (hno : r₁.1 = false)
    (h₂ : Verdict sql_keywords s c₂ r₂) :
    Verdict sql_keywords s (fun flags => c₁ flags ∨ c₂ flags) r₂ := by
  refine ⟨h₂.input, ?_, h₂.listed⟩
  rw [h₂.exact]
  constructor
  · intro h
    obtain ⟨flags, hc, hpos⟩ := h
    exact ⟨flags, .inr hc, hpos⟩
  · intro h
    obtain ⟨flags, hc | hc, hpos⟩ := h
    · exact absurd (h₁.exact.mpr ⟨flags, hc, hpos⟩) (by simp [hno])
    · exact ⟨flags, hc, hpos⟩

/-- The contexts of one quote. -/
def Either (sql_keywords : KeywordTable) (s : List UInt8) (quote flags : ℕ) : Prop :=
  flags = quote ||| FLAG_SQL_ANSI ∨
    (Reread sql_keywords s quote ∧ flags = quote ||| FLAG_SQL_MYSQL)

/-- Nothing is gained by contexts that are not looked at. -/
theorem Verdict.congr {c₁ c₂ : ℕ → Prop} {r : Bool × sfilter}
    (h : Verdict sql_keywords s c₁ r) (hc : ∀ flags, c₁ flags ↔ c₂ flags) :
    Verdict sql_keywords s c₂ r := by
  obtain rfl : c₁ = c₂ := funext fun flags => propext (hc flags)
  exact h

/-- A verdict against the input needs no further context. -/
theorem Verdict.enough {c₁ c₂ : ℕ → Prop} {r : Bool × sfilter}
    (h : Verdict sql_keywords s c₁ r) (hit : r.1 = true) (hc : ∀ flags, c₁ flags → c₂ flags) :
    Verdict sql_keywords s c₂ r := by
  obtain ⟨flags, hin, hpos⟩ := h.exact.mp hit
  exact ⟨h.input, ⟨fun _ => ⟨flags, hc flags hin, hpos⟩, fun _ => hit⟩, h.listed⟩

theorem checkReparsed_verdict (h : sf.s = s) (quote : ℕ) :
    Returns (checkReparsed sql_keywords sf quote)
      (Verdict sql_keywords s (Either sql_keywords s quote)) := by
  unfold checkReparsed
  refine (checkContext_verdict h (quote ||| FLAG_SQL_ANSI)).bind fun r hr => ?_
  obtain ⟨hcontext, hverdict⟩ := hr
  obtain ⟨hit, sf₁⟩ := r
  have hreread : Reread sql_keywords s quote ↔ reparse_as_mysql sf₁ = true := by
    constructor
    · intro hre
      obtain ⟨b, sf₂, hsf₂, hre⟩ := hre
      obtain ⟨-, rfl⟩ := Prod.mk.inj (Except.ok.inj (hcontext.symm.trans hsf₂))
      exact hre
    · exact fun hre => ⟨hit, sf₁, hcontext, hre⟩
  refine Returns.ite (fun htrue => ?_) fun hfalse => ?_
  · obtain rfl : hit = true := htrue
    exact returns_ok.mpr (hverdict.enough rfl fun flags => .inl)
  · have hno : hit = false := by simpa using hfalse
    refine Returns.ite (fun hre => ?_) fun hre => ?_
    · refine (checkContext_verdict hverdict.input (quote ||| FLAG_SQL_MYSQL)).mono fun r hr => ?_
      refine (hverdict.or hno hr.2).congr fun flags => ?_
      simp [Either, hreread.mpr hre]
    · subst hno
      refine returns_ok.mpr (hverdict.congr fun flags => ?_)
      simp [Either, hreread, hre]

theorem memchr_isSome {c : UInt8} : (memchr s c).isSome = true ↔ c ∈ s := by
  simp [memchr]

theorem checkSingle_verdict (h : sf.s = s) : Returns (checkSingle sql_keywords sf)
    (Verdict sql_keywords s fun flags =>
      CHAR_SINGLE ∈ s ∧ Either sql_keywords s FLAG_QUOTE_SINGLE flags) := by
  unfold checkSingle
  rw [h]
  refine Returns.ite (fun hin => ?_) fun hout => ?_
  · have hin := memchr_isSome.mp hin
    exact (checkReparsed_verdict h FLAG_QUOTE_SINGLE).mono fun r hr =>
      hr.congr fun flags => by simp [hin]
  · have hout : CHAR_SINGLE ∉ s := fun h => hout (memchr_isSome.mpr h)
    exact returns_ok.mpr ⟨h, by simp [hout], by simp⟩

theorem checkDouble_verdict (h : sf.s = s) : Returns (checkDouble sql_keywords sf)
    (Verdict sql_keywords s fun flags =>
      CHAR_DOUBLE ∈ s ∧ flags = FLAG_QUOTE_DOUBLE ||| FLAG_SQL_MYSQL) := by
  unfold checkDouble
  rw [h]
  refine Returns.ite (fun hin => ?_) fun hout => ?_
  · have hin := memchr_isSome.mp hin
    exact (checkContext_verdict h _).mono fun r hr => hr.2.congr fun flags => by simp [hin]
  · have hout : CHAR_DOUBLE ∉ s := fun h => hout (memchr_isSome.mpr h)
    exact returns_ok.mpr ⟨h, by simp [hout], by simp⟩

theorem tried_iff (flags : ℕ) : Tried sql_keywords s flags ↔
    Either sql_keywords s FLAG_QUOTE_NONE flags ∨
      (CHAR_SINGLE ∈ s ∧ Either sql_keywords s FLAG_QUOTE_SINGLE flags) ∨
        (CHAR_DOUBLE ∈ s ∧ flags = FLAG_QUOTE_DOUBLE ||| FLAG_SQL_MYSQL) := by
  constructor
  · intro h
    cases h with
    | plain => exact .inl (.inl rfl)
    | plainMysql hre => exact .inl (.inr ⟨hre, rfl⟩)
    | single hin => exact .inr (.inl ⟨hin, .inl rfl⟩)
    | singleMysql hin hre => exact .inr (.inl ⟨hin, .inr ⟨hre, rfl⟩⟩)
    | double hin => exact .inr (.inr ⟨hin, rfl⟩)
  · intro h
    rcases h with (rfl | ⟨hre, rfl⟩) | ⟨hin, rfl | ⟨hre, rfl⟩⟩ | ⟨hin, rfl⟩
    · exact .plain
    · exact .plainMysql hre
    · exact .single hin
    · exact .singleMysql hin hre
    · exact .double hin

/-- Every context is looked at that has to be, and no other one. -/
theorem libinjection_is_sqli_verdict (hs : sf.s = s) (hne : s ≠ []) :
    Returns (libinjection_is_sqli sql_keywords sf)
      (Verdict sql_keywords s (Tried sql_keywords s)) := by
  have hlen : sf.slen ≠ 0 := fun hzero => hne (hs ▸ List.length_eq_zero_iff.mp hzero)
  unfold libinjection_is_sqli
  rw [if_neg hlen]
  refine (checkReparsed_verdict hs FLAG_QUOTE_NONE).bind fun r hr => ?_
  obtain ⟨hit, sf₁⟩ := r
  refine Returns.ite (fun htrue => ?_) fun hfalse => ?_
  · obtain rfl : hit = true := htrue
    exact returns_ok.mpr (hr.enough rfl fun flags h => (tried_iff flags).mpr (.inl h))
  obtain rfl : hit = false := by simpa using hfalse
  refine (checkSingle_verdict hr.input).bind fun r₂ hr₂ => ?_
  obtain ⟨hit, sf₂⟩ := r₂
  refine Returns.ite (fun htrue => ?_) fun hfalse => ?_
  · obtain rfl : hit = true := htrue
    exact returns_ok.mpr (hr₂.enough rfl fun flags h => (tried_iff flags).mpr (.inr (.inl h)))
  obtain rfl : hit = false := by simpa using hfalse
  refine (checkDouble_verdict hr₂.input).mono fun r₃ hr₃ => ?_
  exact (hr.or rfl (hr₂.or rfl hr₃)).congr fun flags => (tried_iff flags).symm

/-- On every input and with every table of words the analysis returns, and no byte outside
the input, no token and no cell of a buffer outside its array is looked at or written. A
verdict against the input comes with a fingerprint of at most five types, which the table
lists; there is no other verdict with one. -/
theorem libinjection_sqli_returns (sql_keywords : KeywordTable) (input : List UInt8) :
    Returns (libinjection_sqli sql_keywords input) fun r =>
      (r.1 = true → r.2 ≠ [] ∧ r.2.length ≤ 5 ∧ sql_keywords.Lists r.2) ∧
        (r.1 = false → r.2 = []) := by
  unfold libinjection_sqli
  rcases eq_or_ne input [] with rfl | hne
  · exact returns_ok.mpr ⟨by simp, fun _ => rfl⟩
  refine (libinjection_is_sqli_verdict rfl hne).bind fun r hr => returns_ok.mpr ⟨?_, ?_⟩
  · intro hit
    have hlisted := hr.listed hit
    dsimp only at hit ⊢
    rw [if_pos hit]
    exact ⟨hlisted.2.1, hlisted.1.short, hlisted.2.2⟩
  · intro hno
    dsimp only at hno ⊢
    rw [if_neg (by simp [hno])]

/-- The verdict is the disjunction of the contexts that the input calls for. -/
theorem libinjection_sqli_contexts (sql_keywords : KeywordTable) (input : List UInt8) :
    (∃ fingerprint, libinjection_sqli sql_keywords input = .ok (true, fingerprint)) ↔
      input ≠ [] ∧ ∃ flags, Tried sql_keywords input flags ∧ Positive sql_keywords input flags := by
  rcases eq_or_ne input [] with rfl | hne
  · constructor
    · intro h
      obtain ⟨fingerprint, hsqli⟩ := h
      exact absurd (Except.ok.inj (show _ = Except.ok (false, []) from hsqli.symm)) (by simp)
    · exact fun h => absurd rfl h.1
  have hinput : (libinjection_sqli_init input 0).s = input := rfl
  obtain ⟨r, hr, hverdict⟩ := @libinjection_is_sqli_verdict sql_keywords input _ hinput hne
  have hsqli : libinjection_sqli sql_keywords input =
      .ok (r.1, if r.1 then r.2.print else []) := by
    rw [libinjection_sqli, hr, ok_bind]
  rw [hsqli]
  constructor
  · intro h
    obtain ⟨fingerprint, h⟩ := h
    exact ⟨hne, hverdict.exact.mp (congrArg Prod.fst (Except.ok.inj h))⟩
  · intro h
    exact ⟨_, by rw [hverdict.exact.mpr h.2]⟩

end OctopusWaf.Libinjection
