import OctopusWaf.SqliFoldRun

/-! Every rule of the fold keeps the invariant and lowers the rank, so that the fold leaves
with at most five tokens, or six of which the last one is evil. -/
namespace OctopusWaf.Libinjection
open CMachine CString

variable {lookup : ptr_lookup_fn} {s : List UInt8} {f f' g : Folding} {a b : stoken_t}
  {n left folds : ℕ}

/-- What is read off the tokens that are left: they fit the fingerprint, and of a pair whose
second token is a comment nothing was dropped unless more has been counted. -/
structure FoldResult (s : List UInt8) (r : ℕ × sfilter) : Prop where
  input : r.2.s = s
  few : r.1 ≤ 6
  counted : r.1 ≤ r.2.stats_tokens
  sixth : r.1 = 6 → (r.2.tokenvec 5).type = TYPE_EVIL
  shaped : ∀ i, Shaped (r.2.tokenvec i)
  typed : ∀ i : Fin 8, i.val < r.1 → (r.2.tokenvec i).type ≠ CHAR_NULL
  pair : r.1 = 2 → r.2.stats_tokens ≤ 2 → (r.2.tokenvec 1).type = TYPE_COMMENT →
    CommentAt s (r.2.tokenvec 1) ∧
      (r.2.tokenvec 0).pos + (r.2.tokenvec 0).len ≤ (r.2.tokenvec 1).pos

theorem Kept.refl (f : Folding) : Kept f f := ⟨rfl, rfl, rfl, rfl, rfl⟩

/-- Tokens are dropped, of cells that were rewritten since. -/
theorem FoldInv.shrink (h : FoldInv s f) (hk : Kept f g) (hpos : g.pos = f.pos)
    (hshaped : ∀ i, Shaped (g.sf.tokenvec i))
    (htyped : ∀ i : Fin 8, i.val < f.pos → (g.sf.tokenvec i).type ≠ CHAR_NULL)
    (hn : 0 < n) (hleft : left + n ≤ f.pos) : Returns (g.shrink n left folds) (Lower s f) := by
  rw [shrink_ok (by omega), returns_ok]
  refine h.fewer ⟨hk.s, hk.pos, hk.tokens, hk.comment, hk.more⟩ ?_ ?_ hshaped fun i hi => ?_
  · dsimp only
    omega
  · dsimp only
    omega
  · dsimp only at hi
    exact htyped i (by omega)

theorem FoldInv.drop (h : FoldInv s f) (hn : 0 < n) (hleft : left + n ≤ f.pos) :
    Returns (f.shrink n left folds) (Lower s f) :=
  h.shrink (Kept.refl f) rfl h.shaped h.typed hn hleft

@[simp] theorem write_same (f : Folding) (i : Fin 8) (t : stoken_t) :
    (f.write i t).sf.tokenvec i = t := by
  unfold Folding.write
  dsimp only
  rw [Function.update_self]

theorem write_other (f : Folding) {i j : Fin 8} (hij : j ≠ i) (t : stoken_t) :
    (f.write i t).sf.tokenvec j = f.sf.tokenvec j := by
  unfold Folding.write
  dsimp only
  rw [Function.update_of_ne hij]

/-- What holds of a token holds of the cells after it was written to one of them. -/
theorem write_cells {P : stoken_t → Prop} {t : stoken_t} (ht : P t) {i j : Fin 8}
    (hj : P (f.sf.tokenvec j)) : P ((f.write i t).sf.tokenvec j) := by
  by_cases hij : j = i
  · rwa [hij, write_same]
  · rwa [write_other f hij]

/-- A token is written and others are dropped. -/
theorem FoldInv.write_drop (h : FoldInv s f) {i : Fin 8} {t : stoken_t} (ht : Shaped t)
    (htype : t.type ≠ CHAR_NULL) (hn : 0 < n) (hleft : left + n ≤ f.pos) :
    Returns ((f.write i t).shrink n left folds) (Lower s f) :=
  h.shrink ⟨rfl, rfl, rfl, rfl, rfl⟩ rfl (fun j => write_cells ht (h.shaped j))
    (fun j hj => write_cells (P := fun t => t.type ≠ CHAR_NULL) htype (h.typed j hj)) hn hleft

/-- The token with another type. -/
def stoken_t.withType (t : stoken_t) (type : UInt8) : stoken_t := { t with type := type }

/-- The loop's state after the token in a cell got another type. -/
def Folding.retyped (f : Folding) (i : Fin 8) (type : UInt8) : Folding :=
  f.write i ((f.sf.tokenvec i).withType type)

theorem retyped_type (f : Folding) (i : Fin 8) (type : UInt8) :
    ((f.retyped i type).sf.tokenvec i).type = type := by
  rw [Folding.retyped, write_same]
  rfl

theorem weight_retyped (f : Folding) (i : Fin 8) (type : UInt8) :
    (f.retyped i type).weight + unsettled (f.sf.tokenvec i).type = f.weight + unsettled type :=
  weight_update f.sf.tokenvec i _

theorem types_write (f : Folding) (i : Fin 8) (t : stoken_t) (j : ℕ) :
    (f.write i t).sf.types j = if j = i then t.type else f.sf.types j := by
  by_cases hj : j < 8
  · rw [types_eq hj, types_eq hj]
    split_ifs with hij
    · rw [show (⟨j, hj⟩ : Fin 8) = i from Fin.ext hij, write_same]
    · rw [write_other f fun h => hij (congrArg Fin.val h)]
  · rw [if_neg (by omega)]
    simp only [sfilter.types, hj, dif_neg, not_false_eq_true]

/-- A change of type without one of the weight counts for what it decides about the first or
the second token. -/
theorem minor_retyped {i : Fin 8} {type : UInt8}
    (hsame : unsettled type ≤ unsettled (f.sf.tokenvec i).type) :
    (f.retyped i type).minor + pending (f.sf.types f.left) (f.sf.types (f.left + 1)) ≤ f.minor +
      pending (if f.left = i then type else f.sf.types f.left)
        (if f.left + 1 = i then type else f.sf.types (f.left + 1)) := by
  have hw := weight_retyped f i type
  have hleft : (f.retyped i type).left = f.left := rfl
  have htype (j : ℕ) : (f.retyped i type).sf.types j = if j = i then type else f.sf.types j :=
    types_write f i _ j
  unfold Folding.minor Folding.ahead
  rw [hleft, htype, htype]
  omega

theorem FoldInv.decide (h : FoldInv s f) {i : Fin 8} {type : UInt8}
    (htype : type ≠ CHAR_NULL ∧ type ≠ TYPE_COMMENT)
    (hsame : unsettled type ≤ unsettled (f.sf.tokenvec i).type)
    (hless : pending (if f.left = i then type else f.sf.types f.left)
      (if f.left + 1 = i then type else f.sf.types (f.left + 1)) <
        pending (f.sf.types f.left) (f.sf.types (f.left + 1))) : Lower s f (f.retyped i type) := by
  have hminor := minor_retyped hsame
  exact ⟨h.retype h.left_le htype, rank_lt_of_minor rfl (by omega)⟩

theorem FoldInv.decide_left (h : FoldInv s f) (hi : f.left < 8) {type : UInt8}
    (htype : type ≠ CHAR_NULL ∧ type ≠ TYPE_COMMENT)
    (hsame : unsettled type ≤ unsettled (f.sf.tokenvec ⟨f.left, hi⟩).type)
    (hless : ∀ b, pending type b < pending (f.sf.tokenvec ⟨f.left, hi⟩).type b) :
    Lower s f (f.retyped ⟨f.left, hi⟩ type) := by
  refine h.decide htype hsame ?_
  rw [if_pos rfl, if_neg (by simp), types_eq hi]
  exact hless _

theorem FoldInv.decide_right (h : FoldInv s f) (hi : f.left + 1 < 8) {type : UInt8}
    (htype : type ≠ CHAR_NULL ∧ type ≠ TYPE_COMMENT)
    (hsame : unsettled type ≤ unsettled (f.sf.tokenvec ⟨f.left + 1, hi⟩).type)
    (hless : ∀ a, pending a type < pending a (f.sf.tokenvec ⟨f.left + 1, hi⟩).type) :
    Lower s f (f.retyped ⟨f.left + 1, hi⟩ type) := by
  refine h.decide htype hsame ?_
  rw [if_neg (by simp), if_pos rfl, types_eq hi]
  exact hless _

/-- A type that settles the token lowers the weight, and the pass starts again at the left. -/
theorem FoldInv.settle (h : FoldInv s f) {i : Fin 8} {type : UInt8}
    (htype : type ≠ CHAR_NULL ∧ type ≠ TYPE_COMMENT)
    (hless : unsettled type < unsettled (f.sf.tokenvec i).type) :
    Lower s f { f.retyped i type with left := 0 } := by
  have hw := weight_retyped f i type
  have hleft := h.left_le
  have hfew := h.few
  have hsame : Folding.weight { f.retyped i type with left := 0 } =
      (f.retyped i type).weight := rfl
  refine ⟨h.retype (Nat.zero_le _) htype, rank_lt_of_ahead rfl ?_⟩
  unfold Folding.ahead
  rw [hsame]
  dsimp only
  omega

/-- What the rules for two tokens leave. -/
def TwoSpec (s : List UInt8) (f : Folding) : Folded → Prop
  | .returns n sf => FoldResult s (n, sf)
  | .again f' => Lower s f f'
  | .onward f' => FoldInv s f' ∧ f'.rank ≤ f.rank ∧ f'.left < f'.pos

/-- The bareword of an empty pair of back ticks ends the fold. -/
theorem FoldInv.evil (h : FoldInv s f) (hl : f.left + 2 ≤ f.pos) (hnext : f.left + 1 < 8) :
    FoldResult s (f.left + 2,
      (f.retyped ⟨f.left + 1, hnext⟩ TYPE_EVIL).sf) := by
  have hfew := h.few
  have hkeep : FoldInv s (f.retyped ⟨f.left + 1, hnext⟩ TYPE_EVIL) :=
    h.retype h.left_le (by decide)
  have htype := retyped_type f ⟨f.left + 1, hnext⟩ TYPE_EVIL
  have hcounted := hkeep.counted
  refine ⟨hkeep.input, by dsimp only; omega, ?_, fun hsix => ?_, hkeep.shaped, fun i hi => ?_,
    fun htwo _ hcom => ?_⟩
  · exact hl.trans ((Nat.le_add_right _ _).trans hcounted)
  · rwa [show (5 : Fin 8) = ⟨f.left + 1, hnext⟩ from Fin.ext (by dsimp only at hsix ⊢; omega)]
  · exact hkeep.typed i (lt_of_lt_of_le hi hl)
  · rw [show (1 : Fin 8) = ⟨f.left + 1, hnext⟩ from Fin.ext (by dsimp only at htwo ⊢; omega)]
      at hcom
    exact absurd (htype.symm.trans hcom) (by decide)

theorem Returns.again {x : Except Fault Folding} (h : Returns x (Lower s f)) :
    Returns (Folded.again <$> x) (TwoSpec s f) := h.map (f := Folded.again)

theorem foldPair_spec (h : FoldInv s f) (hl : f.left + 2 ≤ f.pos) (hi : f.left < 8)
    (hnext : f.left + 1 < 8) : Returns
      (foldPair f (f.sf.tokenvec ⟨f.left, hi⟩) (f.sf.tokenvec ⟨f.left + 1, hnext⟩))
      (TwoSpec s f) := by
  have hfew := h.few
  have hshaped := h.shaped ⟨f.left + 1, hnext⟩
  have htyped := h.typed ⟨f.left + 1, hnext⟩ (by dsimp only; omega)
  have hstay : Returns (.ok (.onward f) : Except Fault Folded) (TwoSpec s f) :=
    returns_ok.mpr ⟨h, le_rfl, by omega⟩
  have hdrop (n folds : ℕ) (hn : 0 < n) (hle : n ≤ 2) :
      Returns (.again <$> f.shrink n 0 folds) (TwoSpec s f) :=
    Returns.again (h.drop hn (by omega))
  have hcopy : Returns (do
      let f ← f.put f.left (f.sf.tokenvec ⟨f.left + 1, hnext⟩)
      .again <$> f.shrink 1 0 1) (TwoSpec s f) := by
    rw [put_ok hi, ok_bind]
    exact Returns.again (h.write_drop hshaped htyped one_pos (by omega))
  unfold foldPair
  refine Returns.ite (fun hc => ?_) fun _ => ?_
  · rw [put_ok hnext]
    refine returns_ok.mpr (h.decide_right hnext (by decide) ?_ ?_)
    · rw [hc.2.1]
      decide
    · rw [hc.2.1]
      exact fun a => Nat.add_lt_add_left (by decide) _
  refine Returns.ite (fun hc => ?_) fun _ => ?_
  · rw [put_ok hi]
    refine returns_ok.mpr (h.decide_left hi (by decide) ?_ ?_)
    · rcases hc.1 with ha | ha <;> rw [ha] <;> decide
    · rcases hc.1 with ha | ha <;> rw [ha] <;> exact fun b => Nat.add_lt_add_right (by decide) _
  refine Returns.ite (fun hc => ?_) fun _ => ?_
  · rw [put_ok hi]
    refine returns_ok.mpr (h.decide_left hi ?_ ?_ ?_)
    · split_ifs <;> decide
    · rw [hc.1]
      split_ifs <;> decide
    · rw [hc.1]
      split_ifs <;> exact fun b => Nat.add_lt_add_right (by decide) _
  refine Returns.ite (fun hc => ?_) fun _ => ?_
  · refine Returns.ite (fun _ => ?_) fun _ => hstay
    rw [put_ok hi]
    have hpos : f.left < f.pos := by omega
    have hrank : (f.retyped ⟨f.left, hi⟩ TYPE_FUNCTION).rank ≤ f.rank := by
      have hminor := @minor_retyped f ⟨f.left, hi⟩ TYPE_FUNCTION (by rw [hc.1]; decide)
      have hmajor : (f.retyped ⟨f.left, hi⟩ TYPE_FUNCTION).major = f.major := rfl
      rw [if_pos rfl, if_neg (by simp), types_eq hi, hc.1] at hminor
      unfold Folding.rank
      rw [hmajor]
      have hsame (b : UInt8) : pending TYPE_FUNCTION b = pending TYPE_OPERATOR b := rfl
      rw [hsame] at hminor
      omega
    exact returns_ok.mpr ⟨h.retype h.left_le (by decide), hrank, hpos⟩
  refine Returns.ite (fun hc => ?_) fun _ => ?_
  · exact hcopy
  refine Returns.ite (fun hc => ?_) fun _ => ?_
  · refine Returns.ite (fun _ => ?_) fun _ => hstay
    have hsettle := @FoldInv.settle _ _ h ⟨f.left + 1, hnext⟩ TYPE_SQLTYPE (by decide)
      (by rw [hc.2]; decide)
    rw [put_ok hnext, ok_bind]
    have hpos : 0 < f.pos := by omega
    exact returns_ok.mpr ⟨hsettle.1, hsettle.2.le, hpos⟩
  refine Returns.ite (fun hc => ?_) fun _ => ?_
  · refine Returns.ite (fun _ => ?_) fun _ => hcopy
    have hsettle := @FoldInv.settle _ _ h ⟨f.left, hi⟩ TYPE_NUMBER (by decide)
      (by rw [hc]; decide)
    rw [put_ok hi, ok_bind]
    exact returns_ok.mpr hsettle
  refine Returns.ite (fun _ => hdrop 1 1 (by decide) (by decide)) fun _ => ?_
  refine Returns.ite (fun _ => hdrop 1 1 (by decide) (by decide)) fun _ => ?_
  refine Returns.ite (fun _ => ?_) fun _ => ?_
  · refine Returns.ite (fun _ => ?_) fun _ => hdrop 2 2 (by decide) (by decide)
    rw [setToken_ok hnext, ok_bind]
    exact returns_ok.mpr (h.evil hl hnext)
  exact Returns.ite (fun _ => hdrop 1 1 (by decide) (by decide)) fun _ => hstay

/-- A phrase is a token of its own. -/
theorem syntax_merge_words_spec (ha : Shaped a) :
    Returns (syntax_merge_words lookup a b) fun r => ∀ t, r = some t →
      Shaped t ∧ t.type ≠ CHAR_NULL := by
  unfold syntax_merge_words
  have hnone : Returns (.ok none : Except Fault (Option stoken_t)) fun r => ∀ t, r = some t →
      Shaped t ∧ t.type ≠ CHAR_NULL := returns_ok.mpr fun t ht => nomatch ht
  refine Returns.ite (fun _ => Returns.ite (fun _ => hnone) fun hlen => ?_) fun _ => hnone
  refine Returns.ite (fun htype => ?_) fun _ => hnone
  have hlen : a.len + b.len + 1 < 32 := not_le.mp hlen
  have htext : (a.text a.len ++ 32 :: b.text b.len).length = a.len + b.len + 1 := by
    simp [stoken_t.text]
    omega
  have hcells := ha.cells
  unfold st_assign
  simp only [if_pos hlen, htext, le_refl, if_true]
  refine returns_ok.mpr fun t ht => ?_
  obtain rfl := Option.some.inj ht
  refine ⟨⟨?_, hlen⟩, htype⟩
  simp [htext]
  omega

theorem foldTwo_spec (h : FoldInv s f) (hl : f.left + 2 ≤ f.pos) :
    Returns (foldTwo lookup f) (TwoSpec s f) := by
  have hfew := h.few
  have hi : f.left < 8 := by omega
  have hnext : f.left + 1 < 8 := by omega
  have hdrop (left : ℕ) (hle : left ≤ f.left) :
      Returns (.again <$> f.shrink 1 left 1) (TwoSpec s f) :=
    Returns.again (h.drop one_pos (by omega))
  unfold foldTwo
  rw [getToken_ok hi, ok_bind, getToken_ok hnext, ok_bind]
  refine Returns.ite (fun _ => hdrop f.left le_rfl) fun _ => ?_
  refine Returns.ite (fun _ => hdrop f.left le_rfl) fun _ => ?_
  refine Returns.ite (fun _ => hdrop 0 (Nat.zero_le _)) fun _ => ?_
  refine Returns.ite (fun _ => hdrop (f.left - 1) (Nat.sub_le _ _)) fun _ => ?_
  refine (syntax_merge_words_spec (h.shaped _)).bind fun r hr => ?_
  cases r with
  | none => exact foldPair_spec h hl hi hnext
  | some t =>
    obtain ⟨hshaped, htyped⟩ := hr t rfl
    dsimp only
    rw [put_ok hi, ok_bind]
    exact Returns.again (h.write_drop hshaped htyped one_pos
      (by dsimp only [Folding.write]; omega))

/-- Steps to the right. -/
theorem FoldInv.advance (h : FoldInv s f) (hless : f.left < left) (hleft : left ≤ f.pos) :
    Lower s f { f with left := left } := by
  have hfew := h.few
  have hread (heq : f.pos + f.comments = f.sf.stats_tokens) (i : Fin 8) (hi : i.val < f.pos) :
      AsRead { f with left := left } (f.sf.tokenvec i) := by
    have hold := h.asRead heq i hi
    exact ⟨hold.type, hold.passed, hold.before⟩
  refine ⟨⟨h.input, h.bound, hleft, h.few, h.shaped, h.shaped_comment, h.typed, h.comment,
    h.counted, hread⟩, rank_lt_of_ahead rfl ?_⟩
  have hsame : Folding.weight { f with left := left } = f.weight := rfl
  unfold Folding.ahead
  rw [hsame]
  dsimp only
  omega

/-- A step to the right after a change of type that leaves the weight. -/
theorem FoldInv.retype_advance (h : FoldInv s f) {i : Fin 8} {type : UInt8}
    (htype : type ≠ CHAR_NULL ∧ type ≠ TYPE_COMMENT)
    (hsame : unsettled type ≤ unsettled (f.sf.tokenvec i).type) (hleft : f.left + 1 ≤ f.pos) :
    Lower s f { f.retyped i type with left := f.left + 1 } := by
  have hw := weight_retyped f i type
  have hfew := h.few
  refine ⟨h.retype hleft htype, rank_lt_of_ahead rfl ?_⟩
  have hweight : Folding.weight { f.retyped i type with left := f.left + 1 } =
      (f.retyped i type).weight := rfl
  unfold Folding.ahead
  rw [hweight]
  dsimp only
  omega

theorem foldThree_spec (h : FoldInv s f) (hl : f.left + 3 ≤ f.pos) :
    Returns (foldThree f) (Lower s f) := by
  have hfew := h.few
  have hi : f.left < 8 := by omega
  have hnext : f.left + 1 < 8 := by omega
  have hlast : f.left + 2 < 8 := by omega
  have hshaped := h.shaped ⟨f.left + 2, hlast⟩
  have htyped := h.typed ⟨f.left + 2, hlast⟩ (by dsimp only; omega)
  have hdrop (folds : ℕ) : Returns (f.shrink 2 0 folds) (Lower s f) :=
    h.drop (by decide) (by omega)
  have hcopy {n : ℕ} (hn : 0 < n) (hle : n ≤ 3) : Returns
      ((f.write ⟨f.left + 1, hnext⟩ (f.sf.tokenvec ⟨f.left + 2, hlast⟩)).shrink n 0 0)
      (Lower s f) := h.write_drop hshaped htyped hn (by omega)
  have hthree : ¬ f.pos < 3 := by omega
  unfold foldThree
  rw [getToken_ok hi, ok_bind, getToken_ok hnext, ok_bind, getToken_ok hlast, ok_bind,
    put_ok hnext, ok_bind]
  refine Returns.ite (fun _ => hdrop 0) fun _ => ?_
  refine Returns.ite (fun _ => hdrop 0) fun _ => ?_
  refine Returns.ite (fun _ => hdrop 0) fun _ => ?_
  refine Returns.ite (fun _ => hdrop 0) fun _ => ?_
  refine Returns.ite (fun _ => hdrop 0) fun _ => ?_
  refine Returns.ite (fun _ => hdrop 2) fun _ => ?_
  refine Returns.ite (fun _ => hdrop 0) fun _ => ?_
  refine Returns.ite (fun _ => hcopy one_pos (by decide)) fun _ => ?_
  refine Returns.ite (fun _ => hcopy one_pos (by decide)) fun _ => ?_
  refine Returns.ite (fun _ => ?_) fun _ => ?_
  · rw [ok_bind]
    exact Returns.ite (fun hfew => absurd hfew hthree) fun _ => hcopy (by decide) le_rfl
  refine Returns.ite (fun _ => hcopy one_pos (by decide)) fun _ => ?_
  refine Returns.ite (fun _ => ?_) fun _ => ?_
  · rw [if_neg hthree]
    exact hdrop 0
  refine Returns.ite (fun _ => hcopy one_pos (by decide)) fun _ => ?_
  refine Returns.ite (fun hc => ?_) fun _ => ?_
  · rw [put_ok hi, ok_bind]
    exact returns_ok.mpr (h.retype_advance (by decide) (by rw [hc.1]; decide) (by omega))
  · exact returns_ok.mpr (h.advance (Nat.lt_succ_self _) (by omega))

theorem foldFive_spec (h : FoldInv s f) : Returns (foldFive f) fun f' =>
    f' = f ∨ Lower s f f' := by
  have hfew := h.few
  unfold foldFive
  refine Returns.ite (fun hc => ?_) fun _ => returns_ok.mpr (.inl rfl)
  have hfive : 5 ≤ f.pos := hc.1
  have htwo : 2 < f.pos := by omega
  have hone : 1 < f.pos := by omega
  refine Returns.ite (fun hsix => ?_) fun _ => returns_ok.mpr (.inr ?_)
  · have hsix : 5 < f.pos := hsix
    have hlast := h.typed 5 (lt_of_le_of_lt (by decide) hsix)
    rw [show getToken f.sf LIBINJECTION_SQLI_MAX_TOKENS = .ok (f.sf.tokenvec 5) from rfl, ok_bind,
      show f.put 1 (f.sf.tokenvec 5) = .ok (f.write 1 (f.sf.tokenvec 5)) from rfl, ok_bind]
    exact returns_ok.mpr (.inr (h.fewer ⟨rfl, rfl, rfl, rfl, rfl⟩ htwo (Nat.zero_le _)
      (fun j => write_cells (h.shaped 5) (h.shaped j)) fun j hj =>
        write_cells (P := fun t => t.type ≠ CHAR_NULL) hlast (h.typed j (hj.trans htwo))))
  · exact h.fewer ⟨rfl, rfl, rfl, rfl, rfl⟩ hone (Nat.zero_le _) h.shaped
      fun j hj => h.typed j (hj.trans hone)

/-- The last comment is added back. -/
theorem FoldInv.with_comment (h : FoldInv s f) (hpos : f.pos < 5)
    (hcom : f.last_comment.type = TYPE_COMMENT) (hi : f.pos < 8) :
    FoldResult s (f.pos + 1, (f.write ⟨f.pos, hi⟩ f.last_comment).sf) := by
  have hone : f.comments = 1 := if_pos hcom
  have hcounted := h.counted
  have hnew := write_same f ⟨f.pos, hi⟩ f.last_comment
  have hold (j : Fin 8) (hj : j.val < f.pos) :
      (f.write ⟨f.pos, hi⟩ f.last_comment).sf.tokenvec j = f.sf.tokenvec j :=
    write_other f (fun he => absurd (congrArg Fin.val he) hj.ne) f.last_comment
  refine ⟨h.input, by dsimp only; omega, ?_, fun hsix => ?_,
    fun j => write_cells h.shaped_comment (h.shaped j), fun j hj => ?_, fun htwo hstats _ => ?_⟩
  · rwa [hone] at hcounted
  · dsimp only at hsix
    omega
  · rcases Nat.lt_succ_iff_lt_or_eq.mp hj with hlt | heq
    · exact (hold j hlt).symm ▸ h.typed j hlt
    · rw [show j = ⟨f.pos, hi⟩ from Fin.ext heq, hnew, hcom]
      decide
  · dsimp only at htwo hstats ⊢
    have hstats : f.sf.stats_tokens ≤ 2 := hstats
    -- one token and one comment have been counted, so that nothing else was read
    have hread := h.asRead (by omega) 0 (by omega)
    rw [show (1 : Fin 8) = ⟨f.pos, hi⟩ from Fin.ext (by dsimp only; omega), hnew,
      hold 0 (by omega)]
    exact ⟨h.comment hcom, hread.before hcom⟩

theorem foldEnd_spec (h : FoldInv s f) : Returns (foldEnd f) (FoldResult s) := by
  have hcounted := h.counted
  unfold foldEnd
  refine Returns.ite (fun hc => ?_) fun hno => returns_ok.mpr ?_
  · have hpos : f.pos < 5 := hc.1
    rw [setToken_ok (by omega), ok_bind]
    exact returns_ok.mpr (h.with_comment hpos hc.2 (by omega))
  · have hfive : min f.pos LIBINJECTION_SQLI_MAX_TOKENS ≤ 5 := min_le_right _ _
    refine ⟨h.input, by dsimp only; omega, ?_, fun hsix => ?_, h.shaped, fun i hi => ?_,
      fun htwo hstats hcom => ?_⟩
    · exact (min_le_left _ _).trans ((Nat.le_add_right _ _).trans hcounted)
    · dsimp only at hsix
      omega
    · exact h.typed i (lt_of_lt_of_le hi (min_le_left _ _))
    · dsimp only at htwo hstats hcom
      have hpos : f.pos = 2 := by
        rcases min_choice f.pos LIBINJECTION_SQLI_MAX_TOKENS with hmin | hmin
        · rwa [hmin] at htwo
        · rw [hmin] at htwo
          exact absurd htwo (by decide)
      have hread := h.asRead (by omega) 1 (by rw [hpos]; decide)
      exact absurd hcom hread.type

/-- Nothing is left to be done with the tokens. -/
theorem FoldInv.to_end (h : FoldInv s f) :
    FoldInv s { f with left := f.pos } ∧ Folding.rank { f with left := f.pos } ≤ f.rank := by
  rcases h.left_le.lt_or_eq with hlt | heq
  · obtain ⟨hinv, hrank⟩ := h.advance hlt le_rfl
    exact ⟨hinv, hrank.le⟩
  · have hsame : { f with left := f.pos } = f := by
      cases f
      exact congrArg (Folding.mk _ _ _ · _) heq.symm
    rw [hsame]
    exact ⟨h, le_rfl⟩

theorem Fetched.rank_le (h : Fetched s f f') : f'.rank ≤ f.rank := by
  rcases h.major with rfl | hlt
  · exact le_rfl
  · exact (rank_lt_of_major hlt).le

/-- There are too few tokens: what was read lowers the rank, or else the steps do. -/
theorem Fetched.short (h : Fetched s f f') (hwhy : f'.major < f.major ∨ f'.left < f'.pos) :
    Lower s f { f' with left := f'.pos } := by
  by_cases hlt : f'.major < f.major
  · obtain ⟨hinv, hrank⟩ := h.inv.to_end
    exact ⟨hinv, hrank.trans_lt (rank_lt_of_major hlt)⟩
  · obtain ⟨hinv, hrank⟩ := h.inv.advance (hwhy.resolve_left hlt) le_rfl
    exact ⟨hinv, hrank.trans_le h.rank_le⟩

/-- The end of a round, after the rules for two tokens. -/
theorem onward_spec (h : FoldInv s f) (hleft : f.left < f.pos) : Returns (do
    let f ← fetch lookup 3 f
    let held ← sizeSub f.pos f.left
    if held < 3 then .ok (.inr { f with left := f.pos }) else .inr <$> foldThree f :
      Except Fault ((ℕ × sfilter) ⊕ Folding))
    (Descends (FoldInv s) Folding.rank (FoldResult s) f) := by
  refine (fetch_spec h).bind fun f' hf => ?_
  obtain ⟨hfetched, -⟩ := hf
  have hinv := hfetched.inv
  have hle := hinv.left_le
  rw [sizeSub_ok hle, ok_bind]
  refine Returns.ite (fun _ => returns_ok.mpr ?_) fun hheld => ?_
  · refine hfetched.short ?_
    rcases hfetched.major with rfl | hlt
    · exact .inr hleft
    · exact .inl hlt
  · have hthree := foldThree_spec hinv (by omega)
    have hdown : Returns (foldThree f') fun g => Lower s f g :=
      hthree.mono fun g hg => ⟨hg.1, hg.2.trans_le hfetched.rank_le⟩
    exact hdown.map (f := Sum.inr)

theorem foldRound_spec (h : FoldInv s f) :
    Returns (foldRound lookup f) (Descends (FoldInv s) Folding.rank (FoldResult s) f) := by
  unfold foldRound
  refine (foldFive_spec h).bind fun f₁ h₁ => ?_
  have hfive : FoldInv s f₁ ∧ f₁.rank ≤ f.rank := by
    rcases h₁ with rfl | hlower
    · exact ⟨h, le_rfl⟩
    · exact ⟨hlower.1, hlower.2.le⟩
  obtain ⟨hinv₁, hrank₁⟩ := hfive
  refine Returns.ite (fun _ => ?_) fun hgo => ?_
  · exact (foldEnd_spec hinv₁).map (f := Sum.inl)
  have hmore : f₁.more = true := by simpa using fun h => hgo (.inl h)
  have hleft : f₁.left < 5 := not_le.mp fun h => hgo (.inr h)
  refine (fetch_spec hinv₁).bind fun f₂ h₂ => ?_
  obtain ⟨hfetched, hwhy⟩ := h₂
  have hinv₂ := hfetched.inv
  have hrank₂ := hfetched.rank_le
  have hle₂ := hinv₂.left_le
  rw [sizeSub_ok hle₂, ok_bind]
  refine Returns.ite (fun hheld => returns_ok.mpr ?_) fun hheld => ?_
  · refine Descends.of_le (r := Sum.inr _) (hfetched.short ?_) hrank₁
    rcases hfetched.major with rfl | hlt
    · -- there was room for another token, so that one is held
      refine .inr (by_contra fun hno => ?_)
      rcases hwhy with hall | hfull | hheld'
      · exact absurd hmore (by simp [hall])
      · omega
      · omega
    · exact .inl hlt
  · refine (foldTwo_spec hinv₂ (by omega)).bind fun r hr => ?_
    cases r with
    | returns n sf => exact returns_ok.mpr hr
    | again f₃ => exact returns_ok.mpr ⟨hr.1, hr.2.trans_le (hrank₂.trans hrank₁)⟩
    | onward f₃ =>
      obtain ⟨hinv₃, hrank₃, hleft₃⟩ := hr
      exact (onward_spec hinv₃ hleft₃).mono fun r hr =>
        hr.of_le (hrank₃.trans (hrank₂.trans hrank₁))

/-- Where the first loop is: it reads into the first cell. -/
structure SkipInv (s : List UInt8) (sf : sfilter) : Prop where
  input : sf.s = s
  bound : sf.pos ≤ s.length
  first : sf.current = 0
  shaped : ∀ i, Shaped (sf.tokenvec i)

/-- The first token that is kept. -/
def Skipped (s : List UInt8) (r : Bool × sfilter) : Prop :=
  if r.1 then FoldInv s ⟨r.2, st_clear, 1, 0, true⟩ else r.2.s = s ∧ ∀ i, Shaped (r.2.tokenvec i)

theorem Found.skipInv {sf sf' : sfilter} {a : ℕ} (h : SkipInv s sf) (hfound : Found sf sf' a) :
    SkipInv s sf' := by
  have hs : sf'.s = s := hfound.frame.s.trans h.input
  have hin := hfound.token.inside
  rw [h.input] at hin
  exact ⟨hs, hin, hfound.frame.current.trans h.first,
    shaped_of_frame h.shaped hfound.frame.tokenvec hfound.frame.current hfound.token.shaped⟩

theorem Found.foldInv {sf sf' : sfilter} {a : ℕ} (h : SkipInv s sf) (hfound : Found sf sf' a)
    (hcom : sf'.cur.type ≠ TYPE_COMMENT) : FoldInv s ⟨sf', st_clear, 1, 0, true⟩ := by
  have hnext := hfound.skipInv h
  have hfirst : sf'.tokenvec 0 = sf'.cur := by rw [sfilter.cur, hnext.first]
  have hcount := hfound.counted
  have hclear : ¬ st_clear.type = TYPE_COMMENT := by decide
  have hzero {i : Fin 8} (hi : i.val < 1) : i = 0 := Fin.ext (by simpa using hi)
  refine ⟨hnext.input, hnext.bound, Nat.zero_le _, by dsimp only; omega, hnext.shaped,
    shaped_clear, fun i hi => ?_, fun hno => absurd hno hclear, ?_, fun _ i hi => ?_⟩
  · rw [hzero hi]
    exact hfirst ▸ hfound.token.typed
  · have hcomments : Folding.comments ⟨sf', st_clear, 1, 0, true⟩ = 0 := rfl
    rw [hcomments]
    dsimp only
    omega
  · rw [hzero hi]
    dsimp only
    rw [hfirst]
    exact ⟨hcom, hfound.token.ends, fun hno => absurd hno hclear⟩

theorem skipRound_spec {sf : sfilter} (h : SkipInv s sf) :
    Returns (skipRound lookup sf)
      (Descends (SkipInv s) (fun sf => s.length - sf.pos) (Skipped s) sf) := by
  have hbound : sf.pos ≤ sf.slen := by
    rw [sfilter.slen, h.input]
    exact h.bound
  have htokenize : Returns (libinjection_sqli_tokenize lookup sf) (Tokenized sf) :=
    tokenize_spec hbound
  unfold skipRound
  refine htokenize.bind fun r hr => ?_
  obtain ⟨more, sf'⟩ := r
  cases more with
  | false =>
    have hex : Exhausted sf sf' := hr
    refine returns_ok.mpr (show Skipped s (false, sf') from ⟨hex.frame.s.trans h.input, ?_⟩)
    refine shaped_of_frame h.shaped hex.frame.tokenvec hex.frame.current ?_
    rcases hex.cur with hcur | hcur
    · rw [hcur]
      exact shaped_clear
    · rw [hcur]
      exact h.shaped sf.current
  | true =>
    obtain ⟨a, hfound⟩ := hr
    have hfound : Found sf sf' a := hfound
    have hnext := hfound.skipInv h
    have hin := hnext.bound
    have hstart := hfound.start
    have hprog := hfound.progress
    refine Returns.ite (fun _ => returns_ok.mpr ⟨hnext, ?_⟩) fun hno => returns_ok.mpr ?_
    · dsimp only
      omega
    · exact (show Skipped s (true, sf') from
        hfound.foldInv h fun hcom => hno ⟨rfl, .inl hcom⟩)

theorem rank_lt_foldRounds (h : FoldInv s f) : f.rank < foldRounds f.sf.slen := by
  have hminor := minor_lt f
  have hunread := unread_le f
  have hfew := h.few
  unfold Folding.unread at hunread
  unfold Folding.rank Folding.major foldRounds
  omega

/-- The fold completes, whatever the words mean, and leaves at most five tokens, or six of
which the last one is evil. -/
theorem fold_spec {sf : sfilter} (hs : sf.s = s) (hpos : sf.pos ≤ s.length)
    (hshaped : ∀ i, Shaped (sf.tokenvec i)) :
    Returns (libinjection_sqli_fold lookup sf) (FoldResult s) := by
  have hstart : SkipInv s { sf with current := 0 } := ⟨hs, hpos, rfl, hshaped⟩
  have hslen : sf.slen = s.length := congrArg List.length hs
  have hskip : Returns (rounds .diverges (skipRound lookup) (sf.slen + 2) { sf with current := 0 })
      (Skipped s) :=
    returns_rounds (fun _ h => skipRound_spec h) hstart (by dsimp only; omega)
  unfold libinjection_sqli_fold
  rw [show pointCurrent sf 0 = .ok { sf with current := 0 } from rfl, ok_bind]
  refine hskip.bind fun r hr => ?_
  obtain ⟨more, sf'⟩ := r
  cases more with
  | false =>
    obtain ⟨hinput, hshaped⟩ : sf'.s = s ∧ ∀ i, Shaped (sf'.tokenvec i) := hr
    exact returns_ok.mpr ⟨hinput, Nat.zero_le _, Nat.zero_le _, fun hsix => absurd hsix (by simp), hshaped,
      fun i hi => absurd hi (Nat.not_lt_zero _), fun htwo => absurd htwo (by simp)⟩
  | true =>
    have hinv : FoldInv s ⟨sf', st_clear, 1, 0, true⟩ := hr
    dsimp only
    rw [if_pos rfl]
    exact returns_rounds (fun _ h => foldRound_spec h) hinv (rank_lt_foldRounds hinv)

end OctopusWaf.Libinjection
