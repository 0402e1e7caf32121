import OctopusWaf.Library.TwoRuns
import OctopusWaf.SqliTokenizer

/-! An input beside the same input with more bytes in front: from corresponding places the
tokenizer reads the same tokens. The one exception is the dollar sign, whose tag is looked for
from a place that depends on what stands in front. -/
namespace OctopusWaf.Libinjection
open CMachine CString

/-- The same token at another place. -/
def stoken_t.Alike (t u : stoken_t) : Prop := ∃ pos, u = { t with pos := pos }

theorem stoken_t.Alike.refl (t : stoken_t) : t.Alike t := ⟨t.pos, rfl⟩

variable {pre : List UInt8} {n : ℕ} {sf sf' : sfilter} {lookup : ptr_lookup_fn}

/-- The same state, with `pre` in front of the input and `n` more tokens counted. -/
structure Shifted (pre : List UInt8) (n : ℕ) (sf sf' : sfilter) : Prop where
  s : sf'.s = pre ++ sf.s
  pos : sf'.pos = pre.length + sf.pos
  flags : sf'.flags = sf.flags
  current : sf'.current = sf.current
  cells : ∀ i, (sf.tokenvec i).Alike (sf'.tokenvec i)
  fingerprint : sf'.fingerprint = sf.fingerprint
  ddx : sf'.stats_comment_ddx = sf.stats_comment_ddx
  hash : sf'.stats_comment_hash = sf.stats_comment_hash
  tokens : sf'.stats_tokens = sf.stats_tokens + n
  nonempty : sf.s ≠ []
  dollar : chr '$' ∉ sf.s
  unquoted : ¬ hasFlag sf.flags (FLAG_QUOTE_SINGLE ||| FLAG_QUOTE_DOUBLE)

theorem readInput_shift (pre s : List UInt8) (i : ℕ) :
    readInput (pre ++ s) (pre.length + i) = readInput s i := by
  unfold readInput
  by_cases h : i < s.length
  · rw [dif_pos h, dif_pos (by rw [List.length_append]; omega)]
    simp
  · rw [dif_neg h, dif_neg (by rw [List.length_append]; omega)]

theorem tailInput_shift (pre s : List UInt8) (i : ℕ) :
    tailInput (pre ++ s) (pre.length + i) = tailInput s i := by
  unfold tailInput
  rw [List.length_append, List.drop_append, List.drop_of_length_le (Nat.le_add_right _ _),
    Nat.add_sub_cancel_left, List.nil_append]
  exact if_congr (Nat.add_le_add_iff_left) rfl rfl

theorem blockInput_shift (pre s : List UInt8) (i k : ℕ) :
    blockInput (pre ++ s) (pre.length + i) k = blockInput s i k := by
  unfold blockInput
  rw [List.length_append, List.drop_append, List.drop_of_length_le (Nat.le_add_right _ _),
    Nat.add_sub_cancel_left, List.nil_append, Nat.add_assoc]
  exact if_congr (Nat.add_le_add_iff_left) rfl rfl

namespace Shifted

variable (h : Shifted pre n sf sf')
include h

theorem slen : sf'.slen = pre.length + sf.slen := by
  unfold sfilter.slen
  rw [h.s, List.length_append]

theorem here : readInput sf'.s sf'.pos = readInput sf.s sf.pos := by
  rw [h.s, h.pos, readInput_shift]

theorem read (i : ℕ) : readInput sf'.s (sf'.pos + i) = readInput sf.s (sf.pos + i) := by
  rw [h.s, h.pos, Nat.add_assoc, readInput_shift]

theorem rest : tailInput sf'.s sf'.pos = tailInput sf.s sf.pos := by
  rw [h.s, h.pos, tailInput_shift]

theorem tail (i : ℕ) : tailInput sf'.s (sf'.pos + i) = tailInput sf.s (sf.pos + i) := by
  rw [h.s, h.pos, Nat.add_assoc, tailInput_shift]

theorem cur : sf.cur.Alike sf'.cur := by
  unfold sfilter.cur
  rw [h.current]
  exact h.cells sf.current

theorem write {t u : stoken_t} (i : Fin 8) (ht : t.Alike u) :
    Shifted pre n { sf with tokenvec := Function.update sf.tokenvec i t }
      { sf' with tokenvec := Function.update sf'.tokenvec i u } := by
  refine ⟨h.s, h.pos, h.flags, h.current, fun j => ?_, h.fingerprint, h.ddx, h.hash, h.tokens,
    h.nonempty, h.dollar, h.unquoted⟩
  dsimp only
  by_cases hj : j = i
  · rw [hj, Function.update_self, Function.update_self]
    exact ht
  · rw [Function.update_of_ne hj, Function.update_of_ne hj]
    exact h.cells j

theorem setCurrent {t u : stoken_t} (ht : t.Alike u) :
    Shifted pre n (sf.setCurrent t) (sf'.setCurrent u) := by
  have hcell : Function.update sf'.tokenvec sf'.current u =
      Function.update sf'.tokenvec sf.current u := by rw [h.current]
  unfold sfilter.setCurrent
  rw [hcell]
  exact h.write sf.current ht

theorem goto (a : ℕ) : Shifted pre n { sf with pos := a } { sf' with pos := pre.length + a } :=
  ⟨h.s, rfl, h.flags, h.current, h.cells, h.fingerprint, h.ddx, h.hash, h.tokens, h.nonempty,
    h.dollar, h.unquoted⟩

theorem counted (d k : ℕ) : Shifted pre n
    { sf with
      stats_comment_ddx := sf.stats_comment_ddx + d
      stats_comment_hash := sf.stats_comment_hash + k }
    { sf' with
      stats_comment_ddx := sf'.stats_comment_ddx + d
      stats_comment_hash := sf'.stats_comment_hash + k } :=
  ⟨h.s, h.pos, h.flags, h.current, h.cells, h.fingerprint, congrArg (· + d) h.ddx,
    congrArg (· + k) h.hash, h.tokens, h.nonempty, h.dollar, h.unquoted⟩

theorem clear : Shifted pre n (sf.setCurrent st_clear) (sf'.setCurrent st_clear) :=
  h.setCurrent (stoken_t.Alike.refl st_clear)

end Shifted

/-- Two parsers have read the same token, up to corresponding places. -/
def Moved (pre : List UInt8) (n : ℕ) (r r' : Parsed) : Prop :=
  r'.1 = pre.length + r.1 ∧ Shifted pre n r.2 r'.2

theorem st_assign_alike {t u : stoken_t} (ht : t.Alike u) (stype : UInt8) (pos pos' len : ℕ)
    (value : List UInt8) :
    Agree stoken_t.Alike (st_assign t stype pos len value) (st_assign u stype pos' len value) := by
  obtain ⟨p, rfl⟩ := ht
  unfold st_assign
  exact Agree.ite Iff.rfl (fun _ => agree_ok ⟨pos', rfl⟩) fun _ => agree_error

section Parsers

variable (h : Shifted pre n sf sf')
include h

theorem assignCurrent_shift (stype : UInt8) (pos pos' len : ℕ) (value : List UInt8) {next next' : ℕ}
    (hnext : next' = pre.length + next) :
    Agree (Moved pre n) (assignCurrent sf stype pos len value next)
      (assignCurrent sf' stype pos' len value next') :=
  (st_assign_alike h.cur stype pos pos' len value).bind fun _ _ ht =>
    agree_ok ⟨hnext, h.setCurrent ht⟩

theorem assignChar_shift (stype : UInt8) (pos pos' : ℕ) (value : UInt8) {next next' : ℕ}
    (hnext : next' = pre.length + next) : Moved pre n (assignChar sf stype pos value next)
      (assignChar sf' stype pos' value next') := by
  obtain ⟨p, hp⟩ := h.cur
  refine ⟨hnext, h.setCurrent ⟨pos', ?_⟩⟩
  rw [hp]
  rfl

theorem next_shift (i : ℕ) : sf'.pos + i = pre.length + (sf.pos + i) := by
  rw [h.pos, Nat.add_assoc]

theorem parse_white_shift : Agree (Moved pre n) (parse_white sf) (parse_white sf') :=
  agree_ok ⟨next_shift h 1, h⟩

theorem parse_operator1_shift : Agree (Moved pre n) (parse_operator1 sf) (parse_operator1 sf') :=
  Agree.same h.here fun _ => agree_ok (assignChar_shift h _ _ _ _ (next_shift h 1))

theorem parse_other_shift : Agree (Moved pre n) (parse_other sf) (parse_other sf') :=
  Agree.same h.here fun _ => agree_ok (assignChar_shift h _ _ _ _ (next_shift h 1))

theorem parse_char_shift : Agree (Moved pre n) (parse_char sf) (parse_char sf') :=
  Agree.same h.here fun _ => agree_ok (assignChar_shift h _ _ _ _ (next_shift h 1))

theorem parse_eol_comment_shift :
    Agree (Moved pre n) (parse_eol_comment sf) (parse_eol_comment sf') := by
  unfold parse_eol_comment
  apply Agree.same h.rest
  intro w
  cases memchr w 10 with
  | none => exact assignCurrent_shift h _ _ _ _ _ h.slen
  | some i => exact assignCurrent_shift h _ _ _ _ _ (next_shift h (i + 1))

theorem parse_hash_shift : Agree (Moved pre n) (parse_hash sf) (parse_hash sf') := by
  unfold parse_hash
  dsimp only
  apply Agree.ite (by rw [h.flags])
  · intro _
    exact parse_eol_comment_shift ((h.counted 0 1).counted 0 1)
  · intro _
    exact agree_ok (assignChar_shift (h.counted 0 1) _ _ _ _ (next_shift h 1))

theorem parse_dash_shift : Agree (Moved pre n) (parse_dash sf) (parse_dash sf') := by
  have hpos := h.pos
  have hlen := h.slen
  unfold parse_dash
  dsimp only
  rw [h.read 1, h.read 2]
  apply Agree.same (andAlso_congr (by omega) rfl)
  intro ddw
  apply Agree.ite Iff.rfl fun _ => parse_eol_comment_shift h
  intro _
  apply Agree.same (andAlso_congr (by omega) rfl)
  intro eof
  apply Agree.ite Iff.rfl fun _ => parse_eol_comment_shift h
  intro _
  apply Agree.same (andAlso_congr (by omega) (by rw [h.flags]))
  intro ddx
  apply Agree.ite Iff.rfl
  · intro _
    exact parse_eol_comment_shift (h.counted 1 0)
  · intro _
    exact agree_ok (assignChar_shift h _ _ _ _ (next_shift h 1))

theorem parse_slash_shift : Agree (Moved pre n) (parse_slash sf) (parse_slash sf') := by
  have hpos := h.pos
  have hlen := h.slen
  have hmysql : is_mysql_comment sf'.s sf'.pos = is_mysql_comment sf.s sf.pos := by
    unfold is_mysql_comment
    rw [h.read 2]
    unfold sfilter.slen at hlen
    exact andAlso_congr (by omega) rfl
  unfold parse_slash
  dsimp only
  rw [h.read 1]
  apply Agree.same (orElse_congr (by omega) rfl)
  intro operator
  apply Agree.ite Iff.rfl fun _ => parse_operator1_shift h
  intro _
  apply Agree.same h.rest
  intro cur
  apply Agree.same (h.tail 2)
  intro w
  apply Agree.same (orElse_congr Iff.rfl hmysql)
  intro evil
  exact assignCurrent_shift h _ _ _ _ _ (next_shift h _)

theorem parse_backslash_shift : Agree (Moved pre n) (parse_backslash sf) (parse_backslash sf') := by
  have hpos := h.pos
  have hlen := h.slen
  unfold parse_backslash
  dsimp only
  rw [h.read 1]
  apply Agree.same (andAlso_congr (by omega) rfl)
  intro null
  apply Agree.ite Iff.rfl
  · intro _
    exact Agree.same h.rest fun _ => assignCurrent_shift h _ _ _ _ _ (next_shift h 2)
  · intro _
    exact Agree.same h.here fun _ => agree_ok (assignChar_shift h _ _ _ _ (next_shift h 1))

theorem block_shift (k : ℕ) : blockInput sf'.s sf'.pos k = blockInput sf.s sf.pos k := by
  rw [h.s, h.pos, blockInput_shift]

theorem parse_operator2_shift :
    Agree (Moved pre n) (parse_operator2 lookup sf) (parse_operator2 lookup sf') := by
  have hpos := h.pos
  have hlen := h.slen
  unfold parse_operator2
  dsimp only
  rw [h.here, h.read 1, h.read 2]
  apply Agree.ite (by omega) fun _ => parse_operator1_shift h
  intro _
  apply Agree.same h.rest
  intro cur
  apply Agree.same (andAlso_congr (by omega) rfl)
  intro spaceship
  apply Agree.ite Iff.rfl fun _ => assignCurrent_shift h _ _ _ _ _ (next_shift h 3)
  intro _
  apply Agree.same (block_shift h 2)
  intro key
  apply Agree.ite Iff.rfl fun _ => assignCurrent_shift h _ _ _ _ _ (next_shift h 2)
  intro _
  apply Agree.same rfl
  intro c
  apply Agree.ite Iff.rfl fun _ => assignCurrent_shift h _ _ _ _ _ (next_shift h 1)
  exact fun _ => parse_operator1_shift h

end Parsers

section Strings

variable {delim : UInt8} {start start' : ℕ} {cs cs' : List UInt8}

/-- The same place in the longer input, if there is one. -/
def movedBy (k : ℕ) (q q' : Option ℕ) : Prop := q' = q.map (k + ·)

theorem nextDelim_shift (pre cs : List UInt8) (i : ℕ) (delim : UInt8) :
    Agree (movedBy pre.length) (nextDelim cs i delim)
      (nextDelim (pre ++ cs) (pre.length + i) delim) := by
  unfold nextDelim
  apply Agree.same (tailInput_shift pre cs i)
  intro w
  apply agree_ok
  unfold movedBy
  rw [Option.map_map]
  congr 1
  funext k
  exact Nat.add_assoc _ _ _

theorem stringRound_shift (pre cs : List UInt8) (start : ℕ) {q q' : Option ℕ}
    (hq : movedBy pre.length q q') : Agree
      (Steps (movedBy pre.length) (movedBy pre.length)) (stringRound cs start delim q)
        (stringRound (pre ++ cs) (pre.length + start) delim q') := by
  subst hq
  cases q with
  | none => exact agree_ok rfl
  | some qpos =>
    have hsub : sizeSub (pre.length + qpos) (pre.length + start) = sizeSub qpos start := by
      unfold sizeSub
      rw [Nat.add_sub_add_left]
      exact if_congr (by omega) rfl rfl
    have hdouble : is_double_delim_escaped (pre ++ cs) (pre.length + qpos) =
        is_double_delim_escaped cs qpos := by
      unfold is_double_delim_escaped
      rw [readInput_shift, Nat.add_assoc, readInput_shift, List.length_append]
      exact andAlso_congr (by omega) rfl
    unfold stringRound
    rw [Option.map_some]
    apply Agree.same hsub
    intro len
    apply Agree.same (blockInput_shift pre cs start len)
    intro text
    apply Agree.ite Iff.rfl
    · intro _
      rw [Nat.add_assoc]
      exact (nextDelim_shift pre cs (qpos + 1) delim).map (S := Steps _ _)
    intro _
    apply Agree.same hdouble
    intro doubled
    apply Agree.ite Iff.rfl
    · intro _
      rw [Nat.add_assoc]
      exact (nextDelim_shift pre cs (qpos + 2) delim).map (S := Steps _ _)
    · intro _
      exact agree_ok rfl

theorem closingDelim_shift (pre cs : List UInt8) (start : ℕ) (delim : UInt8) :
    Agree (movedBy pre.length) (closingDelim cs start delim)
      (closingDelim (pre ++ cs) (pre.length + start) delim) :=
  (nextDelim_shift pre cs start delim).bind fun _ _ hq =>
    Agree.rounds (fun _ _ h => stringRound_shift pre cs start h) hq

theorem parse_string_core_shift (pre cs : List UInt8) (pos : ℕ) {t u : stoken_t} (ht : t.Alike u)
    (delim : UInt8) (offset : ℕ) :
    Agree (fun r r' => r'.1 = pre.length + r.1 ∧ r.2.Alike r'.2)
      (parse_string_core cs pos t delim offset)
      (parse_string_core (pre ++ cs) (pre.length + pos) u delim offset) := by
  obtain ⟨p, rfl⟩ := ht
  unfold parse_string_core
  dsimp only
  rw [Nat.add_assoc]
  apply (closingDelim_shift pre cs (pos + offset) delim).bind
  rintro q _ rfl
  apply Agree.same (tailInput_shift pre cs _)
  intro w
  cases q with
  | none =>
    dsimp only [Option.map_none]
    apply (st_assign_alike ⟨p, rfl⟩ TYPE_STRING _ _ w.length w).bind
    rintro t _ ⟨p, rfl⟩
    exact agree_ok ⟨List.length_append, p, rfl⟩
  | some qpos =>
    dsimp only [Option.map_some]
    rw [Nat.add_sub_add_left]
    apply (st_assign_alike ⟨p, rfl⟩ TYPE_STRING _ _ (qpos - (pos + offset)) w).bind
    rintro t _ ⟨p, rfl⟩
    exact agree_ok ⟨Nat.add_assoc _ _ _, p, rfl⟩

theorem stringCurrent_shift (h : Shifted pre n sf sf') (delim : UInt8) (offset : ℕ) :
    Agree (Moved pre n) (stringCurrent sf delim offset) (stringCurrent sf' delim offset) := by
  unfold stringCurrent
  rw [h.s, h.pos]
  apply (parse_string_core_shift pre sf.s sf.pos h.cur delim offset).bind
  intro r r' hr
  exact agree_ok ⟨hr.1, h.setCurrent hr.2⟩

end Strings

section Words

variable (h : Shifted pre n sf sf')
include h

theorem parse_string_shift : Agree (Moved pre n) (parse_string sf) (parse_string sf') :=
  Agree.same h.here fun c => stringCurrent_shift h c 1

theorem parse_word_shift : Agree (Moved pre n) (parse_word lookup sf) (parse_word lookup sf') := by
  unfold parse_word
  dsimp only
  apply Agree.same h.rest
  intro w
  apply (st_assign_alike h.cur TYPE_BAREWORD _ _ (strlencspn w wordStops) w).bind
  rintro t _ ⟨p, rfl⟩
  dsimp only
  cases splitWord lookup t.val t.len with
  | none => exact agree_ok ⟨next_shift h _, h.setCurrent ⟨p, rfl⟩⟩
  | some split =>
    obtain ⟨i, ch⟩ := split
    apply (st_assign_alike (stoken_t.Alike.refl st_clear) ch _ _ i w).bind
    intro t u ht
    exact agree_ok ⟨next_shift h i, h.setCurrent ht⟩

theorem parse_estring_shift :
    Agree (Moved pre n) (parse_estring lookup sf) (parse_estring lookup sf') := by
  have hpos := h.pos
  have hlen := h.slen
  unfold parse_estring
  rw [h.read 1]
  apply Agree.same (orElse_congr (by omega) rfl)
  intro word
  exact Agree.ite Iff.rfl (fun _ => parse_word_shift h) fun _ => stringCurrent_shift h _ 2

theorem parse_ustring_shift :
    Agree (Moved pre n) (parse_ustring lookup sf) (parse_ustring lookup sf') := by
  have hpos := h.pos
  have hlen := h.slen
  unfold parse_ustring
  rw [h.read 1, h.read 2]
  apply Agree.same (andAlso_congr (by omega) rfl)
  intro quoted
  apply Agree.ite Iff.rfl
  · intro _
    have hmoved := h.goto (sf.pos + 2)
    rw [← next_shift h 2] at hmoved
    apply (parse_string_shift hmoved).bind
    intro r r' hr
    obtain ⟨next, sf₁⟩ := r
    obtain ⟨next', sf₁'⟩ := r'
    obtain ⟨p, hp⟩ := hr.2.cur
    apply agree_ok
    refine ⟨hr.1, hr.2.setCurrent ?_⟩
    dsimp only at hp ⊢
    rw [hp]
    split_ifs
    · exact ⟨p, rfl⟩
    · exact ⟨p, rfl⟩
  · exact fun _ => parse_word_shift h

theorem opensQstring_shift (i : ℕ) :
    opensQstring sf'.s (sf'.pos + i) = opensQstring sf.s (sf.pos + i) := by
  have hpos := h.pos
  have hlen : sf'.s.length = pre.length + sf.s.length := h.slen
  unfold opensQstring
  rw [Nat.add_assoc, Nat.add_assoc, Nat.add_assoc, Nat.add_assoc, h.read, h.read, h.read]
  apply andAlso_congr (by omega)
  apply bind_congr
  intro c0
  exact andAlso_congr (and_congr_right fun _ => by omega) rfl

theorem markedString_shift (mark : UInt8) (i : ℕ) (w : List UInt8) (size : ℕ)
    (strend : Option ℕ) : Agree (Moved pre n) (markedString sf mark (sf.pos + i) w size strend)
      (markedString sf' mark (sf'.pos + i) w size strend) := by
  have hpos := h.pos
  have hlen := h.slen
  unfold markedString
  apply (st_assign_alike h.cur TYPE_STRING _ _ (strend.getD w.length) w).bind
  rintro t _ ⟨p, rfl⟩
  apply agree_ok
  refine ⟨?_, h.setCurrent ⟨p, rfl⟩⟩
  cases strend with
  | none => exact hlen
  | some k =>
    dsimp only [Option.elim_some]
    omega

theorem parse_qstring_core_shift (offset : ℕ) :
    Agree (Moved pre n) (parse_qstring_core lookup sf offset)
      (parse_qstring_core lookup sf' offset) := by
  unfold parse_qstring_core
  dsimp only
  apply Agree.same (opensQstring_shift h offset)
  intro opens
  apply Agree.ite Iff.rfl
  · intro _
    rw [Nat.add_assoc, Nat.add_assoc, Nat.add_assoc, Nat.add_assoc]
    apply Agree.same (h.read _)
    intro ch
    apply Agree.same (h.tail _)
    intro w
    exact markedString_shift h _ _ _ _ _
  · exact fun _ => parse_word_shift h

theorem parse_nqstring_shift :
    Agree (Moved pre n) (parse_nqstring lookup sf) (parse_nqstring lookup sf') := by
  have hpos := h.pos
  have hlen := h.slen
  unfold parse_nqstring
  rw [h.read 1]
  apply Agree.same (andAlso_congr (by omega) rfl)
  intro quoted
  exact Agree.ite Iff.rfl (fun _ => parse_estring_shift h) fun _ => parse_qstring_core_shift h 1

theorem parseDigitString_shift (digits : List UInt8) : Agree (Moved pre n)
    (parseDigitString lookup digits sf) (parseDigitString lookup digits sf') := by
  have hpos := h.pos
  have hlen := h.slen
  unfold parseDigitString
  dsimp only
  rw [h.read 1]
  apply Agree.same (orElse_congr (by omega) rfl)
  intro word
  apply Agree.ite Iff.rfl fun _ => parse_word_shift h
  intro _
  apply Agree.same (h.tail 2)
  intro w
  rw [Nat.add_assoc sf'.pos, Nat.add_assoc sf.pos, h.read]
  apply Agree.same (orElse_congr (by omega) rfl)
  intro quote
  apply Agree.ite Iff.rfl fun _ => parse_word_shift h
  intro _
  exact Agree.same h.rest fun _ => assignCurrent_shift h _ _ _ _ _ (by omega)

theorem parse_bword_shift : Agree (Moved pre n) (parse_bword sf) (parse_bword sf') := by
  unfold parse_bword
  apply Agree.same h.rest
  intro cur
  cases memchr cur (chr ']') with
  | none => exact assignCurrent_shift h _ _ _ _ _ h.slen
  | some i => exact assignCurrent_shift h _ _ _ _ _ (next_shift h (i + 1))

theorem parse_tick_shift : Agree (Moved pre n) (parse_tick lookup sf) (parse_tick lookup sf') := by
  unfold parse_tick
  apply (stringCurrent_shift h CHAR_TICK 1).bind
  intro r r' hr
  obtain ⟨next, sf₁⟩ := r
  obtain ⟨next', sf₁'⟩ := r'
  obtain ⟨p, hp⟩ := hr.2.cur
  apply agree_ok
  refine ⟨hr.1, hr.2.setCurrent ⟨p, ?_⟩⟩
  dsimp only at hp ⊢
  rw [hp]
  rfl

theorem parse_var_shift : Agree (Moved pre n) (parse_var lookup sf) (parse_var lookup sf') := by
  have hpos := h.pos
  have hlen := h.slen
  unfold parse_var
  dsimp only
  rw [h.read 1]
  apply Agree.same (andAlso_congr (by omega) rfl)
  intro double
  obtain ⟨p, hp⟩ := h.cur
  have hcount : Shifted pre n (sf.setCurrent { sf.cur with count := if double then 2 else 1 })
      (sf'.setCurrent { sf'.cur with count := if double then 2 else 1 }) := by
    apply h.setCurrent
    rw [hp]
    exact ⟨p, rfl⟩
  -- the place after the one or two signs
  generalize hk : (if double = true then 2 else 1) = k at hcount ⊢
  have hplace (sf : sfilter) : (if double = true then sf.pos + 2 else sf.pos + 1) = sf.pos + k := by
    rw [← hk]
    split_ifs <;> rfl
  rw [hplace, hplace]
  have hgoto := hcount.goto (sf.pos + k)
  rw [← next_shift h k] at hgoto
  have hretype {r r' : Parsed} (hr : Moved pre n r r') : Moved pre n
      (r.1, r.2.setCurrent { r.2.cur with type := TYPE_VARIABLE })
      (r'.1, r'.2.setCurrent { r'.2.cur with type := TYPE_VARIABLE }) := by
    obtain ⟨p, hp⟩ := hr.2.cur
    refine ⟨hr.1, hr.2.setCurrent ⟨p, ?_⟩⟩
    rw [hp]
  apply Agree.same (h.tail k)
  intro w
  apply Agree.ite Iff.rfl
  · intro _
    exact (parse_tick_shift hgoto).bind fun _ _ hr => agree_ok (hretype hr)
  intro _
  apply Agree.ite Iff.rfl
  · intro _
    exact (parse_string_shift hgoto).bind fun _ _ hr => agree_ok (hretype hr)
  intro _
  exact assignCurrent_shift hcount _ _ _ _ _ (by omega)

end Words

section Numbers

/-- A place in the longer input. -/
def placed (k : ℕ) (i i' : ℕ) : Prop := i' = k + i

theorem radixDigits_shift (pre s : List UInt8) (i : ℕ) :
    radixDigits (pre ++ s) (pre.length + i) = radixDigits s i := by
  unfold radixDigits
  rw [readInput_shift, Nat.add_assoc, readInput_shift, List.length_append]
  apply bind_congr
  intro c
  exact if_congr (and_congr_right fun _ => by omega) rfl rfl

theorem skipDigits_shift (pre s : List UInt8) (i : ℕ) :
    Agree (placed pre.length) (skipDigits s i) (skipDigits (pre ++ s) (pre.length + i)) :=
  Agree.same (tailInput_shift pre s i) fun _ => agree_ok (Nat.add_assoc _ _ _)

theorem numberExponent_shift (pre s : List UInt8) (i : ℕ) :
    Agree (fun r r' => r'.1 = pre.length + r.1 ∧ r'.2 = r.2) (numberExponent s i)
      (numberExponent (pre ++ s) (pre.length + i)) := by
  unfold numberExponent
  rw [readInput_shift, Nat.add_assoc, readInput_shift, List.length_append]
  apply Agree.same (andAlso_congr (by omega) rfl)
  intro have_e
  apply Agree.ite Iff.rfl
  · intro _
    apply Agree.same (andAlso_congr (by omega) rfl)
    intro sign
    dsimp only
    have hfirst : (if sign = true then pre.length + i + 2 else pre.length + (i + 1)) =
        pre.length + if sign = true then i + 2 else i + 1 := by split_ifs <;> rfl
    rw [hfirst]
    apply (skipDigits_shift pre s _).bind
    rintro stop _ rfl
    refine agree_ok ⟨rfl, ?_⟩
    dsimp only
    rw [decide_eq_decide.mpr Nat.add_lt_add_iff_left]
  · exact fun _ => agree_ok ⟨rfl, rfl⟩

theorem numberSuffix_shift (pre s : List UInt8) (i : ℕ) :
    Agree (placed pre.length) (numberSuffix s i)
      (numberSuffix (pre ++ s) (pre.length + i)) := by
  unfold numberSuffix
  rw [readInput_shift, Nat.add_assoc, readInput_shift, List.length_append]
  apply Agree.same (andAlso_congr (by omega) rfl)
  intro suffix
  apply Agree.ite Iff.rfl
  · intro _
    apply Agree.same (orElse_congr (by omega) rfl)
    intro ends
    apply agree_ok
    unfold placed
    split_ifs <;> rfl
  · exact fun _ => agree_ok rfl

variable (h : Shifted pre n sf sf')
include h

theorem numberTail_shift (start stop : ℕ) : Agree (Moved pre n) (numberTail sf start stop)
    (numberTail sf' (pre.length + start) (pre.length + stop)) := by
  unfold numberTail
  rw [h.s]
  apply (numberExponent_shift pre sf.s stop).bind
  rintro ⟨pos, have_e, have_exp⟩ ⟨pos', flags⟩ ⟨hpos, hflags⟩
  dsimp only at hpos hflags ⊢
  obtain rfl := hpos
  obtain rfl := hflags
  apply (numberSuffix_shift pre sf.s pos).bind
  rintro stop _ rfl
  apply Agree.same (tailInput_shift pre sf.s start)
  intro cur
  dsimp only
  rw [Nat.add_sub_add_left]
  exact assignCurrent_shift h _ _ _ _ _ rfl

theorem parse_number_shift : Agree (Moved pre n) (parse_number sf) (parse_number sf') := by
  have hpos := h.pos
  have hlen := h.slen
  unfold parse_number
  dsimp only
  rw [h.s, h.pos]
  apply Agree.same (radixDigits_shift pre sf.s sf.pos)
  intro radix
  cases radix with
  | some digits =>
    rw [Nat.add_assoc]
    apply Agree.same (tailInput_shift pre sf.s _)
    intro w
    apply Agree.same (tailInput_shift pre sf.s _)
    intro cur
    exact assignCurrent_shift h _ _ _ _ _ (Nat.add_assoc _ _ _)
  | none =>
    apply (skipDigits_shift pre sf.s sf.pos).bind
    rintro pos _ rfl
    rw [readInput_shift]
    apply Agree.same (andAlso_congr (by omega) rfl)
    intro point
    apply Agree.ite Iff.rfl
    · intro _
      rw [Nat.add_assoc]
      apply (skipDigits_shift pre sf.s (pos + 1)).bind
      rintro stop _ rfl
      rw [Nat.add_sub_add_left]
      apply Agree.ite Iff.rfl
      · exact fun _ => agree_ok (assignChar_shift h _ _ _ _ rfl)
      · exact fun _ => numberTail_shift h _ _
    · exact fun _ => numberTail_shift h _ _

end Numbers

section Tokenizer

theorem parse_money_dollar {c : UInt8} (h : charParser c = .parse_money) : c = chr '$' := by
  have hall : ∀ i : Fin 256, charParser (UInt8.ofNat i) = .parse_money →
      UInt8.ofNat i = chr '$' := by decide +kernel
  have hc := hall ⟨c.toNat, c.toNat_lt⟩
  rw [UInt8.ofNat_toNat] at hc
  exact hc h

variable (h : Shifted pre n sf sf')
include h

theorem run_shift {p : pt2Function} (hp : p ≠ .parse_money) :
    Agree (Moved pre n) (p.run lookup sf) (p.run lookup sf') := by
  cases p with
  | parse_white => exact parse_white_shift h
  | parse_operator1 => exact parse_operator1_shift h
  | parse_operator2 => exact parse_operator2_shift h
  | parse_other => exact parse_other_shift h
  | parse_char => exact parse_char_shift h
  | parse_hash => exact parse_hash_shift h
  | parse_dash => exact parse_dash_shift h
  | parse_slash => exact parse_slash_shift h
  | parse_backslash => exact parse_backslash_shift h
  | parse_string => exact parse_string_shift h
  | parse_word => exact parse_word_shift h
  | parse_estring => exact parse_estring_shift h
  | parse_ustring => exact parse_ustring_shift h
  | parse_qstring => exact parse_qstring_core_shift h 0
  | parse_nqstring => exact parse_nqstring_shift h
  | parse_bstring => exact parseDigitString_shift h _
  | parse_xstring => exact parseDigitString_shift h _
  | parse_bword => exact parse_bword_shift h
  | parse_tick => exact parse_tick_shift h
  | parse_var => exact parse_var_shift h
  | parse_money => exact absurd rfl hp
  | parse_number => exact parse_number_shift h

/-- Both calls read a token, or both find none. -/
def Answered (pre : List UInt8) (n : ℕ) (r r' : Bool × sfilter) : Prop :=
  r'.1 = r.1 ∧ Shifted pre n r.2 r'.2

theorem tokenRound_shift : Agree (Steps (Shifted pre n) (Answered pre n)) (tokenRound lookup sf)
    (tokenRound lookup sf') := by
  have hpos := h.pos
  have hlen := h.slen
  unfold tokenRound
  apply Agree.ite (by omega)
  · intro hlt
    have hin : readAt sf.s sf.pos ∈ sf.s := readAt_mem hlt
    rw [h.here, readInput_ok hlt, ok_bind, ok_bind]
    have hmoney : charParser (readAt sf.s sf.pos) ≠ .parse_money := by
      intro hp
      exact h.dollar (parse_money_dollar hp ▸ hin)
    apply (run_shift h hmoney).bind
    rintro ⟨next, sf₁⟩ ⟨next', sf₁'⟩ ⟨hnext, hshift⟩
    dsimp only at hnext hshift ⊢
    obtain rfl := hnext
    have hgoto := hshift.goto next
    obtain ⟨p, hp⟩ := hgoto.cur
    rw [hp]
    apply Agree.ite Iff.rfl
    · intro _
      refine agree_ok ⟨rfl, hgoto.s, hgoto.pos, hgoto.flags, hgoto.current, hgoto.cells,
        hgoto.fingerprint, hgoto.ddx, hgoto.hash, ?_, hgoto.nonempty, hgoto.dollar, hgoto.unquoted⟩
      dsimp only
      rw [hshift.tokens]
      omega
    · exact fun _ => agree_ok hgoto
  · exact fun _ => agree_ok ⟨rfl, h⟩

omit h in
/-- The call clears its cell, whatever was in it. -/
theorem tokenize_shift
    (hclear : Shifted pre n (sf.setCurrent st_clear) (sf'.setCurrent st_clear)) :
    Agree (Answered pre n) (libinjection_sqli_tokenize lookup sf)
      (libinjection_sqli_tokenize lookup sf') := by
  have hlen : sf'.slen = pre.length + sf.slen := hclear.slen
  have hne : sf.slen ≠ 0 := fun hzero => hclear.nonempty (List.length_eq_zero_iff.mp hzero)
  have hne' : sf'.slen ≠ 0 := by omega
  have hquote : ¬ ((sf.setCurrent st_clear).pos = 0 ∧
      hasFlag (sf.setCurrent st_clear).flags (FLAG_QUOTE_SINGLE ||| FLAG_QUOTE_DOUBLE)) :=
    fun hq => hclear.unquoted hq.2
  have hquote' : ¬ ((sf'.setCurrent st_clear).pos = 0 ∧
      hasFlag (sf'.setCurrent st_clear).flags (FLAG_QUOTE_SINGLE ||| FLAG_QUOTE_DOUBLE)) := by
    rw [hclear.flags]
    exact fun hq => hclear.unquoted hq.2
  unfold libinjection_sqli_tokenize
  rw [if_neg hne, if_neg hne']
  dsimp only
  rw [if_neg hquote, if_neg hquote']
  exact Agree.rounds (fun _ _ h => tokenRound_shift h) hclear

end Tokenizer
end OctopusWaf.Libinjection
