import OctopusWaf.SqliParsers

/-! Quoted strings: the search of `parse_string_core`, from one delimiter to the next with a
look back at the backslashes, finds what a scanner with one bit of state finds. -/
namespace OctopusWaf.Libinjection
open CMachine CString

/-- The closing delimiter, read byte by byte: `esc` says whether the next byte is escaped,
and a doubled delimiter stands for one that does not close. -/
def closing (delim : UInt8) : (esc : Bool) → List UInt8 → Option ℕ
  | _, [] => none
  | esc, [c] =>
    if c = delim then if esc then none else some 0 else none
  | esc, c :: d :: rest =>
    if c = delim then
      if esc then (closing delim false (d :: rest)).map (· + 1)
      else if d = delim then (closing delim false rest).map (· + 2)
      else some 0
    else (closing delim (c = 92 && !esc) (d :: rest)).map (· + 1)

/-- Whether the byte after a text is escaped. -/
def escapedAfter (esc : Bool) (text : List UInt8) : Bool :=
  text.foldl (fun e c => c = 92 && !e) esc

variable {delim : UInt8} {cs text rest : List UInt8}

theorem closing_other {c : UInt8} (hc : c ≠ delim) (esc : Bool) :
    closing delim esc (c :: rest) = (closing delim (c = 92 && !esc) rest).map (· + 1) := by
  cases rest with
  | nil => simp [closing, hc]
  | cons d rest => rw [closing, if_neg hc]

theorem closing_escaped : closing delim true (delim :: rest) =
    (closing delim false rest).map (· + 1) := by
  cases rest with
  | nil => simp [closing]
  | cons d rest => rw [closing, if_pos rfl, if_pos rfl]

/-- Other bytes are passed; only the backslashes at their end matter. -/
theorem closing_append (h : ∀ c ∈ text, c ≠ delim) (esc : Bool) :
    closing delim esc (text ++ rest) =
      (closing delim (escapedAfter esc text) rest).map (text.length + ·) := by
  induction text generalizing esc with
  | nil => simp [escapedAfter]
  | cons c text ih =>
    rw [List.cons_append, closing_other (h c (by simp)), ih fun d hd => h d (by simp [hd]),
      Option.map_map]
    congr 1
    funext n
    simp only [Function.comp_apply, List.length_cons]
    omega

theorem is_backslash_escaped_append (text : List UInt8) (c : UInt8) :
    is_backslash_escaped (text ++ [c]) = (c = 92 && !is_backslash_escaped text) := by
  unfold is_backslash_escaped
  rw [List.reverse_append, List.reverse_singleton, List.singleton_append]
  by_cases hc : c = 92
  · rw [List.takeWhile_cons_of_pos (by simp [hc]), List.length_cons]
    simp only [hc, decide_true, Bool.true_and]
    rcases Nat.mod_two_eq_zero_or_one (text.reverse.takeWhile (· = 92)).length with h | h <;>
      simp [h, Nat.add_mod]
  · rw [List.takeWhile_cons_of_neg (by simpa using hc)]
    simp [hc]

/-- The look back sees no further than the bytes since the last delimiter. -/
theorem is_backslash_escaped_eq (hcs : cs = [] ∨ ∃ init c, cs = init ++ [c] ∧ c ≠ 92)
    (text : List UInt8) : is_backslash_escaped (cs ++ text) = escapedAfter false text := by
  induction text using List.reverseRecOn with
  | nil =>
    rw [List.append_nil]
    rcases hcs with rfl | ⟨init, c, rfl, hc⟩
    · rfl
    · rw [is_backslash_escaped_append]
      simp [hc, escapedAfter]
  | append_singleton text c ih =>
    rw [← List.append_assoc, is_backslash_escaped_append, ih]
    simp [escapedAfter]

/-- `memchr` splits the bytes at the first delimiter. -/
theorem memchr_some {w : List UInt8} {n : ℕ} (h : memchr w delim = some n) :
    ∃ text rest, w = text ++ delim :: rest ∧ text.length = n ∧ ∀ c ∈ text, c ≠ delim := by
  obtain ⟨hn, hc, hbefore⟩ := List.findIdx?_eq_some_iff_getElem.mp h
  refine ⟨w.take n, w.drop (n + 1), ?_, by simp [hn.le], fun c hc => ?_⟩
  · have hget : w[n] = delim := by simpa using hc
    rw [← hget, ← List.drop_eq_getElem_cons hn, List.take_append_drop]
  · obtain ⟨i, hi, rfl⟩ := List.mem_take_iff_getElem.mp hc
    simpa using hbefore i (by omega)

theorem memchr_none {w : List UInt8} (h : memchr w delim = none) : ∀ c ∈ w, c ≠ delim := by
  simpa [memchr] using h

theorem nextDelim_append (delim : UInt8) (a w : List UInt8) :
    nextDelim (a ++ w) a.length delim = .ok ((memchr w delim).map (a.length + ·)) := by
  rw [nextDelim, tailInput_ok (by simp), List.drop_left, ok_bind]

theorem readInput_append (a : List UInt8) (c : UInt8) (w : List UInt8) :
    readInput (a ++ c :: w) a.length = .ok c := by
  rw [readInput_ok (by simp), readAt, List.getD_eq_getElem?_getD, List.getElem?_append_right le_rfl]
  simp

/-- A delimiter counts as doubled if the next byte, which must exist, is the same. -/
theorem is_double_delim_escaped_append (delim : UInt8) (a rest : List UInt8) :
    is_double_delim_escaped (a ++ delim :: rest) a.length = .ok (rest.head? = some delim) := by
  unfold is_double_delim_escaped andAlso
  cases rest with
  | nil => simp
  | cons d rest =>
    have hd : readInput (a ++ delim :: d :: rest) (a.length + 1) = .ok d := by
      have := readInput_append (a ++ [delim]) d rest
      simpa using this
    rw [if_pos (by simp), readInput_append, ok_bind, hd, ok_bind]
    simp

/-- What has been passed before the next delimiter is looked for: nothing, or a text that
does not end in a backslash. -/
def Fresh (mid : List UInt8) : Prop := mid = [] ∨ ∃ init c, mid = init ++ [c] ∧ c ≠ 92

theorem stringRound_append (hmid : Fresh cs) (pre : List UInt8) :
    stringRound (pre ++ (cs ++ (text ++ delim :: rest))) pre.length delim
        (some ((pre ++ (cs ++ text)).length)) =
      if escapedAfter false text then
        .ok (.inr ((memchr rest delim).map ((pre ++ (cs ++ text ++ [delim])).length + ·)))
      else if rest.head? = some delim then
        .ok (.inr ((memchr rest.tail delim).map
          ((pre ++ (cs ++ text ++ [delim, delim])).length + ·)))
      else .ok (.inl (some ((pre ++ (cs ++ text)).length))) := by
  have hlen : (pre ++ (cs ++ text)).length - pre.length = (cs ++ text).length := by simp
  have hblock : blockInput (pre ++ (cs ++ (text ++ delim :: rest))) pre.length
      (cs ++ text).length = .ok (cs ++ text) := by
    rw [blockInput_ok (by simp), List.drop_left, ← List.append_assoc, List.take_left]
  have hnext : nextDelim (pre ++ (cs ++ (text ++ delim :: rest)))
      ((pre ++ (cs ++ text)).length + 1) delim =
        .ok ((memchr rest delim).map ((pre ++ (cs ++ text ++ [delim])).length + ·)) := by
    have h := nextDelim_append delim (pre ++ (cs ++ text ++ [delim])) rest
    simpa [Nat.add_assoc] using h
  have hdouble : is_double_delim_escaped (pre ++ (cs ++ (text ++ delim :: rest)))
      (pre ++ (cs ++ text)).length = .ok (rest.head? = some delim) := by
    have h := is_double_delim_escaped_append delim (pre ++ (cs ++ text)) rest
    simpa only [List.append_assoc] using h
  unfold stringRound
  dsimp only
  rw [sizeSub_ok (by simp), ok_bind, hlen, hblock, ok_bind, is_backslash_escaped_eq hmid]
  split_ifs with hesc hd
  · rw [hnext]
    rfl
  · rw [hdouble, ok_bind]
    obtain ⟨rest', rfl⟩ : ∃ rest', rest = delim :: rest' := by
      cases rest with
      | nil => simp at hd
      | cons d rest' => exact ⟨rest', by simpa using hd⟩
    have h := nextDelim_append delim (pre ++ (cs ++ text ++ [delim, delim])) rest'
    have hnext2 : nextDelim (pre ++ (cs ++ (text ++ delim :: delim :: rest')))
        ((pre ++ (cs ++ text)).length + 2) delim = .ok ((memchr rest' delim).map
          ((pre ++ (cs ++ text ++ [delim, delim])).length + ·)) := by
      simpa [Nat.add_assoc] using h
    simp only [List.head?_cons, decide_true, if_true, hnext2]
    rfl
  · rw [hdouble, ok_bind]
    simp [hd]

/-- From one delimiter to the next, the loop goes the way of the scanner. -/
theorem rounds_stringRound (pre : List UInt8) (hdelim : delim ≠ 92) {mid w : List UInt8}
    (hmid : Fresh mid) {n : ℕ} (hn : w.length < n) :
    rounds .diverges (stringRound (pre ++ (mid ++ w)) pre.length delim) n
        ((memchr w delim).map ((pre ++ mid).length + ·)) =
      .ok ((closing delim false w).map ((pre ++ mid).length + ·)) := by
  induction n generalizing mid w with
  | zero => omega
  | succ n ih =>
    cases hm : memchr w delim with
    | none =>
      have hall : closing delim false (w ++ []) = _ := closing_append (memchr_none hm) false
      rw [List.append_nil] at hall
      rw [hall]
      rfl
    | some k =>
      obtain ⟨text, rest, rfl, rfl, htext⟩ := memchr_some hm
      rw [List.length_append, List.length_cons] at hn
      have hpos : (pre ++ mid).length + text.length = (pre ++ (mid ++ text)).length := by
        simp [Nat.add_assoc]
      rw [closing_append htext, Option.map_some, rounds, hpos, stringRound_append hmid]
      split_ifs with hesc hd
      · -- escaped: go on after it
        have hstep := @ih (mid ++ text ++ [delim]) rest
          (.inr ⟨_, _, rfl, hdelim⟩) (by omega)
        rw [hesc, closing_escaped, ok_bind, Sum.elim_inr]
        simp only [List.append_assoc, List.singleton_append] at hstep ⊢
        rw [hstep]
        congr 1
        simp only [Option.map_map]
        congr 1
        funext i
        simp
        omega
      · obtain ⟨rest', rfl⟩ : ∃ rest', rest = delim :: rest' := by
          cases rest with
          | nil => simp at hd
          | cons d rest' => exact ⟨rest', by simpa using hd⟩
        have hstep := @ih (mid ++ text ++ [delim, delim]) rest'
          (.inr ⟨mid ++ text ++ [delim], delim, by simp, hdelim⟩) (by simp at hn; omega)
        have hclose : closing delim false (delim :: delim :: rest') =
            (closing delim false rest').map (· + 2) := by
          rw [closing, if_pos rfl, if_neg (by decide), if_pos rfl]
        rw [Bool.not_eq_true] at hesc
        rw [hesc, hclose, ok_bind, Sum.elim_inr]
        simp only [List.append_assoc, List.cons_append, List.nil_append, List.tail_cons]
          at hstep ⊢
        rw [hstep]
        congr 1
        simp only [Option.map_map]
        congr 1
        funext i
        simp
        omega
      · have hclose : closing delim false (delim :: rest) = some 0 := by
          cases rest with
          | nil => simp [closing]
          | cons d rest =>
            have hdd : d ≠ delim := by simpa using hd
            rw [closing, if_pos rfl, if_neg (by decide), if_neg hdd]
        rw [Bool.not_eq_true] at hesc
        rw [hesc, hclose, ok_bind, Sum.elim_inl]
        simp [Nat.add_assoc]

/-- The search finds the closing delimiter of the scanner. -/
theorem closingDelim_eq (hdelim : delim ≠ 92) {start : ℕ} (h : start ≤ cs.length) :
    closingDelim cs start delim =
      .ok ((closing delim false (cs.drop start)).map (start + ·)) := by
  have hcs : cs.take start ++ ([] ++ cs.drop start) = cs := by simp
  have hlen : (cs.take start).length = start := by simp [h]
  have hr := @rounds_stringRound delim (cs.take start) hdelim [] (cs.drop start) (.inl rfl)
    (cs.length + 1) (by simp)
  rw [hcs, List.append_nil, hlen] at hr
  rw [closingDelim, nextDelim, tailInput_ok h, ok_bind, ok_bind, hr]

theorem closing_lt {esc : Bool} {w : List UInt8} {n : ℕ} (h : closing delim esc w = some n) :
    n < w.length := by
  fun_induction closing delim esc w generalizing n with
  | case1 | case2 | case4 => contradiction
  | case3 | case7 =>
    obtain rfl := Option.some.inj h
    simp
  | case5 _ _ ih | case6 _ _ _ ih | case8 _ _ _ _ _ ih =>
    obtain ⟨m, hm, rfl⟩ := Option.map_eq_some_iff.mp h
    have hlt := ih hm
    simp only [List.length_cons] at hlt ⊢
    omega

/-- The inside of a quoted string: plain bytes, bytes after a backslash, and doubled
delimiters. -/
inductive Body (delim : UInt8) : List UInt8 → Prop
  | nil : Body delim []
  | byte {c : UInt8} {body : List UInt8} (hc : c ≠ delim) (h92 : c ≠ 92) (h : Body delim body) :
      Body delim (c :: body)
  | escaped (c : UInt8) {body : List UInt8} (h : Body delim body) : Body delim (92 :: c :: body)
  | doubled {body : List UInt8} (h : Body delim body) : Body delim (delim :: delim :: body)

/-- The bytes of a string with the delimiter that closes it, and what follows. -/
structure Quoted (delim : UInt8) (w body rest : List UInt8) : Prop where
  eq : w = body ++ delim :: rest
  body : Body delim body
  closed : rest.head? ≠ some delim

theorem closing_true (c : UInt8) (w : List UInt8) :
    closing delim true (c :: w) = (closing delim false w).map (· + 1) := by
  by_cases hc : c = delim
  · rw [hc, closing_escaped]
  · rw [closing_other hc]
    simp

theorem closing_doubled (w : List UInt8) : closing delim false (delim :: delim :: w) =
    (closing delim false w).map (· + 2) := by
  rw [closing, if_pos rfl, if_neg (by decide), if_pos rfl]

theorem closing_here (h : rest.head? ≠ some delim) :
    closing delim false (delim :: rest) = some 0 := by
  cases rest with
  | nil => simp [closing]
  | cons d rest =>
    have hd : d ≠ delim := by simpa using h
    rw [closing, if_pos rfl, if_neg (by decide), if_neg hd]

/-- The scanner passes the inside of a string. -/
theorem Body.closing_append {body : List UInt8} (h : Body delim body) (hdelim : delim ≠ 92)
    (w : List UInt8) : closing delim false (body ++ w) =
      (closing delim false w).map (body.length + ·) := by
  induction h with
  | nil => simp
  | @byte c body hc h92 _ ih =>
    rw [List.cons_append, closing_other hc, show (decide (c = 92) && !false) = false by simpa,
      ih, Option.map_map]
    congr 1
    funext n
    simp only [Function.comp_apply, List.length_cons]
    omega
  | @escaped c body _ ih =>
    rw [List.cons_append, List.cons_append, closing_other hdelim.symm,
      show (decide ((92 : UInt8) = 92) && !false) = true by decide, closing_true, ih,
      Option.map_map, Option.map_map]
    congr 1
    funext n
    simp only [Function.comp_apply, List.length_cons]
    omega
  | @doubled body _ ih =>
    rw [List.cons_append, List.cons_append, closing_doubled, ih, Option.map_map]
    congr 1
    funext n
    simp only [Function.comp_apply, List.length_cons]
    omega

theorem Quoted.closing_eq {w body : List UInt8} (h : Quoted delim w body rest)
    (hdelim : delim ≠ 92) : closing delim false w = some body.length := by
  rw [h.eq, h.body.closing_append hdelim, closing_here h.closed]
  rfl

/-- Where the scanner stops, the string ends. -/
theorem quoted_of_closing (hdelim : delim ≠ 92) {w : List UInt8} {n : ℕ}
    (h : closing delim false w = some n) :
    ∃ body rest, Quoted delim w body rest ∧ body.length = n := by
  induction hm : w.length using Nat.strong_induction_on generalizing w n with
  | h m ih =>
    subst hm
    cases w with
    | nil => contradiction
    | cons c w =>
      by_cases hc : c = delim
      · subst hc
        by_cases hd : w.head? = some c
        · obtain ⟨w', rfl⟩ := List.head?_eq_some_iff.mp hd
          rw [closing_doubled] at h
          obtain ⟨k, hk, rfl⟩ := Option.map_eq_some_iff.mp h
          obtain ⟨body, rest, hq, rfl⟩ := ih _ (by simp) hk rfl
          exact ⟨c :: c :: body, rest, ⟨by simp [hq.eq], hq.body.doubled, hq.closed⟩, rfl⟩
        · rw [closing_here hd] at h
          exact ⟨[], w, ⟨rfl, .nil, hd⟩, Option.some.inj h⟩
      · rw [closing_other hc] at h
        obtain ⟨k, hk, rfl⟩ := Option.map_eq_some_iff.mp h
        by_cases h92 : c = 92
        · subst h92
          rw [show (decide ((92 : UInt8) = 92) && !false) = true by decide] at hk
          cases w with
          | nil => contradiction
          | cons d w =>
            rw [closing_true] at hk
            obtain ⟨k', hk', rfl⟩ := Option.map_eq_some_iff.mp hk
            obtain ⟨body, rest, hq, rfl⟩ := ih _ (by simp) hk' rfl
            exact ⟨92 :: d :: body, rest, ⟨by simp [hq.eq], hq.body.escaped d, hq.closed⟩, rfl⟩
        · rw [show (decide (c = 92) && !false) = false by simpa] at hk
          obtain ⟨body, rest, hq, rfl⟩ := ih _ (by simp) hk rfl
          exact ⟨c :: body, rest, ⟨by simp [hq.eq], hq.body.byte hc h92, hq.closed⟩, rfl⟩

theorem closing_eq_none (hdelim : delim ≠ 92) {w : List UInt8}
    (h : ¬ ∃ body rest, Quoted delim w body rest) : closing delim false w = none := by
  cases hc : closing delim false w with
  | none => rfl
  | some n =>
    obtain ⟨body, rest, hq, -⟩ := quoted_of_closing hdelim hc
    exact absurd ⟨body, rest, hq⟩ h

/-- The token of a string that starts at `start` with the bytes `w` after it and is closed
at offset `q`. -/
def stringToken (st : stoken_t) (delim : UInt8) (offset start : ℕ) (w : List UInt8)
    (q : Option ℕ) : stoken_t :=
  { st with
    type := TYPE_STRING, pos := start, len := min (q.getD w.length) 31,
    str_open := if 0 < offset then delim else CHAR_NULL,
    str_close := if q.isSome then delim else CHAR_NULL,
    val := w.take (min (q.getD w.length) 31) ++ List.replicate (32 - min (q.getD w.length) 31) 0 }

theorem parse_string_core_eq (hdelim : delim ≠ 92) {pos offset : ℕ} (h : pos + offset ≤ cs.length)
    {st : stoken_t} (hst : st.Cleared) {q : Option ℕ}
    (hq : q = closing delim false (cs.drop (pos + offset))) :
    parse_string_core cs pos st delim offset =
      .ok (q.elim cs.length (pos + offset + · + 1),
        stringToken st delim offset (pos + offset) (cs.drop (pos + offset)) q) := by
  have hopen : ({ st with str_open := if 0 < offset then delim else CHAR_NULL } :
      stoken_t).Cleared := hst
  unfold parse_string_core
  dsimp only
  rw [closingDelim_eq hdelim h, ok_bind, tailInput_ok h, ok_bind, ← hq]
  cases q with
  | none =>
    rw [Option.map_none]
    dsimp only
    rw [st_assign_cleared hopen TYPE_STRING le_rfl, ok_bind]
    rfl
  | some n =>
    have hn := (closing_lt hq.symm).le
    rw [Option.map_some]
    dsimp only
    rw [Nat.add_sub_cancel_left, st_assign_cleared hopen TYPE_STRING hn, ok_bind]
    rfl

theorem text_stringToken (st : stoken_t) (delim : UInt8) (offset start : ℕ) (w : List UInt8)
    {q : Option ℕ} (hq : q.getD w.length ≤ w.length) :
    (stringToken st delim offset start w q).text (stringToken st delim offset start w q).len =
      w.take (min (q.getD w.length) 31) := by
  have hlen : (w.take (min (q.getD w.length) 31)).length = min (q.getD w.length) 31 := by
    rw [List.length_take]
    omega
  have hbytes := bytes_append (s := w.take (min (q.getD w.length) 31)) hlen.ge
    (List.replicate (32 - min (q.getD w.length) 31) 0)
  rw [List.take_of_length_le hlen.le] at hbytes
  exact hbytes

/-- A string token reaches up to the first delimiter that is neither escaped nor doubled, as
the grammar of string bodies says, or to the end of the input if there is none. -/
theorem parse_string_core_exact (hdelim : delim ≠ 92) {pos offset : ℕ}
    (h : pos + offset ≤ cs.length) {st : stoken_t} (hst : st.Cleared) :
    ∃ next t, parse_string_core cs pos st delim offset = .ok (next, t) ∧
      t.type = TYPE_STRING ∧ t.pos = pos + offset ∧
      (∀ body rest, Quoted delim (cs.drop (pos + offset)) body rest →
        next = pos + offset + body.length + 1 ∧ t.text t.len = body.take 31 ∧
          t.str_close = delim) ∧
      ((¬ ∃ body rest, Quoted delim (cs.drop (pos + offset)) body rest) →
        next = cs.length ∧ t.text t.len = (cs.drop (pos + offset)).take 31 ∧
          t.str_close = CHAR_NULL) := by
  refine ⟨_, _, parse_string_core_eq hdelim h hst rfl, rfl, rfl, fun body rest hq => ?_,
    fun hnone => ?_⟩
  · have hclose := hq.closing_eq hdelim
    have hlen : body.length ≤ (cs.drop (pos + offset)).length := by
      rw [hq.eq, List.length_append]
      omega
    rw [hclose]
    refine ⟨rfl, ?_, rfl⟩
    rw [text_stringToken (q := some body.length) _ _ _ _ _ hlen, hq.eq, Option.getD_some, min_comm, ← List.take_take,
      List.take_left]
  · rw [closing_eq_none hdelim hnone]
    refine ⟨rfl, ?_, rfl⟩
    rw [text_stringToken _ _ _ _ _ le_rfl, Option.getD_none, min_comm, ← List.take_take,
      List.take_length]

/-- A string with a doubled delimiter and no end. -/
theorem parse_string_core_exact_open : ∃ next t,
    parse_string_core (ascii "'it''s") 0 st_clear 39 1 = .ok (next, t) ∧ t.type = TYPE_STRING ∧
      t.pos = 1 := by
  obtain ⟨next, t, heq, htype, hpos, -⟩ :=
    @parse_string_core_exact 39 (ascii "'it''s") (by decide) 0 1 (by decide) st_clear rfl
  exact ⟨next, t, heq, htype, hpos⟩

/-- Delimiters doubled, as standard SQL quotes a text. -/
def doubleQuote (delim : UInt8) (text : List UInt8) : List UInt8 :=
  text.flatMap fun c => if c = delim then [c, c] else [c]

/-- Delimiters and backslashes after a backslash. -/
def slashQuote (delim : UInt8) (text : List UInt8) : List UInt8 :=
  text.flatMap fun c => if c = delim ∨ c = 92 then [92, c] else [c]

theorem body_doubleQuote (h : ∀ c ∈ text, c ≠ 92) : Body delim (doubleQuote delim text) := by
  induction text with
  | nil => exact .nil
  | cons c text ih =>
    have hrest := ih fun d hd => h d (by simp [hd])
    unfold doubleQuote at hrest ⊢
    rw [List.flatMap_cons]
    split_ifs with hc
    · exact hc ▸ hrest.doubled
    · exact hrest.byte hc (h c (by simp))

theorem body_slashQuote (delim : UInt8) (text : List UInt8) :
    Body delim (slashQuote delim text) := by
  induction text with
  | nil => exact .nil
  | cons c text ih =>
    unfold slashQuote at ih ⊢
    rw [List.flatMap_cons]
    split_ifs with hc
    · exact ih.escaped c
    · exact ih.byte (fun hd => hc (.inl hd)) fun h92 => hc (.inr h92)

/-- A text quoted in either way is read back as one string with both quotes set, and of what
was quoted the token keeps 31 bytes. A text whose quotes are doubled has no backslash, and what
follows the closing quote does not begin with that quote. -/
theorem parse_string_quoted {sf : sfilter} {pre quoted : List UInt8} {quote : UInt8}
    (hquote : quote ≠ 92) (hc : sf.cur.Cleared)
    (hs : sf.s = pre ++ quote :: (quoted ++ quote :: rest)) (hpos : sf.pos = pre.length)
    (hquoted : quoted = slashQuote quote text ∨
      quoted = doubleQuote quote text ∧ ∀ c ∈ text, c ≠ 92)
    (hrest : rest.head? ≠ some quote) :
    ∃ t, parse_string sf = .ok (pre.length + 1 + quoted.length + 1, sf.setCurrent t) ∧
      t.type = TYPE_STRING ∧ t.pos = pre.length + 1 ∧ t.text t.len = quoted.take 31 ∧
      t.str_open = quote ∧ t.str_close = quote := by
  have hbody : Body quote quoted := by
    rcases hquoted with rfl | ⟨rfl, h92⟩
    · exact body_slashQuote quote text
    · exact body_doubleQuote h92
  have hdrop : sf.s.drop (pre.length + 1) = quoted ++ quote :: rest := by
    simp [hs]
  have hclose : closing quote false (sf.s.drop (pre.length + 1)) = some quoted.length :=
    Quoted.closing_eq ⟨hdrop, hbody, hrest⟩ hquote
  have hread : readInput sf.s pre.length = .ok quote := by
    rw [hs]
    exact readInput_append _ _ _
  have htext := text_stringToken sf.cur quote 1 (pre.length + 1) (quoted ++ quote :: rest)
    (q := some quoted.length) (by simp)
  rw [Option.getD_some, min_comm, ← List.take_take, List.take_left] at htext
  refine ⟨stringToken sf.cur quote 1 (pre.length + 1) (quoted ++ quote :: rest)
    (some quoted.length), ?_, rfl, rfl, htext, rfl, rfl⟩
  rw [parse_string, hpos, hread, ok_bind, stringCurrent, hpos,
    parse_string_core_eq hquote (by simp [hs]) hc hclose.symm, ok_bind, hdrop]
  rfl

/-- `'it\'s'` and a blank. -/
theorem parse_string_quoted_slash : ∃ t,
    parse_string (libinjection_sqli_init (ascii "'it\\'s' ") 0) =
      .ok (7, (libinjection_sqli_init (ascii "'it\\'s' ") 0).setCurrent t) ∧
      t.type = TYPE_STRING ∧ t.pos = 1 ∧ t.text t.len = ascii "it\\'s" ∧
      t.str_open = 39 ∧ t.str_close = 39 :=
  @parse_string_quoted (ascii "it's") (ascii " ") (libinjection_sqli_init (ascii "'it\\'s' ") 0) []
    (ascii "it\\'s") 39 (by decide) rfl rfl rfl (.inl rfl) (by decide)

end OctopusWaf.Libinjection
