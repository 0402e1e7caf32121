import OctopusWaf.VerdictHistory

/-! The detectors one by one. They share one buffer, and only the tokeniser in front of
libinjection writes to it. -/
namespace OctopusWaf
open CMachine CString

/-- The block list test and every enabled detector on the decoded request as `urldecode`
returned it. -/
def disjunction (ar : IntArith) (e : Engines) (param : Choice) (input : List UInt8)
    (seen : Seen) : Except Trap Bool := do
  let buf := tmpbuf input seen
  let byAddress ← Prod.fst <$> blocklist_ip param.block_addr_list seen.addr_ip
  let byMatch ← algorithmTest ar e param buf (strnlen buf 6128)
  let bySqli ← Prod.fst <$> sqliTest e param buf
  let byRegex ← regexTest ar e param buf (strnlen buf 6128)
  .ok (byAddress || byMatch || bySqli || byRegex)

/-- Libinjection's answer over the lines of a buffer. -/
def sqliHit (e : Engines) (param : Choice) (buf : List UInt8) : Bool :=
  param.libinjection_sqli && (tokens newline buf).any (libinjection_test_sqli e)

/-- The buffer as the tokeniser in front of libinjection leaves it. -/
def sqliLeft (e : Engines) (param : Choice) (buf : List UInt8) : List UInt8 :=
  match sqliTest e param buf with
  | .ok (_, left) => left
  | .error _ => buf

section Sqli

variable {e : Engines} {param : Choice} {buf : List UInt8}

theorem sqliTest_eq (e : Engines) (param : Choice) (buf : List UInt8) :
    sqliTest e param buf = .ok (sqliHit e param buf, sqliLeft e param buf) := by
  unfold sqliLeft
  cases hs : param.libinjection_sqli with
  | true =>
    obtain ⟨after, h⟩ := scanTokens_total (ε := Trap) newline_ne_zero
      (libinjection_test_sqli e) buf
    have ht : sqliTest e param buf = .ok (sqliHit e param buf, after) := by
      rw [sqliTest, hs, if_pos rfl, split_and_check, h, sqliHit, hs, Bool.true_and]
    rw [ht]
  | false => simp [sqliTest, sqliHit, hs]

/-- Without libinjection, or on a single line, nothing is overwritten. -/
theorem sqliLeft_eq_self (h : param.libinjection_sqli = false ∨ newline ∉ cstr buf) :
    sqliLeft e param buf = buf := by
  have heq := sqliTest_eq e param buf
  cases hs : param.libinjection_sqli with
  | true =>
    have hline : newline ∉ cstr buf := h.resolve_left (by simp [hs])
    rw [sqliTest, hs, if_pos rfl] at heq
    exact scanTokens_left_eq (by decide) hline heq
  | false =>
    rw [sqliTest, hs] at heq
    exact (Prod.mk.inj (Except.ok.inj heq)).2.symm

end Sqli

/-- Tokenising has not changed what the expressions say of the request, or another test has
already decided and the expressions complete. -/
def RegexUndisturbed (ar : IntArith) (e : Engines) (param : Choice) (buf : List UInt8)
    (byOther : Bool) : Prop :=
  regexTest ar e param (sqliLeft e param buf) (strnlen buf 6128) =
      regexTest ar e param buf (strnlen buf 6128) ∨
    byOther = true ∧
      (∃ v, regexTest ar e param (sqliLeft e param buf) (strnlen buf 6128) = .ok v) ∧
      ∃ v, regexTest ar e param buf (strnlen buf 6128) = .ok v

/-- No test has anything to record. -/
def Quiet (ar : IntArith) (e : Engines) (param : Choice) (buf : List UInt8) (byOther : Bool) :
    Prop :=
  byOther = false ∧ regexTest ar e param (sqliLeft e param buf) (strnlen buf 6128) ≠ .ok true

theorem regexTest_error {ar : IntArith} {e : Engines} {param : Choice} {buf : List UInt8}
    {len : ℕ} {t : Trap} (h : regexTest ar e param buf len = .error t) : t = .exit := by
  unfold regexTest at h
  split_ifs at h
  exact matchlist_regex_error h

/-- A `1`, white space and `or`, the meaning of the expression `1\sor`. -/
def spacedOr : List UInt8 → Bool
  | 49 :: c :: 111 :: 114 :: rest =>
    c ∈ ascii " \t\n\r" || spacedOr (c :: 111 :: 114 :: rest)
  | _ :: rest => spacedOr rest
  | [] => false

/-- Engines that know this one expression, and nothing of SQL. -/
def spaceEngines : Engines :=
  ⟨fun _ => false, fun _ => true, fun p s => if p = ascii "1\\sor" ∧ spacedOr s then 1 else -1⟩

/-- Libinjection and the regular expressions enabled, nothing else. -/
def sqliAndRegex : Choice :=
  { matchOnly [] 0 with regex_rules := ascii "1\\sor\n", libinjection_sqli := true, pcre := true }

section Disjunction

variable {ar : IntArith} {e : Engines} {param : Choice} {input : List UInt8} {seen : Seen}
  {byAddress byMatch : Bool}

theorem disjunction_eq
    (haddr : Prod.fst <$> blocklist_ip param.block_addr_list seen.addr_ip = .ok byAddress)
    (hmatch : algorithmTest ar e param (tmpbuf input seen) (strnlen (tmpbuf input seen) 6128) =
      .ok byMatch) :
    disjunction ar e param input seen =
      (byAddress || byMatch || sqliHit e param (tmpbuf input seen) || ·) <$>
        regexTest ar e param (tmpbuf input seen) (strnlen (tmpbuf input seen) 6128) := by
  rw [disjunction, haddr, hmatch, sqliTest_eq]
  rfl

/-- A verdict where every hit can be recorded differs in the buffer of the expressions. -/
theorem verdict_eq_disjunction_loggable (hreq : is_request (tmpbuf input seen) = true)
    (h : Loggable param seen)
    (haddr : Prod.fst <$> blocklist_ip param.block_addr_list seen.addr_ip = .ok byAddress)
    (hmatch : algorithmTest ar e param (tmpbuf input seen) (strnlen (tmpbuf input seen) 6128) =
      .ok byMatch) :
    verdict ar e param input seen = disjunction ar e param input seen ↔
      RegexUndisturbed ar e param (tmpbuf input seen)
        (byAddress || byMatch || sqliHit e param (tmpbuf input seen)) := by
  rw [verdict_loggable hreq h, disjunction_eq haddr hmatch, haddr]
  unfold RegexUndisturbed detect
  rw [hmatch, sqliTest_eq]
  simp only [Functor.map, Except.map, bind, Except.bind]
  cases regexTest ar e param (sqliLeft e param (tmpbuf input seen))
      (strnlen (tmpbuf input seen) 6128) with
  | error t =>
    cases regexTest ar e param (tmpbuf input seen) (strnlen (tmpbuf input seen) 6128) with
    | error t' => simp
    | ok v' => simp
  | ok v =>
    cases regexTest ar e param (tmpbuf input seen) (strnlen (tmpbuf input seen) 6128) with
    | error t' => simp
    | ok v' =>
      cases v <;> cases v' <;> simp [Bool.or_assoc]

/-- The hit of the block list can always be recorded. -/
theorem logHit_byAddress
    (haddr : Prod.fst <$> blocklist_ip param.block_addr_list seen.addr_ip = .ok byAddress)
    (mode data : List UInt8) (len : ℕ) :
    ∃ log, logHit param byAddress mode seen.addr_ip data len = .ok log := by
  cases byAddress with
  | true =>
    obtain ⟨⟨found, after⟩, hblock, rfl⟩ := map_ok haddr
    obtain ⟨addr, hsome, -⟩ := blocklist_ip_found hblock
    exact logHit_loggable (loggable_some hsome) _ _ _ _
  | false => exact ⟨[], by simp [logHit]⟩

/-- Where none can, the first hit stops the program. -/
theorem verdict_unrecorded (hreq : is_request (tmpbuf input seen) = true)
    (h : ¬ Loggable param seen)
    (haddr : Prod.fst <$> blocklist_ip param.block_addr_list seen.addr_ip = .ok byAddress)
    (hmatch : algorithmTest ar e param (tmpbuf input seen) (strnlen (tmpbuf input seen) 6128) =
      .ok byMatch) :
    verdict ar e param input seen =
      if (byAddress || byMatch || sqliHit e param (tmpbuf input seen)) = true then
        .error .nullPointer
      else (do
        let byRegex ← regexTest ar e param (sqliLeft e param (tmpbuf input seen))
          (strnlen (tmpbuf input seen) 6128)
        if byRegex then .error .nullPointer else .ok false) := by
  rw [verdict_eq hreq, haddr]
  simp only [logHit_not_loggable h, hmatch, sqliTest_eq, bind, Except.bind]
  cases byAddress with
  | true => rfl
  | false =>
    cases byMatch with
    | true => rfl
    | false =>
      cases sqliHit e param (tmpbuf input seen) with
      | true => rfl
      | false =>
        cases regexTest ar e param (sqliLeft e param (tmpbuf input seen))
            (strnlen (tmpbuf input seen) 6128) with
        | error t => rfl
        | ok byRegex => cases byRegex <;> rfl

theorem verdict_eq_disjunction_not_loggable (hreq : is_request (tmpbuf input seen) = true)
    (h : ¬ Loggable param seen)
    (haddr : Prod.fst <$> blocklist_ip param.block_addr_list seen.addr_ip = .ok byAddress)
    (hmatch : algorithmTest ar e param (tmpbuf input seen) (strnlen (tmpbuf input seen) 6128) =
      .ok byMatch) :
    verdict ar e param input seen = disjunction ar e param input seen ↔
      RegexUndisturbed ar e param (tmpbuf input seen)
          (byAddress || byMatch || sqliHit e param (tmpbuf input seen)) ∧
        Quiet ar e param (tmpbuf input seen)
          (byAddress || byMatch || sqliHit e param (tmpbuf input seen)) := by
  rw [verdict_unrecorded hreq h haddr hmatch, disjunction_eq haddr hmatch]
  unfold RegexUndisturbed Quiet
  simp only [Functor.map, Except.map, bind, Except.bind]
  generalize (byAddress || byMatch || sqliHit e param (tmpbuf input seen)) = byOther
  -- the expressions never fail on a null pointer, so a stopped verdict is not the disjunction
  have hright : regexTest ar e param (tmpbuf input seen) (strnlen (tmpbuf input seen) 6128) ≠
      .error .nullPointer := fun hr => by simpa using regexTest_error hr
  cases hr : regexTest ar e param (tmpbuf input seen) (strnlen (tmpbuf input seen) 6128) with
  | error t =>
    have ht : t ≠ .nullPointer := fun h => hright (by rw [hr, h])
    cases regexTest ar e param (sqliLeft e param (tmpbuf input seen))
        (strnlen (tmpbuf input seen) 6128) with
    | error t' => cases byOther <;> simp [ht.symm]
    | ok v => cases byOther <;> cases v <;> simp [ht.symm]
  | ok v' =>
    cases regexTest ar e param (sqliLeft e param (tmpbuf input seen))
        (strnlen (tmpbuf input seen) 6128) with
    | error t' => cases byOther <;> simp
    | ok v => cases byOther <;> cases v <;> simp

end Disjunction

/-- With given engines: where the block list and the match list complete, the verdict on an
accepted request is the disjunction of the tests exactly if the expressions are undisturbed,
and every hit can be recorded or there is none. -/
theorem verdict_eq_disjunction_engines_iff {ar : IntArith} {e : Engines} {param : Choice}
    {input : List UInt8} {seen : Seen} (hreq : is_request (tmpbuf input seen) = true) :
    verdict ar e param input seen = disjunction ar e param input seen ↔
      ∀ byAddress byMatch,
        Prod.fst <$> blocklist_ip param.block_addr_list seen.addr_ip = .ok byAddress →
        algorithmTest ar e param (tmpbuf input seen) (strnlen (tmpbuf input seen) 6128) =
          .ok byMatch →
        RegexUndisturbed ar e param (tmpbuf input seen)
            (byAddress || byMatch || sqliHit e param (tmpbuf input seen)) ∧
          (Loggable param seen ∨ Quiet ar e param (tmpbuf input seen)
            (byAddress || byMatch || sqliHit e param (tmpbuf input seen))) := by
  constructor
  · intro h byAddress byMatch haddr hmatch
    by_cases hl : Loggable param seen
    · exact ⟨(verdict_eq_disjunction_loggable hreq hl haddr hmatch).mp h, .inl hl⟩
    · obtain ⟨hregex, hquiet⟩ := (verdict_eq_disjunction_not_loggable hreq hl haddr hmatch).mp h
      exact ⟨hregex, .inr hquiet⟩
  · intro h
    cases haddr : Prod.fst <$> blocklist_ip param.block_addr_list seen.addr_ip with
    | error t =>
      rw [verdict_eq hreq, disjunction, haddr]
      rfl
    | ok byAddress =>
      cases hmatch : algorithmTest ar e param (tmpbuf input seen)
          (strnlen (tmpbuf input seen) 6128) with
      | error t =>
        obtain ⟨log, hlog⟩ := logHit_byAddress haddr (ascii "Block per address") (ascii " ") 1
        rw [verdict_eq hreq, disjunction, haddr]
        simp only [bind, Except.bind, hlog, hmatch]
      | ok byMatch =>
        obtain ⟨hregex, hrecord⟩ := h byAddress byMatch haddr hmatch
        by_cases hl : Loggable param seen
        · exact (verdict_eq_disjunction_loggable hreq hl haddr hmatch).mpr hregex
        · exact (verdict_eq_disjunction_not_loggable hreq hl haddr hmatch).mpr
            ⟨hregex, hrecord.resolve_left hl⟩

section Engines

variable {ar : IntArith} {e : Engines} {param : Choice} {input : List UInt8} {seen : Seen}

/-- Engines that take every expression of the list for a predicate of the subject. -/
def Compiles (e : Engines) (param : Choice) : Prop :=
  ∀ line ∈ tokens newline param.regex_rules, e.pcre_compile line = true

/-- No expression is ever run. -/
def NoExpression (param : Choice) : Prop :=
  longLines param.regex_rules = [] ∨ param.pcre = false ∧ param.option_algorithm ≠ 4

theorem matchLine_engines (ar : IntArith) (e e' : Engines) (buf : List UInt8) (len : ℕ)
    (line : List UInt8) : (k : ℕ) → k ≠ 4 →
      matchLine ar e buf len k line = matchLine ar e' buf len k line
  | 0, _ | 1, _ | 2, _ | 3, _ => rfl
  | 4, hk => absurd rfl hk
  | _ + 5, _ => rfl

/-- The engines are not asked by the three exact searches. -/
theorem algorithmTest_engines (ar : IntArith) (e e' : Engines) (buf : List UInt8) (len : ℕ)
    (hk : param.option_algorithm ≠ 4) :
    algorithmTest ar e param buf len = algorithmTest ar e' param buf len := by
  have hline : matchLine ar e buf len param.option_algorithm =
      matchLine ar e' buf len param.option_algorithm :=
    funext fun line => matchLine_engines ar e e' buf len line _ hk
  unfold algorithmTest matchlist
  rw [hline]

/-- With option 4 the match list is the list of the expressions. -/
theorem algorithmTest_regex (e : Engines) (buf : List UInt8) (len : ℕ)
    (hk : param.option_algorithm = 4) :
    algorithmTest ar e param buf len = matchlist ar e param buf len 4 := by
  rw [algorithmTest, hk, if_pos (by decide)]

/-- Expressions that do not match make no difference to the match list. -/
theorem algorithmTest_silent {buf : List UInt8} {len : ℕ} (hc : Compiles e param)
    (hexec : ∀ line ∈ longLines param.regex_rules, e.pcre_exec line (bytes buf len) ≤ 0) :
    algorithmTest ar e param buf len = algorithmTest ar quietEngines param buf len := by
  by_cases hk : param.option_algorithm = 4
  · have hsilent {e : Engines} (hc : Compiles e param)
        (hexec : ∀ line ∈ longLines param.regex_rules, e.pcre_exec line (bytes buf len) ≤ 0) :
        matchlist ar e param buf len 4 = .ok false := by
      obtain ⟨v, hrun, hv⟩ := matchlist_regex ar buf len hc
      have hmiss : v = false := by
        rw [← Bool.not_eq_true, hv]
        rintro ⟨line, hline, hpos⟩
        exact absurd (hexec line hline) (not_le.mpr hpos)
      rw [hrun, hmiss]
    have hquiet : ∀ line ∈ longLines param.regex_rules,
        quietEngines.pcre_exec line (bytes buf len) ≤ 0 :=
      fun _ _ => (by decide : (-1 : ℤ) ≤ 0)
    rw [algorithmTest_regex e buf len hk, algorithmTest_regex quietEngines buf len hk,
      hsilent hc hexec, hsilent (fun _ _ => rfl) hquiet]
  · exact algorithmTest_engines ar e quietEngines buf len hk

/-- What the match list finds without the engines it finds with them. -/
theorem algorithmTest_found {buf : List UInt8} {len : ℕ} {byMatch : Bool}
    (hmatch : algorithmTest ar e param buf len = .ok byMatch) :
    ∃ found, algorithmTest ar quietEngines param buf len = .ok found ∧
      (found = true → byMatch = true) := by
  by_cases hk : param.option_algorithm = 4
  · have hnone : Compiles quietEngines param := fun _ _ => rfl
    obtain ⟨v, hlist, hv⟩ := matchlist_regex ar buf len hnone
    refine ⟨v, (algorithmTest_regex _ _ _ hk).trans hlist, fun htrue => ?_⟩
    obtain ⟨line, -, hpos⟩ := hv.mp htrue
    exact absurd hpos (by simp [quietEngines])
  · exact ⟨byMatch, (algorithmTest_engines ar quietEngines e buf len hk).trans hmatch, id⟩

/-- The expressions see of a buffer no more than the bytes up to the length given. -/
theorem regexTest_congr {a b : List UInt8} {len : ℕ} (h : bytes a len = bytes b len) :
    regexTest ar e param a len = regexTest ar e param b len := by
  have hline : matchLine ar e a len 4 = matchLine ar e b len 4 := by
    funext line
    simp only [matchLine, pcre_regex_search, h]
  unfold regexTest matchlist
  rw [hline]

/-- Expressions that compile complete, and hit if one of them does. -/
theorem regexTest_compiles (hc : Compiles e param) (buf : List UInt8) (len : ℕ) :
    ∃ v, regexTest ar e param buf len = .ok v ∧ (v = true ↔ param.pcre = true ∧
      ∃ line ∈ longLines param.regex_rules, 0 < e.pcre_exec line (bytes buf len)) := by
  unfold regexTest
  cases hp : param.pcre with
  | true =>
    obtain ⟨v, hrun, hv⟩ := matchlist_regex ar buf len hc
    exact ⟨v, by rw [if_pos rfl, hrun], by rw [hv]; simp⟩
  | false => exact ⟨false, rfl, by simp⟩

theorem is_request_head {ptr : List UInt8} (h : is_request ptr = true) :
    readAt ptr 0 ≠ newline ∧ readAt ptr 0 ≠ 0 := by
  have hmethod : memcmpEq ptr (ascii "GET") 3 = true ∨ memcmpEq ptr (ascii "POST") 4 = true ∨
      memcmpEq ptr (ascii "PUT") 3 = true ∨ memcmpEq ptr (ascii "DELETE") 6 = true := by
    unfold is_request at h
    split_ifs at h
    simpa only [Bool.or_eq_true, or_assoc] using h
  rcases hmethod with hm | hm | hm | hm
  · rw [memcmpEq_iff.mp hm 0 (by decide)]
    decide +kernel
  · rw [memcmpEq_iff.mp hm 0 (by decide)]
    decide +kernel
  · rw [memcmpEq_iff.mp hm 0 (by decide)]
    decide +kernel
  · rw [memcmpEq_iff.mp hm 0 (by decide)]
    decide +kernel

/-- The first line of a request, if it ends within what is searched. -/
theorem request_first_line {buf : List UInt8} (hreq : is_request buf = true)
    (hbreak : newline ∈ (cstr buf).take 6128) : ∃ t rest, buf = t ++ newline :: rest ∧ t ≠ [] ∧
      (∀ c ∈ t, c ≠ newline ∧ c ≠ 0) ∧ t.length < strnlen buf 6128 := by
  obtain ⟨t, u, hsplit, hfirst⟩ := List.eq_append_cons_of_mem hbreak
  obtain ⟨tail, htail⟩ := (List.take_prefix 6128 (cstr buf)).trans (cstr_prefix_self buf)
  have hbuf : buf = t ++ newline :: (u ++ tail) := by
    rw [← htail, hsplit]
    simp
  have hin : ∀ c ∈ t, c ∈ cstr buf := fun c hc =>
    List.mem_of_mem_take (i := 6128) (by rw [hsplit]; simp [hc])
  refine ⟨t, u ++ tail, hbuf, ?_, fun c hc => ⟨?_, cstr_no_zero buf c (hin c hc)⟩, ?_⟩
  · rintro rfl
    apply (is_request_head hreq).1
    rw [hbuf]
    rfl
  · rintro rfl
    exact hfirst hc
  · have hlen := congrArg List.length hsplit
    rw [List.length_take, ← strnlen_eq, List.length_append, List.length_cons] at hlen
    omega

theorem tokens_ne_nil {buf : List UInt8} (hreq : is_request buf = true) :
    tokens newline buf ≠ [] := by
  obtain ⟨hbreak, hend⟩ := is_request_head hreq
  cases hs : strtok newline buf with
  | some t =>
    rw [tokens_of_strtok_some newline_ne_zero hs]
    exact List.cons_ne_nil _ _
  | none =>
    obtain ⟨skipped, tail, rfl, hskip, htail⟩ := strtok_none hs
    cases skipped with
    | nil =>
      cases tail with
      | nil => exact absurd rfl hend
      | cons c tail =>
        have hc : c ≠ 0 := hend
        rw [cstr_cons hc] at htail
        exact absurd htail (List.cons_ne_nil _ _)
    | cons c skipped => exact absurd (hskip c (by simp)) hbreak

/-- With libinjection on, the tokeniser changes the searched text exactly if it has a line
break. -/
theorem bytes_sqliLeft_iff {buf : List UInt8} (hreq : is_request buf = true)
    (hs : param.libinjection_sqli = true) :
    bytes (sqliLeft e param buf) (strnlen buf 6128) = bytes buf (strnlen buf 6128) ↔
      newline ∉ (cstr buf).take 6128 := by
  have hscan := sqliTest_eq e param buf
  rw [sqliTest, hs, if_pos rfl, split_and_check] at hscan
  constructor
  · intro heq hbreak
    obtain ⟨t, rest, hbuf, hne, ht, hlt⟩ := request_first_line hreq hbreak
    have hcut : readAt (sqliLeft e param buf) t.length = 0 := by
      rw [hbuf] at hscan ⊢
      exact scanTokens_cuts hne ht hscan
    have hkept : readAt buf t.length = newline := by
      rw [hbuf]
      simp [readAt]
    have hsame := congrArg (·[t.length]?) heq
    rw [getElem?_bytes _ hlt, getElem?_bytes _ hlt, hcut, hkept] at hsame
    exact absurd hsame (by decide)
  · intro hno
    rw [← bytes_strnlen] at hno
    apply List.map_congr_left
    intro i hi
    apply readAt_overwrites (scanTokens_overwrites hscan)
    intro hnew
    apply hno
    rw [← hnew]
    exact List.mem_map_of_mem hi

/-- Nothing of the request is hidden from the expressions. -/
def Unhidden (param : Choice) (buf : List UInt8) : Prop :=
  param.libinjection_sqli = false ∨ param.pcre = false ∨ longLines param.regex_rules = [] ∨
    newline ∉ (cstr buf).take 6128

theorem regexTest_unhidden {buf : List UInt8} (hreq : is_request buf = true)
    (hc : Compiles e param) (h : Unhidden param buf) :
    regexTest ar e param (sqliLeft e param buf) (strnlen buf 6128) =
      regexTest ar e param buf (strnlen buf 6128) := by
  rcases h with hs | hp | hempty | hno
  · rw [sqliLeft_eq_self (.inl hs)]
  · rw [regexTest, regexTest, hp]
    rfl
  · obtain ⟨v, hrun, hv⟩ := @regexTest_compiles ar e param hc (sqliLeft e param buf)
      (strnlen buf 6128)
    obtain ⟨v', hrun', hv'⟩ := @regexTest_compiles ar e param hc buf (strnlen buf 6128)
    have hfalse : v = false := by simpa [hempty] using hv
    have hfalse' : v' = false := by simpa [hempty] using hv'
    rw [hrun, hrun', hfalse, hfalse']
  · cases hs : param.libinjection_sqli with
    | false => rw [sqliLeft_eq_self (.inl hs)]
    | true => exact regexTest_congr ((bytes_sqliLeft_iff hreq hs).mpr hno)

/-- Engines that report the texts other than the request. -/
def changedEngines (text : List UInt8) : Engines :=
  ⟨fun _ => false, fun _ => true, fun _ s => if s = text then -1 else 1⟩

theorem changedEngines_same (line text : List UInt8) :
    (changedEngines text).pcre_exec line text = -1 := if_pos rfl

theorem changedEngines_other (line : List UInt8) {text s : List UInt8} (h : s ≠ text) :
    (changedEngines text).pcre_exec line s = 1 := if_neg h

/-- What is hidden from the expressions is seen by some expression. -/
theorem unhidden_of_undisturbed {buf : List UInt8} {byOther : Bool}
    (hreq : is_request buf = true) (hother : byOther = false)
    (h : RegexUndisturbed ar (changedEngines (bytes buf (strnlen buf 6128))) param buf byOther) :
    Unhidden param buf := by
  by_contra hhidden
  simp only [Unhidden, not_or, Bool.not_eq_false, not_not] at hhidden
  obtain ⟨hs, hp, hlong, hbreak⟩ := hhidden
  generalize he : changedEngines (bytes buf (strnlen buf 6128)) = e at h
  have hc : Compiles e param := by
    rw [← he]
    exact fun _ _ => rfl
  have hchanged : bytes (sqliLeft e param buf) (strnlen buf 6128) ≠
      bytes buf (strnlen buf 6128) := fun heq => (bytes_sqliLeft_iff hreq hs).mp heq hbreak
  obtain ⟨line, hline⟩ := List.exists_mem_of_ne_nil _ hlong
  obtain ⟨v, hrun, hv⟩ := @regexTest_compiles ar e param hc (sqliLeft e param buf)
    (strnlen buf 6128)
  obtain ⟨v', hrun', hv'⟩ := @regexTest_compiles ar e param hc buf (strnlen buf 6128)
  have hpos : 0 < e.pcre_exec line (bytes (sqliLeft e param buf) (strnlen buf 6128)) := by
    rw [← he] at hchanged ⊢
    rw [changedEngines_other line hchanged]
    decide
  have hhit : v = true := hv.mpr ⟨hp, line, hline, hpos⟩
  have hmiss : v' = false := by
    rw [← Bool.not_eq_true, hv', ← he]
    rintro ⟨-, line, -, hexec⟩
    rw [changedEngines_same] at hexec
    contradiction
  unfold RegexUndisturbed at h
  rw [hrun, hrun', hhit, hmiss, hother] at h
  simp at h

/-- If no engine can report anything, nothing is on any list. -/
theorem silent_of_quiet {buf : List UInt8} {byAddress byMatch : Bool}
    (hreq : is_request buf = true)
    (hmatch : algorithmTest ar quietEngines param buf (strnlen buf 6128) = .ok byMatch)
    (h : ∀ e byMatch, Compiles e param →
      algorithmTest ar e param buf (strnlen buf 6128) = .ok byMatch →
        Quiet ar e param buf (byAddress || byMatch || sqliHit e param buf)) :
    (byAddress = false ∧ byMatch = false) ∧ param.libinjection_sqli = false ∧
      NoExpression param := by
  obtain ⟨hother, -⟩ := h quietEngines byMatch (fun _ _ => rfl) hmatch
  simp only [Bool.or_eq_false_iff] at hother
  refine ⟨hother.1, ?_, ?_⟩
  · -- an engine that reports every line
    let e : Engines := ⟨fun _ => true, fun _ => true, fun _ _ => -1⟩
    have hc : Compiles e param := fun _ _ => rfl
    have hsame := @algorithmTest_silent ar e param buf (strnlen buf 6128) hc
      fun _ _ => (by decide : (-1 : ℤ) ≤ 0)
    obtain ⟨hnone, -⟩ := h e byMatch hc (hsame.trans hmatch)
    simp only [Bool.or_eq_false_iff, sqliHit, Bool.and_eq_false_iff] at hnone
    refine hnone.2.resolve_right fun hany => ?_
    obtain ⟨line, hline⟩ := List.exists_mem_of_ne_nil _ (tokens_ne_nil hreq)
    exact absurd (List.any_eq_false.mp hany line hline) (not_not.mpr rfl)
  · -- an engine that matches everything
    have hc : Compiles (engineOf 1) param := fun _ _ => rfl
    by_contra hno
    simp only [NoExpression, not_or, not_and_or, Bool.not_eq_false, not_not] at hno
    obtain ⟨hlong, hrun⟩ := hno
    obtain ⟨line, hline⟩ := List.exists_mem_of_ne_nil _ hlong
    by_cases hk : param.option_algorithm = 4
    · obtain ⟨v, hlist, hv⟩ := matchlist_regex ar buf (strnlen buf 6128) hc
      have hhit : v = true := hv.mpr ⟨line, hline, Int.one_pos⟩
      rw [hhit, ← algorithmTest_regex _ _ _ hk] at hlist
      obtain ⟨hnone, -⟩ := h (engineOf 1) true hc hlist
      simp at hnone
    · rw [algorithmTest_engines ar quietEngines (engineOf 1) _ _ hk] at hmatch
      obtain ⟨-, hregex⟩ := h (engineOf 1) byMatch hc hmatch
      obtain ⟨v, hlist, hv⟩ := @regexTest_compiles ar (engineOf 1) param hc
        (sqliLeft (engineOf 1) param buf) (strnlen buf 6128)
      have hhit : v = true := hv.mpr ⟨hrun.resolve_right hk, line, hline, Int.one_pos⟩
      exact hregex (hlist.trans (congrArg Except.ok hhit))

theorem quiet_of_silent {buf : List UInt8} {byAddress byMatch : Bool} (hc : Compiles e param)
    (hbyAddress : byAddress = false)
    (hquiet : algorithmTest ar quietEngines param buf (strnlen buf 6128) = .ok false)
    (hmatch : algorithmTest ar e param buf (strnlen buf 6128) = .ok byMatch)
    (hs : param.libinjection_sqli = false) (hno : NoExpression param) :
    Quiet ar e param buf (byAddress || byMatch || sqliHit e param buf) := by
  have hsame : algorithmTest ar e param buf (strnlen buf 6128) =
      algorithmTest ar quietEngines param buf (strnlen buf 6128) := by
    rcases hno with hempty | ⟨-, hk⟩
    · exact algorithmTest_silent hc (by simp [hempty])
    · exact algorithmTest_engines ar e quietEngines buf _ hk
  have hbyMatch : byMatch = false := Except.ok.inj (hmatch.symm.trans (hsame.trans hquiet))
  obtain ⟨v, hrun, hv⟩ := @regexTest_compiles ar e param hc (sqliLeft e param buf)
    (strnlen buf 6128)
  constructor
  · simp [hbyAddress, hbyMatch, sqliHit, hs]
  · rw [hrun]
    rintro hok
    obtain ⟨hp, line, hline, -⟩ := hv.mp (Except.ok.inj hok)
    rcases hno with hempty | ⟨hoff, -⟩
    · simp [hempty] at hline
    · simp [hoff] at hp

/-- Whatever libinjection and the expressions report, the verdict on an accepted request is the
disjunction of the tests: exactly if, where the two lists complete, the address or the match
list already hits or no line break is hidden from the expressions, and every hit can be
recorded or none is possible. -/
theorem verdict_eq_disjunction_iff (hreq : is_request (tmpbuf input seen) = true) :
    (∀ e, Compiles e param →
      verdict ar e param input seen = disjunction ar e param input seen) ↔
      ∀ byAddress byMatch,
        Prod.fst <$> blocklist_ip param.block_addr_list seen.addr_ip = .ok byAddress →
        algorithmTest ar quietEngines param (tmpbuf input seen)
          (strnlen (tmpbuf input seen) 6128) = .ok byMatch →
        (byAddress = true ∨ byMatch = true ∨ Unhidden param (tmpbuf input seen)) ∧
          (Loggable param seen ∨ (byAddress = false ∧ byMatch = false) ∧
            param.libinjection_sqli = false ∧ NoExpression param) := by
  constructor
  · intro h byAddress byMatch haddr hmatch
    have hper (e : Engines) (hc : Compiles e param) :=
      (verdict_eq_disjunction_engines_iff hreq).mp (h e hc) byAddress
    constructor
    · by_contra hnone
      simp only [not_or, Bool.not_eq_true] at hnone
      obtain ⟨hbyAddress, hbyMatch, hhidden⟩ := hnone
      generalize htext : bytes (tmpbuf input seen) (strnlen (tmpbuf input seen) 6128) = text
      have hc : Compiles (changedEngines text) param := fun _ _ => rfl
      have hsame := @algorithmTest_silent ar (changedEngines text) param (tmpbuf input seen)
        (strnlen (tmpbuf input seen) 6128) hc fun line _ => by
          rw [htext, changedEngines_same]
          decide
      obtain ⟨hundisturbed, -⟩ := hper _ hc byMatch haddr (hsame.trans hmatch)
      rw [← htext] at hundisturbed
      apply hhidden
      apply unhidden_of_undisturbed hreq _ hundisturbed
      simp [hbyAddress, hbyMatch, sqliHit, libinjection_test_sqli, changedEngines]
    · by_cases hl : Loggable param seen
      · exact .inl hl
      · refine .inr (silent_of_quiet hreq hmatch fun e byMatch hc hmatch => ?_)
        exact (hper e hc byMatch haddr hmatch).2.resolve_left hl
  · intro h e hc
    apply (verdict_eq_disjunction_engines_iff hreq).mpr
    intro byAddress byMatch haddr hmatch
    have hregex (buf : List UInt8) (len : ℕ) : ∃ v, regexTest ar e param buf len = .ok v := by
      obtain ⟨v, hrun, -⟩ := @regexTest_compiles ar e param hc buf len
      exact ⟨v, hrun⟩
    obtain ⟨found, hfound, hle⟩ := algorithmTest_found hmatch
    obtain ⟨hunhidden, hrecord⟩ := h byAddress found haddr hfound
    constructor
    · rcases hunhidden with hhit | hhit | hunhidden
      · exact .inr ⟨by simp [hhit], hregex _ _, hregex _ _⟩
      · exact .inr ⟨by simp [hle hhit], hregex _ _, hregex _ _⟩
      · exact .inl (regexTest_unhidden hreq hc hunhidden)
    · rcases hrecord with hl | ⟨⟨hbyAddress, hnone⟩, hs, hno⟩
      · exact .inl hl
      · exact .inr (quiet_of_silent hc hbyAddress (hnone ▸ hfound) hmatch hs hno)

/-- On a single line the detectors are independent, whichever are enabled. -/
theorem verdict_eq_disjunction_single_line :
    verdict .wrapping spaceEngines sqliAndRegex (ascii "GET /?q=1%20or%201") (seenAt []) =
      disjunction .wrapping spaceEngines sqliAndRegex (ascii "GET /?q=1%20or%201")
        (seenAt []) := by
  refine (verdict_eq_disjunction_iff (by decide +kernel)).mpr ?_ spaceEngines fun _ _ => rfl
  refine fun _ _ _ _ => ⟨.inr (.inr (.inr (.inr (.inr ?_)))), .inl (loggable_some rfl)⟩
  decide +kernel

end Engines

/-- Over two lines libinjection hides the line break from the expression: with it enabled
the request is let through, without it the request is blocked. -/
theorem detectors_not_independent :
    is_request (tmpbuf (ascii "GET /?q=1%0aor%201") (seenAt [])) = true ∧
      verdict .wrapping spaceEngines sqliAndRegex (ascii "GET /?q=1%0aor%201") (seenAt []) =
        .ok false ∧
      disjunction .wrapping spaceEngines sqliAndRegex (ascii "GET /?q=1%0aor%201") (seenAt []) =
        .ok true ∧
      verdict .wrapping spaceEngines { sqliAndRegex with libinjection_sqli := false }
        (ascii "GET /?q=1%0aor%201") (seenAt []) = .ok true := by
  decide +kernel

end OctopusWaf
