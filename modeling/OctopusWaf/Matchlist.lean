import OctopusWaf.DfaSearch
import OctopusWaf.HorspoolSearch
import OctopusWaf.RabinKarpSearch

/-! `matchlist` over the rule lists of `struct choice`, and what the three exact searches
make of it. -/
namespace OctopusWaf
open CMachine CString

/-- The fields of `struct choice` that request handling reads. A null `logfile` is `none`. -/
structure Choice where
  logfile : Option (List UInt8)
  block_addr_list : List UInt8
  regex_rules : List UInt8
  match_rules : List UInt8
  libinjection_sqli : Bool
  pcre : Bool
  option_algorithm : ℕ
  deriving DecidableEq

def newline : UInt8 := 10

theorem newline_ne_zero : newline ≠ 0 := by decide

/-- The body of the loop for one line of the list. -/
def matchLine (ar : IntArith) (e : Engines) (input : List UInt8) (input_len : ℕ)
    (option_algorithm : ℕ) (line : List UInt8) : Except Trap Bool :=
  let line_len := strnlen line 2048
  if line_len > 4 then
    match option_algorithm with
    | 1 => DFA_Search line (line_len - 2) input input_len
    | 2 => horspool_search input input_len line (line_len - 2)
    | 3 => Rabin_Karp_search ar input input_len line (line_len - 2)
    | 4 => pcre_regex_search e input input_len line
    | _ => .ok false
  else .ok false

/-- Both lists are duplicated first, so the tokeniser never touches `param`. -/
def matchlist (ar : IntArith) (e : Engines) (param : Choice) (input : List UInt8)
    (input_len : ℕ) (option_algorithm : ℕ) : Except Trap Bool :=
  let config := if option_algorithm = 4 then param.regex_rules else param.match_rules
  Prod.fst <$> scanTokens newline (matchLine ar e input input_len option_algorithm) config

theorem matchlist_eq (ar : IntArith) (e : Engines) (param : Choice) (input : List UInt8)
    (input_len k : ℕ) :
    matchlist ar e param input input_len k =
      (tokens newline (if k = 4 then param.regex_rules else param.match_rules)).anyM
        (matchLine ar e input input_len k) :=
  scanTokens_found newline_ne_zero _ _

/-- The part of a rule line that is searched for: all but its last two characters, of at
most 2048. -/
def stem (line : List UInt8) : List UInt8 := bytes line (strnlen line 2048 - 2)

/-- A rule line long enough to be used, whose searched part stands in the text. -/
def LineMatches (text line : List UInt8) : Prop :=
  4 < strnlen line 2048 ∧ stem line <:+: text

instance (text line : List UInt8) : Decidable (LineMatches text line) := by
  unfold LineMatches
  infer_instance

theorem stem_prefix_line (line : List UInt8) (hline : ∀ c ∈ line, c ≠ 0) : stem line <+: line := by
  have hlen : strnlen line 2048 ≤ line.length := by
    rw [strnlen_eq, cstr_eq_self hline]
    exact min_le_right _ _
  rw [stem, bytes_eq_take (by omega)]
  exact List.take_prefix _ _

theorem long_line_iff {line : List UInt8} (hline : ∀ c ∈ line, c ≠ 0) :
    4 < strnlen line 2048 ↔ 4 < line.length := by
  rw [strnlen_eq, cstr_eq_self hline]
  omega

/-- A whole line that occurs in a text is a line that matches. -/
theorem lineMatches_of_infix {text line : List UInt8} (hline : ∀ c ∈ line, c ≠ 0)
    (hlen : 4 < line.length) (h : line <:+: text) : LineMatches text line :=
  ⟨(long_line_iff hline).mpr hlen, (stem_prefix_line line hline).isInfix.trans h⟩

theorem matchLine_exact {ar : IntArith} {e : Engines} {input line : List UInt8}
    {input_len k : ℕ} {v : Bool} (hk : k = 1 ∨ k = 2 ∨ k = 3)
    (h : matchLine ar e input input_len k line = .ok v) :
    v = true ↔ LineMatches (bytes input input_len) line := by
  unfold matchLine at h
  by_cases hl : strnlen line 2048 > 4
  · have hpos : 0 < strnlen line 2048 - 2 := by omega
    simp only [if_pos hl] at h
    simp only [LineMatches, stem, show 4 < strnlen line 2048 from hl, true_and]
    rcases hk with rfl | rfl | rfl
    · exact DFA_Search_exact hpos h
    · exact horspool_search_exact hpos h
    · exact Rabin_Karp_search_exact hpos h
  · simp only [if_neg hl] at h
    obtain rfl := Except.ok.inj h
    simp [LineMatches, show ¬ 4 < strnlen line 2048 from hl]

/-- A completed `matchlist` reports exactly the lines whose searched part occurs. -/
theorem matchlist_exact {ar : IntArith} {e : Engines} {param : Choice} {input : List UInt8}
    {input_len k : ℕ} {v : Bool} (hk : k = 1 ∨ k = 2 ∨ k = 3)
    (h : matchlist ar e param input input_len k = .ok v) :
    v = true ↔ ∃ line ∈ tokens newline param.match_rules,
      LineMatches (bytes input input_len) line := by
  rw [matchlist_eq, if_neg (by omega)] at h
  exact anyM_ok (fun line _ _ hb => matchLine_exact hk hb) h

/-- A regular expression that does not compile is the only way to fail with option 4. -/
theorem matchlist_regex_error {ar : IntArith} {e : Engines} {param : Choice}
    {input : List UInt8} {input_len : ℕ} {t : Trap}
    (h : matchlist ar e param input input_len 4 = .error t) : t = .exit := by
  rw [matchlist_eq] at h
  obtain ⟨line, -, hline⟩ := anyM_error h
  simp only [matchLine, pcre_regex_search] at hline
  split_ifs at hline
  exact (Except.error.inj hline).symm

/-- No search trips over a null pointer. -/
theorem matchlist_wrapping_error {e : Engines} {param : Choice} {input : List UInt8}
    {input_len k : ℕ} {t : Trap}
    (h : matchlist .wrapping e param input input_len k = .error t) : t ≠ .nullPointer := by
  rw [matchlist_eq] at h
  obtain ⟨line, -, hline⟩ := anyM_error h
  unfold matchLine at hline
  by_cases hl : strnlen line 2048 > 4
  · simp only [if_pos hl] at hline
    split at hline
    · obtain rfl := dfaLoop_error hline
      simp
    · obtain rfl := horspool_search_error hline
      simp
    · obtain ⟨v, hv, -⟩ := @Rabin_Karp_search_wrapping_decides input line input_len
        (strnlen line 2048 - 2) (by omega)
      rw [hv] at hline
      contradiction
    · unfold pcre_regex_search at hline
      split_ifs at hline
      simp [← Except.error.inj hline]
    · contradiction
  · simp only [if_neg hl] at hline
    contradiction

/-- The algorithm chosen with `-m` cannot change a verdict, whatever stands in memory
after the request in either run, and wherever the length given cuts the request. -/
theorem matchlist_algorithm_irrelevant {e : Engines} {param : Choice}
    {request past₁ past₂ : List UInt8} {input_len k₁ k₂ : ℕ} {v₁ v₂ : Bool}
    (hlen : input_len ≤ request.length)
    (hk₁ : k₁ = 1 ∨ k₁ = 2 ∨ k₁ = 3) (hk₂ : k₂ = 1 ∨ k₂ = 2 ∨ k₂ = 3)
    (h₁ : matchlist .wrapping e param (request ++ 0 :: past₁) input_len k₁ = .ok v₁)
    (h₂ : matchlist .wrapping e param (request ++ 0 :: past₂) input_len k₂ = .ok v₂) :
    v₁ = v₂ := by
  have hv₁ := matchlist_exact hk₁ h₁
  have hv₂ := matchlist_exact hk₂ h₂
  rw [bytes_append hlen] at hv₁ hv₂
  exact Bool.eq_iff_iff.mpr (hv₁.trans hv₂.symm)

/-- Engines that never report anything, and a configuration with a match list only. -/
def quietEngines : Engines := ⟨fun _ => false, fun _ => true, fun _ _ => -1⟩

def matchOnly (rules : List UInt8) (k : ℕ) : Choice where
  logfile := none
  block_addr_list := []
  regex_rules := []
  match_rules := rules
  libinjection_sqli := false
  pcre := false
  option_algorithm := k

/-- A request with a rule line in it, searched by the automaton and by the rolling hash. -/
theorem matchlist_algorithm_irrelevant_script :
    matchlist .wrapping quietEngines (matchOnly (ascii "<script>\nalert(\n") 1)
        (ascii "GET /?q=<script>" ++ [0]) 16 1 =
      matchlist .wrapping quietEngines (matchOnly (ascii "<script>\nalert(\n") 1)
        (ascii "GET /?q=<script>" ++ [0, 255]) 16 3 := by
  have h₁ : matchlist .wrapping quietEngines (matchOnly (ascii "<script>\nalert(\n") 1)
      (ascii "GET /?q=<script>" ++ 0 :: []) (ascii "GET /?q=<script>").length 1 = .ok true := by
    decide +kernel
  have h₃ : matchlist .wrapping quietEngines (matchOnly (ascii "<script>\nalert(\n") 1)
      (ascii "GET /?q=<script>" ++ 0 :: [255]) (ascii "GET /?q=<script>").length 3 =
        .ok true := by
    decide +kernel
  have hv := matchlist_algorithm_irrelevant le_rfl (.inl rfl) (.inr (.inr rfl)) h₁ h₃
  exact (h₁.trans (congrArg Except.ok hv)).trans h₃.symm

/-- A list means its whole lines exactly on the requests that hold one of them, or not even the
searched part of one. -/
theorem matchlist_whole_lines_iff {ar : IntArith} {e : Engines} {param : Choice}
    {input : List UInt8} {input_len k : ℕ} {v : Bool} (hk : k = 1 ∨ k = 2 ∨ k = 3)
    (h : matchlist ar e param input input_len k = .ok v) :
    (v = true ↔ ∃ line ∈ tokens newline param.match_rules,
        4 < line.length ∧ line <:+: bytes input input_len) ↔
      ((∃ line ∈ tokens newline param.match_rules, LineMatches (bytes input input_len) line) →
        ∃ line ∈ tokens newline param.match_rules,
          4 < line.length ∧ line <:+: bytes input input_len) := by
  have hwhole : (∃ line ∈ tokens newline param.match_rules,
      4 < line.length ∧ line <:+: bytes input input_len) →
      ∃ line ∈ tokens newline param.match_rules, LineMatches (bytes input input_len) line := by
    rintro ⟨line, hmem, hlen, hocc⟩
    have hline : ∀ c ∈ line, c ≠ 0 := mem_tokens_no_zero hmem
    exact ⟨line, hmem, lineMatches_of_infix hline hlen hocc⟩
  rw [matchlist_exact hk h]
  exact ⟨Iff.mp, fun hstem => ⟨hstem, hwhole⟩⟩

/-- A request with the whole of a rule, in a list with empty lines. -/
theorem matchlist_whole_lines_script :
    true = true ↔ ∃ line ∈ tokens newline (ascii "\n\nabc\n<script>"),
      4 < line.length ∧ line <:+: bytes (ascii "GET /?q=<script>" ++ [0]) 16 := by
  have h : matchlist .wrapping quietEngines (matchOnly (ascii "\n\nabc\n<script>") 2)
      (ascii "GET /?q=<script>" ++ [0]) 16 2 = .ok true := by
    decide +kernel
  exact (matchlist_whole_lines_iff (.inr (.inl rfl)) h).mpr fun _ => by decide +kernel

/-- A legitimate request with six of the eight characters of a rule is matched. -/
theorem matchlist_part_of_line :
    (∀ k ∈ [1, 2, 3], matchlist .ftrapv quietEngines (matchOnly (ascii "<script>\n") k)
        (ascii "GET /<scripture>" ++ [0]) 16 k = .ok true) ∧
      ¬ ∃ line ∈ tokens newline (ascii "<script>\n"),
        4 < line.length ∧ line <:+: bytes (ascii "GET /<scripture>" ++ [0]) 16 := by
  decide +kernel

/-- `pcre_exec` without an answer: more groups than `ovector` can hold, although the subject
matches, or a search that was given up. -/
def Undecided (rc : ℤ) : Prop := rc = 0 ∨ rc < -1

instance (rc : ℤ) : Decidable (Undecided rc) := by
  unfold Undecided
  infer_instance

/-- The rule lines that are used. -/
def longLines (rules : List UInt8) : List (List UInt8) :=
  (tokens newline rules).filter fun line => 4 < line.length

theorem matchLine_regex (ar : IntArith) {e : Engines} (input : List UInt8) (input_len : ℕ)
    {line : List UInt8} (hline : ∀ c ∈ line, c ≠ 0) (hcompile : e.pcre_compile line = true) :
    matchLine ar e input input_len 4 line =
      .ok (decide (4 < line.length ∧ 0 < e.pcre_exec line (bytes input input_len))) := by
  have hlen : strnlen line 2048 > 4 ↔ 4 < line.length := long_line_iff hline
  simp only [matchLine, hlen, pcre_regex_search, hcompile, if_true]
  split_ifs with h
  · simp [h]
  · simp [h]

/-- If all expressions compile, the list is matched when one of them gives a positive count. -/
theorem matchlist_regex (ar : IntArith) {e : Engines} {param : Choice} (input : List UInt8)
    (input_len : ℕ)
    (hcompile : ∀ line ∈ tokens newline param.regex_rules, e.pcre_compile line = true) :
    ∃ v, matchlist ar e param input input_len 4 = .ok v ∧
      (v = true ↔ ∃ line ∈ longLines param.regex_rules,
        0 < e.pcre_exec line (bytes input input_len)) := by
  have htest : ∀ line ∈ tokens newline param.regex_rules,
      matchLine ar e input input_len 4 line =
        .ok (decide (4 < line.length ∧ 0 < e.pcre_exec line (bytes input input_len))) :=
    fun line hmem =>
      matchLine_regex ar input input_len (mem_tokens_no_zero hmem) (hcompile line hmem)
  cases hrun : matchlist ar e param input input_len 4 with
  | error t =>
    rw [matchlist_eq, if_pos rfl] at hrun
    obtain ⟨line, hmem, hline⟩ := anyM_error hrun
    rw [htest line hmem] at hline
    contradiction
  | ok v =>
    refine ⟨v, rfl, ?_⟩
    rw [matchlist_eq, if_pos rfl] at hrun
    rw [anyM_ok (p := fun line => 4 < line.length ∧ 0 < e.pcre_exec line (bytes input input_len))
      (fun line hmem b hb => ?_) hrun]
    · simp only [longLines, List.mem_filter, decide_eq_true_eq, and_assoc]
    · rw [htest line hmem] at hb
      rw [← Except.ok.inj hb, decide_eq_true_eq]

/-- A clean verdict means that no used expression matches, exactly if one of them gives a
positive count or none of them is left undecided. -/
theorem regex_fails_closed_iff (ar : IntArith) {e : Engines} {param : Choice}
    (input : List UInt8) (input_len : ℕ)
    (hcompile : ∀ line ∈ tokens newline param.regex_rules, e.pcre_compile line = true) :
    ∃ v, matchlist ar e param input input_len 4 = .ok v ∧
      ((v = false → ∀ line ∈ longLines param.regex_rules,
          e.pcre_exec line (bytes input input_len) = -1) ↔
        (∃ line ∈ longLines param.regex_rules, 0 < e.pcre_exec line (bytes input input_len)) ∨
          ∀ line ∈ longLines param.regex_rules,
            ¬ Undecided (e.pcre_exec line (bytes input input_len))) := by
  obtain ⟨v, hrun, hv⟩ := matchlist_regex ar input input_len hcompile
  refine ⟨v, hrun, ?_⟩
  by_cases hpos : ∃ line ∈ longLines param.regex_rules,
      0 < e.pcre_exec line (bytes input input_len)
  · exact iff_of_true (fun hfalse => absurd (hv.mpr hpos) (by simp [hfalse])) (.inl hpos)
  · rw [or_iff_right hpos]
    have hfalse : v = false := by
      rw [← Bool.not_eq_true, hv]
      exact hpos
    simp only [hfalse, true_implies]
    refine forall₂_congr fun line hmem => ?_
    have hle : ¬ 0 < e.pcre_exec line (bytes input input_len) := fun h => hpos ⟨line, hmem, h⟩
    unfold Undecided
    omega

/-- An engine whose search ends with the same code for every expression. -/
def engineOf (rc : ℤ) : Engines := ⟨fun _ => false, fun _ => true, fun _ _ => rc⟩

def regexOnly (rules : List UInt8) : Choice := { matchOnly [] 0 with regex_rules := rules }

theorem regex_fails_closed_no_match :
    ∃ v, matchlist .wrapping (engineOf (-1)) (regexOnly (ascii "<script>")) (ascii "GET /") 5 4 =
        .ok v ∧
      ((v = false → ∀ line ∈ longLines (ascii "<script>"),
          (engineOf (-1)).pcre_exec line (bytes (ascii "GET /") 5) = -1) ↔
        (∃ line ∈ longLines (ascii "<script>"),
            0 < (engineOf (-1)).pcre_exec line (bytes (ascii "GET /") 5)) ∨
          ∀ line ∈ longLines (ascii "<script>"),
            ¬ Undecided ((engineOf (-1)).pcre_exec line (bytes (ascii "GET /") 5))) :=
  regex_fails_closed_iff (e := engineOf (-1)) .wrapping (ascii "GET /") 5 fun _ _ => rfl

/-- A rule with forty groups that matches, and a rule whose search is given up at the match
limit, are both passed as clean. -/
theorem regex_passes_undecided :
    (matchlist .wrapping (engineOf 0)
        (regexOnly (List.replicate 40 (ascii "()")).flatten) (ascii "GET /") 5 4 = .ok false ∧
      ∃ line ∈ longLines (List.replicate 40 (ascii "()")).flatten,
        (engineOf 0).pcre_exec line (bytes (ascii "GET /") 5) ≠ -1) ∧
    (matchlist .wrapping (engineOf (-8)) (regexOnly (ascii "(a+)+$"))
        (ascii "GET /" ++ List.replicate 40 97 ++ ascii "b") 46 4 = .ok false ∧
      ∃ line ∈ longLines (ascii "(a+)+$"), (engineOf (-8)).pcre_exec line
        (bytes (ascii "GET /" ++ List.replicate 40 97 ++ ascii "b") 46) ≠ -1) := by
  decide +kernel

end OctopusWaf
