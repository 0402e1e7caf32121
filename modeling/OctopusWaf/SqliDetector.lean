import OctopusWaf.Detectors
import OctopusWaf.SqliVerdict

/-! The filter with libinjection itself in the place of a parameter: what its verdict says of
the lines of a decoded request. -/
namespace OctopusWaf
open CMachine CString

/-- What `libinjection_test_sqli` makes of an input; the analysis never fails. -/
def issqli (sql_keywords : Libinjection.KeywordTable) (input : List UInt8) : Bool :=
  let state := Libinjection.libinjection_sqli_init input 0
  match Libinjection.libinjection_is_sqli sql_keywords state with
  | .ok (issqli, _) => issqli
  | .error _ => false

/-- The engines with libinjection over a table of keywords. -/
def Engines.withKeywords (e : Engines) (sql_keywords : Libinjection.KeywordTable) : Engines :=
  { e with libinjection_is_sqli := issqli sql_keywords }

variable {ar : IntArith} {e : Engines} {param : Choice} {input buf : List UInt8} {seen : Seen}
  {sql_keywords : Libinjection.KeywordTable}

/-- The line is held to be an injection in one of the contexts it calls for. -/
def SqliLine (sql_keywords : Libinjection.KeywordTable) (line : List UInt8) : Prop :=
  ∃ flags, Libinjection.Tried sql_keywords line flags ∧
    Libinjection.Positive sql_keywords line flags

theorem libinjection_test_sqli_iff {line : List UInt8} (hline : line ∈ tokens newline buf) :
    libinjection_test_sqli (e.withKeywords sql_keywords) line = true ↔
      SqliLine sql_keywords line := by
  have hz := mem_tokens_no_zero hline
  have hne := (mem_tokens hline).1
  have hinput : (Libinjection.libinjection_sqli_init line 0).s = line := rfl
  obtain ⟨r, hr, hverdict⟩ :=
    @Libinjection.libinjection_is_sqli_verdict sql_keywords line _ hinput hne
  have htest : libinjection_test_sqli (e.withKeywords sql_keywords) line = r.1 := by
    rw [libinjection_test_sqli, cstr_eq_self hz]
    simp only [Engines.withKeywords, issqli, hr]
  rw [htest]
  exact hverdict.exact

theorem sqliHit_iff : sqliHit (e.withKeywords sql_keywords) param buf = true ↔
    param.libinjection_sqli = true ∧ ∃ line ∈ tokens newline buf, SqliLine sql_keywords line := by
  unfold sqliHit
  rw [Bool.and_eq_true, List.any_eq_true]
  apply and_congr_right
  intro _
  apply exists_congr
  intro line
  apply and_congr_right
  exact fun hline => libinjection_test_sqli_iff hline

/-- An accepted request from a known address gets a verdict wherever the match list and the
expressions complete, and it is blocked exactly if the address is listed, one of these two
matches, or libinjection is enabled and some line of the decoded request is positive in a
context it calls for. -/
theorem filter_check_sqli_exact {sql_keywords : Libinjection.KeywordTable} {ar : IntArith}
    {e : Engines} {param : Choice} {input addr : List UInt8} {seen : Seen} {byMatch byRegex : Bool}
    (hreq : is_request (tmpbuf input seen) = true) (haddr : seen.addr_ip = some addr)
    (hmatch : algorithmTest ar (e.withKeywords sql_keywords) param (tmpbuf input seen)
      (strnlen (tmpbuf input seen) 6128) = .ok byMatch)
    (hregex : regexTest ar (e.withKeywords sql_keywords) param
      (sqliLeft (e.withKeywords sql_keywords) param (tmpbuf input seen))
      (strnlen (tmpbuf input seen) 6128) = .ok byRegex) :
    ∃ v, verdict ar (e.withKeywords sql_keywords) param input seen = .ok v ∧
      (v = true ↔ listed param.block_addr_list addr = true ∨ byMatch = true ∨ byRegex = true ∨
        (param.libinjection_sqli = true ∧
          ∃ line ∈ tokens newline (tmpbuf input seen), SqliLine sql_keywords line)) := by
  have hdetect : detect ar (e.withKeywords sql_keywords) param (tmpbuf input seen) =
      .ok (byMatch || sqliHit (e.withKeywords sql_keywords) param (tmpbuf input seen) ||
        byRegex) := by
    unfold detect
    rw [hmatch, sqliTest_eq, ok_bind, ok_bind]
    dsimp only
    rw [hregex, ok_bind]
  refine ⟨_, by rw [verdict_some hreq haddr, hdetect]; rfl, ?_⟩
  rw [← @sqliHit_iff e]
  simp only [Bool.or_eq_true]
  tauto

/-- Libinjection alone, on a request of one line. -/
theorem filter_check_sqli_exact_line :
    ∃ v, verdict .wrapping (spaceEngines.withKeywords Libinjection.fewKeywords)
        { matchOnly [] 0 with libinjection_sqli := true } (ascii "GET /?q=1%20or%201")
        (seenAt (ascii "10.0.0.9")) = .ok v ∧
      (v = true ↔ listed [] (ascii "10.0.0.9") = true ∨ false = true ∨ false = true ∨
        (true = true ∧ ∃ line ∈ tokens newline (tmpbuf (ascii "GET /?q=1%20or%201")
          (seenAt (ascii "10.0.0.9"))), SqliLine Libinjection.fewKeywords line)) :=
  filter_check_sqli_exact (by decide +kernel) rfl rfl rfl

end OctopusWaf
