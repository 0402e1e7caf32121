import OctopusWaf.Coverage

/-! Rule lines are compared as they stand in the list with a request that has been decoded, so
a rule in the raw request need not be one in the text that is searched. -/
namespace OctopusWaf
open CMachine CString

/-- The methods `is_request` asks for. -/
def inspectedMethods : List (List UInt8) := [ascii "GET", ascii "POST", ascii "PUT", ascii "DELETE"]

/-- Text that starts with a method is a request as soon as it has ten characters. -/
theorem is_request_method {m : List UInt8} (hm : m ∈ inspectedMethods) (t : List UInt8) :
    is_request (m ++ t) = true ↔ 10 ≤ strnlen (m ++ t) 12 := by
  have hm' : m = ascii "GET" ∨ m = ascii "POST" ∨ m = ascii "PUT" ∨ m = ascii "DELETE" := by
    simpa [inspectedMethods] using hm
  have hlen : is_request (m ++ t) = if strnlen (m ++ t) 12 < 10 then false else true := by
    rcases hm' with rfl | rfl | rfl | rfl <;> rfl
  rw [hlen]
  split_ifs with h <;> simp <;> omega

theorem is_request_tmpbuf_iff {request : List UInt8} (seen : Seen)
    (hmethod : ∃ m ∈ inspectedMethods, m <+: request) :
    is_request (tmpbuf request seen) = true ↔ 10 ≤ (inspected request seen).length := by
  obtain ⟨m, hm, t, rfl⟩ := hmethod
  have hplain : ∀ m ∈ inspectedMethods, Plain m := by decide +kernel
  have hbuf : tmpbuf (m ++ t) seen =
      m ++ (decodeLoop (t ++ seen.afterData) ++ 0 :: seen.afterTmpbuf) := by
    simp [tmpbuf, urldecode, decodeLoop_plain (hplain m hm)]
  rw [inspected, length_bytes, hbuf, is_request_method hm, strnlen_eq, strnlen_eq]
  omega

/-- The beginning of a request is inspected, if it is readable and short enough. -/
theorem decodeLoop_prefix_inspected {head request : List UInt8} {seen : Seen}
    (hpre : head <+: request) (h : Readable head)
    (hfit : (decodeLoop (request ++ seen.afterData)).length ≤ 6128) :
    decodeLoop head <+: inspected request seen := by
  have hpre' : head ++ [] <+: request := by rwa [List.append_nil]
  have hfront := inspected_of_front hpre' h rfl hfit
  simpa [percentDecode] using hfront

/-- A rule line that stands verbatim in a request with an inspected method blocks it, if its
searched part has no `%` and no `+`, what stands before it is readable, and so are ten
characters of the request: where the detectors complete and the request decodes to at most 6128
bytes, with what stands behind the copy. -/
theorem verbatim_rule_blocks {ar : IntArith} {e : Engines} {param : Choice}
    {before line rest : List UInt8} {seen : Seen}
    (hmethod : ∃ m ∈ inspectedMethods, m <+: before ++ line ++ rest)
    (hk : param.option_algorithm = 1 ∨ param.option_algorithm = 2 ∨ param.option_algorithm = 3)
    (hmem : line ∈ tokens newline param.match_rules) (hlen : 4 < line.length)
    (hplain : Plain (stem line)) (hbefore : Readable before)
    (hten : ∃ head, head <+: before ++ line ++ rest ∧ Readable head ∧
      10 ≤ (decodeLoop head).length)
    (hfit : (decodeLoop (before ++ line ++ rest ++ seen.afterData)).length ≤ 6128)
    (hcompletes : Completes ar e param (before ++ line ++ rest) seen) :
    StaysInBlock (before ++ line ++ rest) seen ∧
      verdict ar e param (before ++ line ++ rest) seen = .ok true := by
  have hline : ∀ c ∈ line, c ≠ 0 := mem_tokens_no_zero hmem
  have hreq : is_request (tmpbuf (before ++ line ++ rest) seen) = true := by
    obtain ⟨head, hpre, hhead, hlong⟩ := hten
    rw [is_request_tmpbuf_iff seen hmethod]
    exact hlong.trans (decodeLoop_prefix_inspected hpre hhead hfit).length_le
  have hsearched : before ++ stem line <+: before ++ line ++ rest := by
    rw [List.append_assoc, List.prefix_append_right_inj]
    exact (stem_prefix_line line hline).trans (List.prefix_append _ _)
  obtain ⟨hreadable, hdecode⟩ := hbefore.append_plain hplain
  have hfound := decodeLoop_prefix_inspected hsearched hreadable hfit
  rw [hdecode] at hfound
  have hmatch : LineMatches (inspected (before ++ line ++ rest) seen) line :=
    ⟨(long_line_iff hline).mpr hlen, (List.suffix_append _ _).isInfix.trans hfound.isInfix⟩
  exact ⟨(staysInBlock_iff _ seen).mpr hfit,
    (verdict_true_iff hreq hk).mpr ⟨hcompletes, .inr (.inl ⟨line, hmem, hmatch⟩)⟩⟩

/-- A rule without escapes behind an escaped quotation mark, and half an escape behind it. -/
theorem verbatim_rule_blocks_script :
    verdict .wrapping quietEngines (matchOnly (ascii "<script>\n") 1)
      (ascii "GET /?q=%22" ++ ascii "<script>" ++ ascii "%4") (seenAt (ascii "10.0.0.9")) =
        .ok true := by
  have hdetect : detect .wrapping quietEngines (matchOnly (ascii "<script>\n") 1)
      (tmpbuf (ascii "GET /?q=%22" ++ ascii "<script>" ++ ascii "%4")
        (seenAt (ascii "10.0.0.9"))) = .ok true := by
    decide +kernel
  have hhead : Readable (ascii "GET /?q=%22") :=
    ⟨by decide +kernel, by decide +kernel, by decide +kernel⟩
  have hread : Readable (ascii "GET /?q=%22<script>") :=
    ⟨by decide +kernel, by decide +kernel, by decide +kernel⟩
  exact (verbatim_rule_blocks (by decide +kernel) (.inl rfl) (by decide +kernel)
    (by decide +kernel) (by decide +kernel) hhead
    ⟨ascii "GET /?q=%22<script>", by decide +kernel, hread, by decide +kernel⟩ (by decide +kernel)
    ⟨⟨true, hdetect⟩, fun hnone => absurd hnone (Option.some_ne_none _)⟩).2

/-- A rule that the shipped list writes percent-encoded does not fire on itself. -/
theorem encoded_rule_is_dead :
    ascii "%20waitfor%20delay%20" ∈ tokens newline (ascii "%20waitfor%20delay%20\n") ∧
      ascii "%20waitfor%20delay%20" <:+: ascii "GET /?id=1%20waitfor%20delay%20" ∧
      ∀ k ∈ [1, 2, 3],
        verdict .wrapping quietEngines (matchOnly (ascii "%20waitfor%20delay%20\n") k)
          (ascii "GET /?id=1%20waitfor%20delay%20") (seenAt (ascii "10.0.0.9")) = .ok false := by
  decide +kernel

end OctopusWaf
