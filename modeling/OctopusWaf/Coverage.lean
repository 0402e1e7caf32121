import OctopusWaf.Detectors
import OctopusWaf.PercentDecoding
import OctopusWaf.ProxyEffects

/-! How much of a received buffer the match list sees, beside how much of it `readcb`
forwards, which is all of it. -/
namespace OctopusWaf
open CMachine CString

/-- The text that is searched: what was decoded up to the first zero byte, of at most 6128
bytes. -/
def inspected (input : List UInt8) (seen : Seen) : List UInt8 :=
  bytes (tmpbuf input seen) (strnlen (tmpbuf input seen) 6128)

theorem inspected_eq (input : List UInt8) (seen : Seen) :
    inspected input seen = (cstr (tmpbuf input seen)).take 6128 := bytes_strnlen _ _

/-- What the decoder writes stays inside its block. -/
def StaysInBlock (input : List UInt8) (seen : Seen) : Prop :=
  (urldecode (input ++ seen.afterData) (strnlen (input ++ seen.afterData) 6128)).written.length ≤
    (urldecode (input ++ seen.afterData) (strnlen (input ++ seen.afterData) 6128)).size

theorem staysInBlock_iff (input : List UInt8) (seen : Seen) :
    StaysInBlock input seen ↔ (decodeLoop (input ++ seen.afterData)).length ≤ 6128 := by
  have hlen := length_decodeLoop_le (input ++ seen.afterData)
  unfold StaysInBlock urldecode
  dsimp only
  rw [strnlen_eq, List.length_append, List.length_singleton]
  omega

theorem LineMatches.mono {text text' line : List UInt8} (h : LineMatches text line)
    (hsub : text <:+: text') : LineMatches text' line := ⟨h.1, h.2.trans hsub⟩

/-- A part of the buffer with complete escapes is decoded to a text with the searched part of a
rule in front of its first zero byte, and what stands before that part can be read. -/
def RuleInFront (rules input : List UInt8) : Prop :=
  ∃ before front, before ++ front <+: input ∧ Readable before ∧ escapesComplete front = true ∧
    ∃ line ∈ tokens newline rules, LineMatches (cstr (percentDecode front)) line

/-- Such a part is searched, whatever stands behind it. -/
theorem inspected_of_front {before front input : List UInt8} {seen : Seen}
    (hpre : before ++ front <+: input) (hb : Readable before)
    (h : escapesComplete front = true)
    (hfit : (decodeLoop (input ++ seen.afterData)).length ≤ 6128) :
    decodeLoop before ++ cstr (percentDecode front) <+: inspected input seen := by
  obtain ⟨rest, rfl⟩ := hpre
  have hdecode : decodeLoop (before ++ front ++ rest ++ seen.afterData) =
      decodeLoop before ++ (percentDecode front ++ decodeLoop (rest ++ seen.afterData)) := by
    rw [List.append_assoc, List.append_assoc,
      decodeLoop_append_of_dangling hb.complete hb.nonzero, decodeLoop_append h]
  generalize hbehind : decodeLoop (rest ++ seen.afterData) ++ 0 :: seen.afterTmpbuf = behind
  have htext : cstr (tmpbuf (before ++ front ++ rest) seen) =
      decodeLoop before ++ cstr (percentDecode front ++ behind) := by
    unfold tmpbuf urldecode
    dsimp only
    rw [hdecode, ← cstr_append hb.decoded, ← hbehind]
    simp
  have hmore := cstr_prefix_append (percentDecode front) behind
  have htake := ((List.prefix_append_right_inj (decodeLoop before)).mpr hmore).take 6128
  have hshort := (cstr_prefix_self (percentDecode front)).length_le
  rw [hdecode, List.length_append, List.length_append] at hfit
  have hall : (decodeLoop before ++ cstr (percentDecode front)).length ≤ 6128 := by
    rw [List.length_append]
    omega
  rwa [List.take_of_length_le hall, ← htext, ← inspected_eq] at htake

section Detect

variable {ar : IntArith} {e : Engines} {param : Choice} {input : List UInt8} {seen : Seen}

/-- A completed run of the detectors, by what each of them looks at. -/
theorem detect_exact {d : Bool} (hk : param.option_algorithm = 1 ∨ param.option_algorithm = 2 ∨
      param.option_algorithm = 3)
    (h : detect ar e param (tmpbuf input seen) = .ok d) :
    d = true ↔ (∃ line ∈ tokens newline param.match_rules,
        LineMatches (inspected input seen) line) ∨
      sqliHit e param (tmpbuf input seen) = true ∨
      regexTest ar e param (sqliLeft e param (tmpbuf input seen))
        (strnlen (tmpbuf input seen) 6128) = .ok true := by
  obtain ⟨byMatch, hmatch, h⟩ := bind_ok h
  rw [sqliTest_eq] at h
  obtain ⟨byRegex, hregex, h⟩ := bind_ok (x := regexTest ar e param
    (sqliLeft e param (tmpbuf input seen)) (strnlen (tmpbuf input seen) 6128)) h
  obtain rfl := Except.ok.inj h
  rw [algorithmTest, if_pos (by omega)] at hmatch
  have hexact := matchlist_exact hk hmatch
  rw [hregex, Except.ok.injEq, inspected, ← hexact]
  simp only [Bool.or_eq_true, or_assoc]

/-- The block list, or a detector in what it is given to look at, reports the request. -/
def Reported (ar : IntArith) (e : Engines) (param : Choice) (input : List UInt8) (seen : Seen) :
    Prop :=
  seen.addr_ip.any (listed param.block_addr_list) = true ∨
    (∃ line ∈ tokens newline param.match_rules, LineMatches (inspected input seen) line) ∨
    sqliHit e param (tmpbuf input seen) = true ∨
    regexTest ar e param (sqliLeft e param (tmpbuf input seen))
      (strnlen (tmpbuf input seen) 6128) = .ok true

/-- The enabled detectors complete, and without an address there is neither a block list
line to compare it with nor a log to write it to. -/
def Completes (ar : IntArith) (e : Engines) (param : Choice) (input : List UInt8) (seen : Seen) :
    Prop :=
  (∃ d, detect ar e param (tmpbuf input seen) = .ok d) ∧
    (seen.addr_ip = none → tokens newline param.block_addr_list = [] ∧ param.logfile = none)

/-- The calls that block, by what is looked at. -/
theorem verdict_true_iff (hreq : is_request (tmpbuf input seen) = true)
    (hk : param.option_algorithm = 1 ∨ param.option_algorithm = 2 ∨ param.option_algorithm = 3) :
    verdict ar e param input seen = .ok true ↔
      Completes ar e param input seen ∧ Reported ar e param input seen := by
  have hexact {d : Bool} (hd : detect ar e param (tmpbuf input seen) = .ok d) :=
    detect_exact hk hd
  by_cases hl : Loggable param seen
  · rw [verdict_loggable hreq hl]
    unfold Completes Reported
    cases haddr : seen.addr_ip with
    | some addr =>
      obtain ⟨after, hblock, -⟩ := blocklist_ip_some param.block_addr_list addr
      rw [hblock]
      cases hd : detect ar e param (tmpbuf input seen) with
      | error t => simp [Functor.map, Except.map, bind, Except.bind]
      | ok d => simp [Functor.map, Except.map, bind, Except.bind, ← hexact hd]
    | none =>
      rw [blocklist_ip_no_address]
      cases hd : detect ar e param (tmpbuf input seen) with
      | error t => split_ifs <;> simp [Functor.map, Except.map, bind, Except.bind]
      | ok d =>
        split_ifs with ht
        · simp [Functor.map, Except.map, bind, Except.bind, ← hexact hd, ht, hl haddr]
        · simp [bind, Except.bind, ht]
  · constructor
    · intro hv
      exact absurd (verdict_not_loggable hreq hl hv) (by decide)
    · intro h
      exact absurd (fun hnone => (h.1.2 hnone).2) hl

/-- `readcb` on this input leaves the partner as it is. -/
def Withheld (ar : IntArith) (e : Engines) (param : Choice) (input : List UInt8)
    (seen : Seen) : Prop :=
  ∀ (w w' : World) (b : BevId) (x y : Bev), w.param = param → x.live = true → y.live = true →
    x.input = input → readcb ar e (w.put b x y) b (some b.peer) seen = .ok w' →
    w'.bevs b.peer = y

theorem withheld_of_verdict (h : verdict ar e param input seen = .ok true) :
    Withheld ar e param input seen := by
  intro w w' b x y hparam hx hy hinput hread
  rw [readcb_put ar e w b hx hy, hparam, hinput] at hread
  obtain ⟨r, hr, rfl⟩ := map_ok hread
  rw [verdict, stopOnTrap_ok hr] at h
  have ht : r.test = true := Except.ok.inj h
  rw [put_bevs_peer, ht]
  rfl

theorem reported_of_front
    (hfit : (decodeLoop (input ++ seen.afterData)).length ≤ 6128)
    (h : RuleInFront param.match_rules input) : Reported ar e param input seen := by
  obtain ⟨before, front, hpre, hbefore, hescapes, line, hmem, hmatch⟩ := h
  have hinspected := inspected_of_front hpre hbefore hescapes hfit
  have hsub := (List.suffix_append (decodeLoop before) (cstr (percentDecode front))).isInfix
  exact .inr (.inl ⟨line, hmem, hmatch.mono (hsub.trans hinspected.isInfix)⟩)

/-- Nothing but the match list can report the request. -/
def MatchListOnly (param : Choice) (seen : Seen) : Prop :=
  seen.addr_ip.any (listed param.block_addr_list) = false ∧
    param.libinjection_sqli = false ∧ param.pcre = false

/-- Where the escapes are complete and the copy is terminated, a match list alone blocks no
other buffers. -/
theorem rule_in_front_of_blocks (hreq : is_request (tmpbuf input seen) = true)
    (hk : param.option_algorithm = 1 ∨ param.option_algorithm = 2 ∨ param.option_algorithm = 3)
    (honly : MatchListOnly param seen) (hescapes : escapesComplete input = true)
    (hend : cstr seen.afterData = [])
    (hverdict : verdict ar e param input seen = .ok true) :
    RuleInFront param.match_rules input := by
  obtain ⟨hlisted, hsqli, hpcre⟩ := honly
  have hbehind : decodeLoop seen.afterData = [] := by
    have hlen := length_decodeLoop_le seen.afterData
    rw [hend, List.length_nil] at hlen
    exact List.length_eq_zero_iff.mp (Nat.le_zero.mp hlen)
  have hbuf : tmpbuf input seen = percentDecode input ++ 0 :: seen.afterTmpbuf := by
    simp [tmpbuf, urldecode, decodeLoop_append hescapes, hbehind]
  obtain ⟨-, hreported⟩ := (verdict_true_iff hreq hk).mp hverdict
  rcases hreported with haddr | ⟨line, hmem, hmatch⟩ | hhit | hregex
  · simp [hlisted] at haddr
  · refine ⟨[], input, List.prefix_refl _, readable_nil, hescapes, line, hmem, hmatch.mono ?_⟩
    rw [inspected_eq, hbuf, cstr_append_zero]
    exact (List.take_prefix _ _).isInfix
  · simp [sqliHit, hsqli] at hhit
  · simp [regexTest, hpcre] at hregex

/-- Every rule line in the decoding of the buffer as a whole gets it blocked and withheld, with
no byte written outside the decoder's block. -/
def Covered (ar : IntArith) (e : Engines) (param : Choice) (input : List UInt8) (seen : Seen) :
    Prop :=
  ∀ line ∈ tokens newline param.match_rules, 4 < line.length → line <:+: percentDecode input →
    StaysInBlock input seen ∧ verdict ar e param input seen = .ok true ∧
      Withheld ar e param input seen

/-- No rule line is there to be found, or one is found in front. -/
def NoneOrInFront (rules input : List UInt8) : Prop :=
  (∀ line ∈ tokens newline rules, 4 < line.length → ¬ line <:+: percentDecode input) ∨
    RuleInFront rules input

/-- An accepted buffer that decodes to at most 6128 bytes, with what stands behind the copy, and
on which the detectors complete, is covered if no rule line stands in it or the searched part of
one stands in front, whatever else it holds. With the match list alone, complete escapes and a
terminated copy, no other buffer is. -/
theorem rule_anywhere_blocks (hreq : is_request (tmpbuf input seen) = true)
    (hk : param.option_algorithm = 1 ∨ param.option_algorithm = 2 ∨ param.option_algorithm = 3)
    (hfit : (decodeLoop (input ++ seen.afterData)).length ≤ 6128)
    (hcompletes : Completes ar e param input seen) :
    (NoneOrInFront param.match_rules input → Covered ar e param input seen) ∧
      (MatchListOnly param seen → escapesComplete input = true → cstr seen.afterData = [] →
        Covered ar e param input seen → NoneOrInFront param.match_rules input) := by
  constructor
  · rintro (hnone | hfront) line hmem hlen hocc
    · exact absurd hocc (hnone line hmem hlen)
    · have hverdict : verdict ar e param input seen = .ok true :=
        (verdict_true_iff hreq hk).mpr ⟨hcompletes, reported_of_front hfit hfront⟩
      exact ⟨(staysInBlock_iff input seen).mpr hfit, hverdict, withheld_of_verdict hverdict⟩
  · intro honly hescapes hend hcovered
    by_cases hnone : ∀ line ∈ tokens newline param.match_rules, 4 < line.length →
        ¬ line <:+: percentDecode input
    · exact .inl hnone
    · push Not at hnone
      obtain ⟨line, hmem, hlen, hocc⟩ := hnone
      obtain ⟨-, hverdict, -⟩ := hcovered line hmem hlen hocc
      exact .inr (rule_in_front_of_blocks hreq hk honly hescapes hend hverdict)

end Detect

/-- An escaped rule behind a malformed escape, with a zero byte and half an escape behind it. -/
theorem rule_anywhere_blocks_script :
    verdict .wrapping quietEngines (matchOnly (ascii "<script>\n") 1)
        (ascii "GET /?a=%zz&q=%3Cscript%3e%00%4") (seenAt (ascii "10.0.0.9")) = .ok true := by
  have hd : detect .wrapping quietEngines (matchOnly (ascii "<script>\n") 1)
      (tmpbuf (ascii "GET /?a=%zz&q=%3Cscript%3e%00%4") (seenAt (ascii "10.0.0.9"))) =
        .ok true := by
    decide +kernel
  have hbefore : Readable (ascii "GET /?a=%zz&q=") :=
    ⟨by decide +kernel, by decide +kernel, by decide +kernel⟩
  have hfront : RuleInFront (matchOnly (ascii "<script>\n") 1).match_rules
      (ascii "GET /?a=%zz&q=%3Cscript%3e%00%4") :=
    ⟨ascii "GET /?a=%zz&q=", ascii "%3Cscript%3e%00", by decide +kernel, hbefore,
      by decide +kernel, ascii "<script>", by decide +kernel, by decide +kernel⟩
  obtain ⟨henough, -⟩ := @rule_anywhere_blocks .wrapping quietEngines
    (matchOnly (ascii "<script>\n") 1) (ascii "GET /?a=%zz&q=%3Cscript%3e%00%4")
    (seenAt (ascii "10.0.0.9")) (by decide +kernel) (.inl rfl) (by decide +kernel)
    ⟨⟨true, hd⟩, fun hnone => absurd hnone (Option.some_ne_none _)⟩
  have hcovered := henough (.inr hfront) (ascii "<script>") (by decide +kernel)
    (by decide +kernel) (by decide +kernel)
  exact hcovered.2.1

/-- A zero byte in front of a rule hides it from every algorithm. -/
theorem zero_byte_hides_rule :
    is_request (tmpbuf (ascii "GET /aaaaaa" ++ 0 :: ascii "<script>")
        (seenAt (ascii "10.0.0.9"))) = true ∧
      ascii "<script>" ∈ tokens newline (ascii "<script>\n") ∧
      ascii "<script>" <:+: percentDecode (ascii "GET /aaaaaa" ++ 0 :: ascii "<script>") ∧
      ∀ k ∈ [1, 2, 3], verdict .wrapping quietEngines (matchOnly (ascii "<script>\n") k)
        (ascii "GET /aaaaaa" ++ 0 :: ascii "<script>") (seenAt (ascii "10.0.0.9")) =
          .ok false := by
  decide +kernel

end OctopusWaf
