import OctopusWaf.FilterCheck

/-! What earlier calls of `filter_check` do to a later one: the rule lists are never
changed, the block list keeps its first line only. -/
namespace OctopusWaf
open CMachine CString

section Call

variable {ar : IntArith} {e : Engines} {param : Choice} {input : List UInt8} {seen : Seen}

/-- A completed call on an accepted buffer, by its block list test and its detectors. -/
theorem filter_check_ok {r : Inspection} (hreq : is_request (tmpbuf input seen) = true)
    (h : filter_check ar e param input seen = .ok r) :
    ∃ found d, blocklist_ip param.block_addr_list seen.addr_ip = .ok (found, r.block_addr_list) ∧
      detect ar e param (tmpbuf input seen) = .ok d ∧ r.test = (found || d) := by
  unfold filter_check at h
  simp only [hreq, if_true] at h
  obtain ⟨⟨found, after⟩, hblock, h⟩ := bind_ok h
  obtain ⟨log₁, -, h⟩ := bind_ok h
  obtain ⟨byMatch, hmatch, h⟩ := bind_ok h
  obtain ⟨log₂, -, h⟩ := bind_ok h
  obtain ⟨⟨bySqli, left⟩, hsqli, h⟩ := bind_ok h
  obtain ⟨log₃, -, h⟩ := bind_ok h
  obtain ⟨byRegex, hregex, h⟩ := bind_ok h
  obtain ⟨log₄, -, h⟩ := bind_ok h
  obtain rfl := Except.ok.inj h
  refine ⟨found, byMatch || bySqli || byRegex, hblock, ?_, ?_⟩
  · simp [detect, hmatch, hsqli, hregex, bind, Except.bind]
  · simp [Bool.or_assoc]

/-- The request is on the block list, or a detector speaks up. -/
def Hostile (ar : IntArith) (e : Engines) (param : Choice) (input : List UInt8) (seen : Seen) :
    Prop :=
  is_request (tmpbuf input seen) = true ∧
    (seen.addr_ip.any (listed param.block_addr_list) = true ∨
      detect ar e param (tmpbuf input seen) = .ok true)

instance : Decidable (Hostile ar e param input seen) := inferInstanceAs (Decidable (_ ∧ (_ ∨ _)))

theorem hostile_of_test {r : Inspection} (h : filter_check ar e param input seen = .ok r)
    (ht : r.test = true) : Hostile ar e param input seen := by
  cases hreq : is_request (tmpbuf input seen) with
  | true =>
    obtain ⟨found, d, hblock, hdetect, htest⟩ := filter_check_ok hreq h
    refine ⟨hreq, ?_⟩
    cases found with
    | true =>
      obtain ⟨addr, haddr, hl⟩ := blocklist_ip_found hblock
      exact .inl (by simp [haddr, hl])
    | false =>
      rw [htest, Bool.false_or] at ht
      exact .inr (by rw [hdetect, ht])
  | false =>
    rw [filter_check_rejected ar e param input hreq] at h
    simp [← Except.ok.inj h] at ht

theorem test_of_hostile {r : Inspection} (h : filter_check ar e param input seen = .ok r)
    (hh : Hostile ar e param input seen) : r.test = true := by
  obtain ⟨found, d, hblock, hdetect, htest⟩ := filter_check_ok hh.1 h
  rw [htest]
  rcases hh.2 with hany | hd
  · cases haddr : seen.addr_ip with
    | none => simp [haddr] at hany
    | some addr =>
      have hl : listed param.block_addr_list addr = true := by simpa [haddr] using hany
      obtain ⟨after, hsome, -⟩ := blocklist_ip_some param.block_addr_list addr
      rw [haddr, hsome, hl] at hblock
      simp [← (Prod.mk.inj (Except.ok.inj hblock)).1]
  · rw [hdetect] at hd
    simp [Except.ok.inj hd]

theorem verdict_rejected (hreq : is_request (tmpbuf input seen) = false) :
    verdict ar e param input seen = .ok false := by
  rw [verdict, filter_check_rejected ar e param input hreq]
  rfl

/-- A verdict on an accepted buffer, with what only the next call sees left out. -/
theorem verdict_eq (hreq : is_request (tmpbuf input seen) = true) :
    verdict ar e param input seen = (do
      let byAddress ← Prod.fst <$> blocklist_ip param.block_addr_list seen.addr_ip
      let data := input ++ seen.afterData
      let len := input.length
      let buf := tmpbuf input seen
      let _ ← logHit param byAddress (ascii "Block per address") seen.addr_ip (ascii " ") 1
      let byMatch ← algorithmTest ar e param buf (strnlen buf 6128)
      let _ ← logHit param byMatch (ascii "Algorithm match") seen.addr_ip data len
      let (bySqli, left) ← sqliTest e param buf
      let _ ← logHit param bySqli (ascii "Libinejction SQLi match") seen.addr_ip data len
      let byRegex ← regexTest ar e param left (strnlen buf 6128)
      let _ ← logHit param byRegex (ascii "Lib PCRE match per regex") seen.addr_ip data len
      .ok (byAddress || byMatch || bySqli || byRegex)) := by
  simp only [verdict, filter_check, hreq, if_true, map_bind, bind_map_left]
  rfl

/-- Where a hit can be recorded, only the block list test and `detect` can fail. -/
theorem verdict_loggable (hreq : is_request (tmpbuf input seen) = true)
    (h : Loggable param seen) :
    verdict ar e param input seen = (do
      let byAddress ← Prod.fst <$> blocklist_ip param.block_addr_list seen.addr_ip
      (byAddress || ·) <$> detect ar e param (tmpbuf input seen)) := by
  have hlog := logHit_loggable h
  rw [verdict_eq hreq]
  simp only [detect, bind, Except.bind]
  cases Prod.fst <$> blocklist_ip param.block_addr_list seen.addr_ip with
  | error t => rfl
  | ok byAddress =>
    obtain ⟨log₁, h₁⟩ := hlog byAddress (ascii "Block per address") (ascii " ") 1
    simp only [h₁]
    cases algorithmTest ar e param (tmpbuf input seen) (strnlen (tmpbuf input seen) 6128) with
    | error t => rfl
    | ok byMatch =>
      obtain ⟨log₂, h₂⟩ := hlog byMatch (ascii "Algorithm match") (input ++ seen.afterData)
        input.length
      simp only [h₂]
      cases sqliTest e param (tmpbuf input seen) with
      | error t => rfl
      | ok split =>
        obtain ⟨log₃, h₃⟩ := hlog split.1 (ascii "Libinejction SQLi match")
          (input ++ seen.afterData) input.length
        simp only [h₃]
        cases regexTest ar e param split.2 (strnlen (tmpbuf input seen) 6128) with
        | error t => rfl
        | ok byRegex =>
          obtain ⟨log₄, h₄⟩ := hlog byRegex (ascii "Lib PCRE match per regex")
            (input ++ seen.afterData) input.length
          simp [h₄, Bool.or_assoc, Functor.map, Except.map]

theorem verdict_some {addr : List UInt8} (hreq : is_request (tmpbuf input seen) = true)
    (haddr : seen.addr_ip = some addr) :
    verdict ar e param input seen =
      (fun d => listed param.block_addr_list addr || d) <$>
        detect ar e param (tmpbuf input seen) := by
  obtain ⟨after, hblock, -⟩ := blocklist_ip_some param.block_addr_list addr
  rw [verdict_loggable hreq (loggable_some haddr), haddr, hblock]
  rfl

theorem verdict_not_loggable {v : Bool} (hreq : is_request (tmpbuf input seen) = true)
    (h : ¬ Loggable param seen) (hv : verdict ar e param input seen = .ok v) : v = false := by
  rw [verdict_eq hreq] at hv
  obtain ⟨byAddress, -, hv⟩ := bind_ok hv
  obtain ⟨log₁, h₁, hv⟩ := bind_ok hv
  obtain ⟨byMatch, -, hv⟩ := bind_ok hv
  obtain ⟨log₂, h₂, hv⟩ := bind_ok hv
  obtain ⟨⟨bySqli, left⟩, -, hv⟩ := bind_ok hv
  obtain ⟨log₃, h₃, hv⟩ := bind_ok hv
  obtain ⟨byRegex, -, hv⟩ := bind_ok hv
  obtain ⟨log₄, h₄, hv⟩ := bind_ok hv
  rw [← Except.ok.inj hv, no_hit_of_not_loggable h h₁, no_hit_of_not_loggable h h₂,
    no_hit_of_not_loggable h h₃, no_hit_of_not_loggable h h₄]
  rfl

end Call

/-- The configuration after a sequence of calls. -/
def history (ar : IntArith) (e : Engines) (param : Choice) :
    List (List UInt8 × Seen) → Except Trap Choice
  | [] => .ok param
  | (input, seen) :: calls => do
    let r ← filter_check ar e param input seen
    history ar e { param with block_addr_list := r.block_addr_list } calls

/-- A block list of two lines and an empty match list. -/
def twoAddresses : Choice :=
  { matchOnly [] 3 with block_addr_list := ascii "10.0.0.1\n10.0.0.2\n" }

end OctopusWaf
