import OctopusWaf.Matchlist
import OctopusWaf.Utils

/-! `strnstr` and `blocklist_ip`. Unlike the rule lists, the block list is tokenised in
place, and only its first line is left for the next caller. -/
namespace OctopusWaf
open CMachine CString

/-- The search loops of `strnstr` for the first character `c` and the rest of `find`. -/
def strnstrLoop (c : UInt8) (find : List UInt8) : (s : List UInt8) → (slen : ℕ) → Bool
  | [], _ => false
  | _ :: _, 0 => false
  | sc :: s, slen + 1 =>
    if sc = 0 then false
    else if sc ≠ c then strnstrLoop c find s slen
    else if find.length > slen then false
    else if (cstr s).take find.length = find then true
    else strnstrLoop c find s slen

/-- Whether `strnstr(s, find, slen)` is not null. -/
def strnstr (s find : List UInt8) (slen : ℕ) : Bool :=
  match find with
  | [] => true
  | c :: find => strnstrLoop c find s slen

def blockLine (addr : Option (List UInt8)) (line : List UInt8) : Except Trap Bool :=
  match addr with
  | none => .error .nullPointer
  | some addr => .ok (strnstr line addr 128)

/-- Returns the list as `strtok` leaves it in `param`. -/
def blocklist_ip (block_addr_list : List UInt8) (addr : Option (List UInt8)) :
    Except Trap (Bool × List UInt8) :=
  scanTokens newline (blockLine addr) block_addr_list

/-- Some line that can still be seen contains the address. -/
def listed (block_addr_list addr : List UInt8) : Bool :=
  (tokens newline block_addr_list).any fun line => strnstr line addr 128

/-- The first line contains the address. -/
def listedFirst (block_addr_list addr : List UInt8) : Bool :=
  ((tokens newline block_addr_list).take 1).any fun line => strnstr line addr 128

theorem listedFirst_le {l addr : List UInt8} (h : listedFirst l addr = true) :
    listed l addr = true := by
  simp only [listedFirst, listed, List.any_eq_true] at *
  obtain ⟨line, hl, ha⟩ := h
  exact ⟨line, List.mem_of_mem_take hl, ha⟩

/-- With an address the scan completes, answers for the visible lines, and leaves the
first of them. -/
theorem blocklist_ip_some (l addr : List UInt8) :
    ∃ after, blocklist_ip l (some addr) = .ok (listed l addr, after) ∧
      tokens newline after = (tokens newline l).take 1 := by
  obtain ⟨after, h⟩ := scanTokens_total (ε := Trap) newline_ne_zero
    (fun line => strnstr line addr 128) l
  exact ⟨after, h, (scanTokens_left newline_ne_zero h).1⟩

/-- Without an address the scan fails on the first line it comes to. -/
theorem blocklist_ip_no_address (l : List UInt8) :
    Prod.fst <$> blocklist_ip l none =
      if tokens newline l = [] then .ok false else .error .nullPointer := by
  unfold blocklist_ip
  rw [scanTokens_found newline_ne_zero]
  cases tokens newline l with
  | nil => rfl
  | cons line lines => rfl

/-- A hit comes from an address on some visible line. -/
theorem blocklist_ip_found {l after : List UInt8} {addr : Option (List UInt8)}
    (h : blocklist_ip l addr = .ok (true, after)) :
    ∃ a, addr = some a ∧ listed l a = true := by
  cases addr with
  | some a =>
    obtain ⟨after', h', -⟩ := blocklist_ip_some l a
    rw [h] at h'
    exact ⟨a, rfl, (Prod.mk.inj (Except.ok.inj h')).1.symm⟩
  | none =>
    have hnone := blocklist_ip_no_address l
    rw [h] at hnone
    split_ifs at hnone <;> simp [Functor.map, Except.map] at hnone

/-- Whatever the address, a completed scan leaves at most the first line. -/
theorem blocklist_ip_left {l after : List UInt8} {addr : Option (List UInt8)} {found : Bool}
    (h : blocklist_ip l addr = .ok (found, after)) :
    tokens newline after = (tokens newline l).take 1 :=
  (scanTokens_left newline_ne_zero h).1

example : blocklist_ip (ascii "10.0.0.1\n10.0.0.2\n") (some (ascii "10.0.0.2")) =
    .ok (true, ascii "10.0.0.1" ++ 0 :: (ascii "10.0.0.2" ++ [0])) := by decide +kernel

theorem strnstrLoop_iff {c : UInt8} {find : List UInt8} (hc : c ≠ 0) (s : List UInt8) (slen : ℕ) :
    strnstrLoop c find s slen = true ↔ (c :: find) <:+: (cstr s).take slen := by
  induction s generalizing slen with
  | nil => simp [strnstrLoop]
  | cons sc s ih =>
    cases slen with
    | zero => simp [strnstrLoop]
    | succ slen =>
      by_cases hsc : sc = 0
      · simp [strnstrLoop, hsc]
      rw [cstr_cons hsc, List.take_succ_cons, List.infix_cons_iff, List.cons_prefix_cons,
        ← ih slen]
      by_cases heq : sc = c
      · subst heq
        simp only [strnstrLoop, hsc, ne_eq, not_true_eq_false, if_false, true_and]
        split_ifs with hlong hhead
        · -- what is left is too short for the rest of `find`, here and later
          have hlen : ¬ find.length ≤ ((cstr s).take slen).length := by
            rw [List.length_take]
            omega
          rw [ih slen]
          refine iff_of_false not_false ?_
          rintro (hpre | hin)
          · exact hlen hpre.length_le
          · have hcons := hin.length_le
            rw [List.length_cons] at hcons
            omega
        · refine iff_of_true rfl (.inl ?_)
          rw [List.prefix_iff_eq_take, List.take_take, min_eq_left (by omega), hhead]
        · have hno : ¬ find <+: (cstr s).take slen := by
            rw [List.prefix_iff_eq_take, List.take_take, min_eq_left (by omega)]
            exact fun h => hhead h.symm
          rw [or_iff_right hno]
      · simp [strnstrLoop, hsc, heq, Ne.symm heq]

/-- `strnstr` looks for all of `find` among the first `slen` characters. -/
theorem strnstr_iff {find : List UInt8} (hne : find ≠ []) (hz : ∀ c ∈ find, c ≠ 0)
    (s : List UInt8) (slen : ℕ) : strnstr s find slen = true ↔ find <:+: (cstr s).take slen := by
  cases find with
  | nil => exact absurd rfl hne
  | cons c find => exact strnstrLoop_iff (hz c (by simp)) s slen

/-- The characters and the length that a textual address has, IPv4 and IPv6 alike. -/
structure AddressText (a : List UInt8) : Prop where
  nonempty : a ≠ []
  short : a.length ≤ 45
  address_char : ∀ c ∈ a, isxdigit c = true ∨ c = 46 ∨ c = 58

theorem AddressText.ne_of_not_char {a : List UInt8} (h : AddressText a) {d : UInt8}
    (hd : isxdigit d = false ∧ d ≠ 46 ∧ d ≠ 58) : ∀ c ∈ a, c ≠ d := by
  rintro c hc rfl
  rcases h.address_char c hc with hx | hdot | hcolon
  · rw [hd.1] at hx
    contradiction
  · exact hd.2.1 hdot
  · exact hd.2.2 hcolon

/-- The scan finds the address in the first 128 characters of an entry. -/
theorem listed_iff {l addr : List UInt8} (haddr : AddressText addr) :
    listed l addr = true ↔ ∃ line ∈ tokens newline l, addr <:+: line.take 128 := by
  have hz : ∀ c ∈ addr, c ≠ 0 := haddr.ne_of_not_char (by decide)
  simp only [listed, List.any_eq_true, strnstr_iff haddr.nonempty hz]
  refine exists_congr fun line => and_congr_right fun hline => ?_
  rw [cstr_eq_self (mem_tokens_no_zero hline)]

/-- Listed addresses are always found. Exactly the listed ones are, for a given client, if
its address is listed or no other entry contains it in its first 128 characters. -/
theorem blocklist_ip_exact_iff (l : List UInt8) {addr : List UInt8} (haddr : AddressText addr) :
    ∃ found after, blocklist_ip l (some addr) = .ok (found, after) ∧
      ((found = true ↔ addr ∈ tokens newline l) ↔
        addr ∈ tokens newline l ∨
          ∀ line ∈ tokens newline l, line ≠ addr → ¬ addr <:+: line.take 128) := by
  obtain ⟨after, hscan, -⟩ := blocklist_ip_some l addr
  refine ⟨listed l addr, after, hscan, ?_⟩
  have hself : addr <:+: addr.take 128 := by
    rw [List.take_of_length_le (haddr.short.trans (by decide))]
  rw [listed_iff haddr]
  constructor
  · intro hexact
    by_cases hmem : addr ∈ tokens newline l
    · exact .inl hmem
    · exact .inr fun line hline _ hin => hmem (hexact.mp ⟨line, hline, hin⟩)
  · rintro (hmem | hnone)
    · exact iff_of_true ⟨addr, hmem, hself⟩ hmem
    · refine ⟨?_, fun hmem => ⟨addr, hmem, hself⟩⟩
      rintro ⟨line, hline, hin⟩
      by_contra hmem
      exact hnone line hline (fun he => hmem (he ▸ hline)) hin

/-- A listed client. -/
theorem blocklist_ip_exact_listed :
    ∃ found after,
      blocklist_ip (ascii "10.0.0.12\n10.0.0.1") (some (ascii "10.0.0.1")) = .ok (found, after) ∧
      ((found = true ↔ ascii "10.0.0.1" ∈ tokens newline (ascii "10.0.0.12\n10.0.0.1")) ↔
        ascii "10.0.0.1" ∈ tokens newline (ascii "10.0.0.12\n10.0.0.1") ∨
          ∀ line ∈ tokens newline (ascii "10.0.0.12\n10.0.0.1"), line ≠ ascii "10.0.0.1" →
            ¬ ascii "10.0.0.1" <:+: line.take 128) :=
  blocklist_ip_exact_iff _ ⟨by decide +kernel, by decide +kernel, by decide +kernel⟩

/-- A client that is not listed is blocked because its address begins a listed one. -/
theorem blocklist_ip_blocks_unlisted :
    (∃ after, blocklist_ip (ascii "10.0.0.12") (some (ascii "10.0.0.1")) = .ok (true, after)) ∧
      ascii "10.0.0.1" ∉ tokens newline (ascii "10.0.0.12") := by
  exact ⟨⟨ascii "10.0.0.12", by decide +kernel⟩, by decide +kernel⟩

end OctopusWaf
