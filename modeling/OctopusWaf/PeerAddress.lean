import OctopusWaf.Detectors
import OctopusWaf.Library.Traced

/-! `bufferevent_get_addr` from the bytes `getpeername` stores to the text `filter_check` uses.
The address is kept in a structure of 16 bytes that is never initialised. -/
namespace OctopusWaf
open CMachine CString Traced

def AF_INET : ℕ := 2

def AF_INET6 : ℕ := 10

/-- The socket addresses of the two families, field by field. -/
inductive SockAddr where
  | inet (sin_port : Vector UInt8 2) (sin_addr : Vector UInt8 4)
  | inet6 (sin6_port : Vector UInt8 2) (sin6_flowinfo : Vector UInt8 4)
      (sin6_addr : Vector UInt8 16) (sin6_scope_id : Vector UInt8 4)

/-- `struct sockaddr_in` and `struct sockaddr_in6` in memory, the family in host order. -/
def SockAddr.image : SockAddr → List UInt8
  | .inet sin_port sin_addr =>
    [2, 0] ++ (sin_port.toList ++ (sin_addr.toList ++ List.replicate 8 0))
  | .inet6 sin6_port sin6_flowinfo sin6_addr sin6_scope_id =>
    [10, 0] ++ (sin6_port.toList ++ (sin6_flowinfo.toList ++
      (sin6_addr.toList ++ sin6_scope_id.toList)))

/-- `sizeof(struct sockaddr)`. -/
def addr_size : ℕ := 16

/-- The bytes `getpeername` stores: what fits of the peer's address, and nothing if it fails. -/
def stored (peer : Option SockAddr) : List UInt8 :=
  (peer.elim [] SockAddr.image).take addr_size

/-- The memory at `addr` after the call. -/
def getpeername (peer : Option SockAddr) (stack : List UInt8) : List UInt8 :=
  stored peer ++ stack.drop (stored peer).length

/-- `n` bytes from index `i` on. The accesses are the indices. -/
def readRange (s : List UInt8) (i n : ℕ) : Traced ℕ (List UInt8) :=
  ⟨.ok (bytes (s.drop i) n), (List.range n).map (i + ·)⟩

section Address

-- the text of a binary address of a family
variable (inet_ntop : ℕ → List UInt8 → List UInt8)

def addr_2_str (res : List UInt8) : Traced ℕ (Option (List UInt8)) := do
  touch 0
  touch 1
  let sa_family := (readAt res 0).toNat + 256 * (readAt res 1).toNat
  if sa_family = AF_INET then do
    let sin_addr ← readRange res 4 4
    pure (some (inet_ntop AF_INET sin_addr))
  else if sa_family = AF_INET6 then do
    let sin6_addr ← readRange res 8 16
    pure (some (inet_ntop AF_INET6 sin6_addr))
  else pure none

/-- What `getpeername` returns is not looked at. -/
def bufferevent_get_addr (peer : Option SockAddr) (stack : List UInt8) :
    Traced ℕ (Option (List UInt8)) :=
  addr_2_str inet_ntop (getpeername peer stack)

/-- The text of a peer's address. -/
def SockAddr.text : SockAddr → List UInt8
  | .inet _ sin_addr => inet_ntop AF_INET sin_addr.toList
  | .inet6 _ _ sin6_addr _ => inet_ntop AF_INET6 sin6_addr.toList

/-- The inspection of this request does not trip over a null address. -/
def HandlesNull (e : Engines) (param : Choice) (input : List UInt8) (seen : Seen) : Prop :=
  filter_check .wrapping e param input { seen with addr_ip := none } ≠ .error .nullPointer

/-- No detector that is run reports the request. -/
def Unreported (e : Engines) (param : Choice) (buf : List UInt8) : Prop :=
  algorithmTest .wrapping e param buf (strnlen buf 6128) ≠ .ok true ∧
    (algorithmTest .wrapping e param buf (strnlen buf 6128) = .ok false →
      sqliHit e param buf = false ∧
        regexTest .wrapping e param (sqliLeft e param buf) (strnlen buf 6128) ≠ .ok true)

/-- The text of exactly the peer's address, from stored bytes only, or a null pointer that is
handled whatever is asked with it. -/
def WellDefined (peer : Option SockAddr) (stack : List UInt8) : Prop :=
  ((∃ a, peer = some a ∧
      (bufferevent_get_addr inet_ntop peer stack).result = .ok (some (a.text inet_ntop))) ∧
    (bufferevent_get_addr inet_ntop peer stack).Within (· < (stored peer).length)) ∨
  (bufferevent_get_addr inet_ntop peer stack).result = .ok none ∧
    ∀ e param input seen, HandlesNull e param input seen

@[simp] theorem mem_readRange {s : List UInt8} {i n a : ℕ} :
    a ∈ (readRange s i n).accesses ↔ i ≤ a ∧ a < i + n := by
  simp only [readRange, List.mem_map, List.mem_range]
  constructor
  · rintro ⟨k, hk, rfl⟩
    omega
  · exact fun h => ⟨a - i, by omega, by omega⟩

@[simp] theorem readRange_result (s : List UInt8) (i n : ℕ) :
    (readRange s i n).result = .ok (bytes (s.drop i) n) := rfl

/-- The family is read, and from there the address of that family. -/
theorem mem_addr_2_str {res : List UInt8} {a : ℕ} :
    a ∈ (addr_2_str inet_ntop res).accesses ↔ a = 0 ∨ a = 1 ∨
      if (readAt res 0).toNat + 256 * (readAt res 1).toNat = AF_INET then 4 ≤ a ∧ a < 8
      else (readAt res 0).toNat + 256 * (readAt res 1).toNat = AF_INET6 ∧ 8 ≤ a ∧ a < 24 := by
  simp only [addr_2_str, mem_bind, mem_touch, result_touch]
  split_ifs with h4 h6
  · simp [mem_bind]
  · simp [mem_bind, h6]
  · simp [h6]

theorem addr_2_str_result (res : List UInt8) :
    (addr_2_str inet_ntop res).result = .ok
      (if (readAt res 0).toNat + 256 * (readAt res 1).toNat = AF_INET then
        some (inet_ntop AF_INET (bytes (res.drop 4) 4))
      else if (readAt res 0).toNat + 256 * (readAt res 1).toNat = AF_INET6 then
        some (inet_ntop AF_INET6 (bytes (res.drop 8) 16))
      else none) := by
  simp only [addr_2_str, result_bind, result_touch, ok_bind]
  split_ifs
  · simp
  · simp
  · rfl

/-- An IPv4 address fits into the structure, so that all of it is stored. -/
theorem getpeername_inet (sin_port : Vector UInt8 2) (sin_addr : Vector UInt8 4)
    (stack : List UInt8) :
    getpeername (some (.inet sin_port sin_addr)) stack =
      (SockAddr.inet sin_port sin_addr).image ++ stack.drop 16 := by
  have hlen : (SockAddr.inet sin_port sin_addr).image.length = 16 := by simp [SockAddr.image]
  have hstored : stored (some (.inet sin_port sin_addr)) =
      (SockAddr.inet sin_port sin_addr).image := List.take_of_length_le (by simp [hlen, addr_size])
  rw [getpeername, hstored, hlen]

theorem length_stored (a : SockAddr) : (stored (some a)).length = 16 := by
  cases a <;> simp [stored, SockAddr.image, addr_size]

theorem bufferevent_get_addr_inet (sin_port : Vector UInt8 2) (sin_addr : Vector UInt8 4)
    (stack : List UInt8) :
    (bufferevent_get_addr inet_ntop (some (.inet sin_port sin_addr)) stack).result =
        .ok (some (inet_ntop AF_INET sin_addr.toList)) ∧
      (bufferevent_get_addr inet_ntop (some (.inet sin_port sin_addr)) stack).Within (· < 16) := by
  have hfamily : (readAt (getpeername (some (.inet sin_port sin_addr)) stack) 0).toNat +
      256 * (readAt (getpeername (some (.inet sin_port sin_addr)) stack) 1).toNat = AF_INET := by
    rw [getpeername_inet]
    rfl
  have haddr : bytes ((getpeername (some (.inet sin_port sin_addr)) stack).drop 4) 4 =
      sin_addr.toList := by
    have hport : sin_port.toList.length = 2 := sin_port.length_toList
    have hlen : sin_addr.toList.length = 4 := sin_addr.length_toList
    have hdrop : (getpeername (some (.inet sin_port sin_addr)) stack).drop 4 =
        sin_addr.toList ++ (List.replicate 8 0 ++ stack.drop 16) := by
      rw [getpeername_inet, SockAddr.image]
      simp [hport]
    rw [hdrop, bytes_append (by omega), List.take_of_length_le (by omega)]
  constructor
  · rw [bufferevent_get_addr, addr_2_str_result, if_pos hfamily, haddr]
  · intro i hi
    rw [bufferevent_get_addr, mem_addr_2_str, if_pos hfamily] at hi
    omega

/-- An IPv6 address does not fit: its last eight bytes are read from behind the structure. -/
theorem bufferevent_get_addr_inet6 (sin6_port : Vector UInt8 2) (sin6_flowinfo : Vector UInt8 4)
    (sin6_addr : Vector UInt8 16) (sin6_scope_id : Vector UInt8 4) (stack : List UInt8) :
    ∀ i, 16 ≤ i → i < 24 → i ∈ (bufferevent_get_addr inet_ntop
      (some (.inet6 sin6_port sin6_flowinfo sin6_addr sin6_scope_id)) stack).accesses := by
  intro i hlo hhi
  have hfamily : (readAt (getpeername
      (some (.inet6 sin6_port sin6_flowinfo sin6_addr sin6_scope_id)) stack) 0).toNat +
      256 * (readAt (getpeername
        (some (.inet6 sin6_port sin6_flowinfo sin6_addr sin6_scope_id)) stack) 1).toNat = 10 := by
    simp [getpeername, stored, SockAddr.image, addr_size, readAt]
  rw [bufferevent_get_addr, mem_addr_2_str, hfamily]
  exact .inr (.inr (by simp [AF_INET, AF_INET6]; omega))

section NullAddress

variable {e : Engines} {param : Choice} {input : List UInt8} {seen : Seen}

theorem filter_check_error_iff {ar : IntArith} {t : Trap} :
    filter_check ar e param input seen = .error t ↔ verdict ar e param input seen = .error t := by
  unfold verdict
  cases filter_check ar e param input seen <;> simp [Functor.map, Except.map]

theorem regexTest_ne_nullPointer {ar : IntArith} {buf : List UInt8} {len : ℕ} :
    regexTest ar e param buf len ≠ .error .nullPointer := fun h => by
  simpa using regexTest_error h

theorem algorithmTest_ne_nullPointer {buf : List UInt8} {len : ℕ} :
    algorithmTest .wrapping e param buf len ≠ .error .nullPointer := by
  unfold algorithmTest
  split_ifs
  · exact fun h => matchlist_wrapping_error h rfl
  · simp

theorem detect_ne_nullPointer {buf : List UInt8} :
    detect .wrapping e param buf ≠ .error .nullPointer := by
  intro h
  unfold detect at h
  rw [sqliTest_eq] at h
  rcases bind_error h with hmatch | ⟨byMatch, -, h⟩
  · exact algorithmTest_ne_nullPointer hmatch
  · rcases bind_error h with hsqli | ⟨split, -, h⟩
    · contradiction
    · rcases bind_error h with hregex | ⟨byRegex, -, h⟩
      · exact regexTest_ne_nullPointer hregex
      · contradiction

/-- Where hits can be recorded, none is followed by a null pointer. -/
theorem verdict_loggable_ne_nullPointer (hreq : is_request (tmpbuf input seen) = true)
    (h : Loggable param seen)
    (hblock : Prod.fst <$> blocklist_ip param.block_addr_list seen.addr_ip = .ok false) :
    verdict .wrapping e param input seen ≠ .error .nullPointer := by
  rw [verdict_loggable hreq h, hblock]
  cases hd : detect .wrapping e param (tmpbuf input seen) with
  | error t =>
    intro heq
    obtain rfl : t = .nullPointer := Except.error.inj heq
    exact detect_ne_nullPointer hd
  | ok d => exact fun heq => by contradiction

/-- Where they cannot, the first detector that has something to record is. -/
theorem verdict_unrecorded_nullPointer_iff (hreq : is_request (tmpbuf input seen) = true)
    (h : ¬ Loggable param seen)
    (hblock : Prod.fst <$> blocklist_ip param.block_addr_list seen.addr_ip = .ok false) :
    verdict .wrapping e param input seen = .error .nullPointer ↔
      ¬ Unreported e param (tmpbuf input seen) := by
  unfold Unreported
  cases hm : algorithmTest .wrapping e param (tmpbuf input seen)
      (strnlen (tmpbuf input seen) 6128) with
  | error t =>
    have ht : t ≠ .nullPointer := fun ht => algorithmTest_ne_nullPointer (hm.trans (by rw [ht]))
    rw [verdict_eq hreq, hblock]
    simp [hm, logHit, ht, bind, Except.bind]
  | ok byMatch =>
    rw [verdict_unrecorded hreq h hblock hm]
    cases byMatch with
    | true => simp
    | false =>
      cases hs : sqliHit e param (tmpbuf input seen) with
      | true => simp
      | false =>
        cases hr : regexTest .wrapping e param (sqliLeft e param (tmpbuf input seen))
            (strnlen (tmpbuf input seen) 6128) with
        | error t =>
          have ht : t ≠ .nullPointer := fun ht => regexTest_ne_nullPointer (hr.trans (by rw [ht]))
          simpa [bind, Except.bind] using ht
        | ok byRegex => cases byRegex <;> simp [bind, Except.bind]

/-- Without an address a request that is accepted is inspected only where no address is
blocked, and either no log is kept or no detector has anything to record. -/
theorem handlesNull_iff : HandlesNull e param input seen ↔
    (is_request (tmpbuf input seen) = true →
      tokens newline param.block_addr_list = [] ∧
        (param.logfile = none ∨ Unreported e param (tmpbuf input seen))) := by
  unfold HandlesNull
  rw [Ne, filter_check_error_iff]
  -- what is inspected does not depend on the address
  have hbuf : tmpbuf input { seen with addr_ip := none } = tmpbuf input seen := rfl
  cases hreq : is_request (tmpbuf input seen) with
  | false =>
    rw [verdict_rejected (hbuf ▸ hreq)]
    simp
  | true =>
    have hblock := blocklist_ip_no_address param.block_addr_list
    by_cases hlines : tokens newline param.block_addr_list = []
    · rw [if_pos hlines] at hblock
      by_cases hlog : param.logfile = none
      · have hpass := @verdict_loggable_ne_nullPointer e param input { seen with addr_ip := none }
          (hbuf ▸ hreq) (fun _ => hlog) hblock
        exact iff_of_true hpass fun _ => ⟨hlines, .inl hlog⟩
      · have hstop := @verdict_unrecorded_nullPointer_iff e param input
          { seen with addr_ip := none } (hbuf ▸ hreq) (fun hok => hlog (hok rfl)) hblock
        rw [hstop, hbuf]
        simp [hlines, hlog]
    · rw [if_neg hlines] at hblock
      rw [verdict_eq (hbuf ▸ hreq), hblock]
      simp [hlines, bind, Except.bind]

end NullAddress

/-- The peer's address is well defined, whatever the stack holds, exactly if `getpeername`
succeeds with an IPv4 address. -/
theorem peer_address_well_defined_iff (peer : Option SockAddr) (stack : List UInt8) :
    WellDefined inet_ntop peer stack ↔
      ∃ sin_port sin_addr, peer = some (.inet sin_port sin_addr) := by
  constructor
  · rintro (⟨⟨a, rfl, -⟩, hwithin⟩ | ⟨-, hnull⟩)
    · cases a with
      | inet sin_port sin_addr => exact ⟨sin_port, sin_addr, rfl⟩
      | inet6 sin6_port sin6_flowinfo sin6_addr sin6_scope_id =>
        have hread := hwithin 16 (bufferevent_get_addr_inet6 inet_ntop sin6_port sin6_flowinfo
          sin6_addr sin6_scope_id stack 16 le_rfl (by omega))
        rw [length_stored] at hread
        omega
    · have hlines := (handlesNull_iff.mp (hnull quietEngines
        { matchOnly [] 0 with block_addr_list := ascii "127.0.0.3\n" } (ascii "GET /index")
        ⟨[], [], none⟩) (by decide +kernel)).1
      exact absurd hlines (by decide +kernel)
  · rintro ⟨sin_port, sin_addr, rfl⟩
    obtain ⟨hresult, hwithin⟩ := bufferevent_get_addr_inet inet_ntop sin_port sin_addr stack
    refine .inl ⟨⟨_, rfl, hresult⟩, ?_⟩
    rw [length_stored]
    exact hwithin

end Address

/-- After a failed `getpeername` on a clean stack the address is null, and a request stops the
program; of an IPv6 peer, bytes are read that were never stored. -/
theorem peer_address_undefined :
    ((bufferevent_get_addr (fun _ _ => []) none (List.replicate 16 0)).result = .ok none ∧
      filter_check .wrapping quietEngines
        { matchOnly [] 0 with block_addr_list := ascii "127.0.0.3\n" } (ascii "GET /index")
        ⟨[], [], none⟩ = .error .nullPointer) ∧
    (stored (some (.inet6 #v[31, 144] #v[0, 0, 0, 0]
        #v[32, 1, 13, 184, 0, 0, 0, 0, 0, 0, 0, 0, 0, 0, 0, 1] #v[0, 0, 0, 0]))).length = 16 ∧
      23 ∈ (bufferevent_get_addr (fun _ _ => []) (some (.inet6 #v[31, 144] #v[0, 0, 0, 0]
        #v[32, 1, 13, 184, 0, 0, 0, 0, 0, 0, 0, 0, 0, 0, 0, 1] #v[0, 0, 0, 0]))
        (List.replicate 24 0)).accesses := by
  decide +kernel

end OctopusWaf
