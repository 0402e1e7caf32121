import OctopusWaf.DecodeBounds
import OctopusWaf.FilterCheck

/-! What `filter_check` reads of the received copy and of the decoded text. The copy is not
terminated, and the request test looks at its first two bytes before it knows a length. -/
namespace OctopusWaf
open CMachine CString Traced

def is_requestTrace (ptr : List UInt8) : Traced BufferAccess Bool := do
  touch (.decoded 0)
  if readAt ptr 0 = 32 then pure false
  else do
    touch (.decoded 1)
    if readAt ptr 1 = 32 then pure false
    else do
      let n ← strnlenTrace .decoded ptr 12 0
      if n < 10 then pure false
      else if ← memcmpTrace .decoded ptr (ascii "GET") 3 then pure true
      else if ← memcmpTrace .decoded ptr (ascii "POST") 4 then pure true
      else if ← memcmpTrace .decoded ptr (ascii "PUT") 3 then pure true
      else memcmpTrace .decoded ptr (ascii "DELETE") 6

/-- The record of one detector: `snprintf` reads `data` up to its terminator, whatever the
size it may print. -/
def logHitTrace (param : Choice) (hit : Bool) (mode : List UInt8)
    (addr_ip : Option (List UInt8)) (data : List UInt8) (len : ℕ) :
    Traced BufferAccess (List UInt8) := do
  let log ← quiet (logHit param hit mode addr_ip data len)
  if hit = true ∧ param.logfile.isSome = true then do
    let _ ← strnlenTrace .data data (data.length + 1) 0
    pure log
  else pure log

def filter_checkTrace (ar : IntArith) (e : Engines) (param : Choice) (input : List UInt8)
    (seen : Seen) : Traced BufferAccess Inspection := do
  let data := input ++ seen.afterData
  let len := input.length
  let size ← strnlenTrace .data data 6128 0
  let block ← urldecodeTrace data size
  let buf := block.written ++ seen.afterTmpbuf
  let len_tmp ← strnlenTrace .decoded buf 6128 0
  if ← is_requestTrace buf then do
    let (byAddress, block_addr_list) ← quiet (blocklist_ip param.block_addr_list seen.addr_ip)
    let log₁ ← quiet (logHit param byAddress (ascii "Block per address") seen.addr_ip (ascii " ") 1)
    let byMatch ← quiet (algorithmTest ar e param buf len_tmp)
    let log₂ ← logHitTrace param byMatch (ascii "Algorithm match") seen.addr_ip data len
    let (bySqli, left) ← quiet (sqliTest e param buf)
    let log₃ ← logHitTrace param bySqli (ascii "Libinejction SQLi match") seen.addr_ip data len
    let byRegex ← quiet (regexTest ar e param left len_tmp)
    let log₄ ← logHitTrace param byRegex (ascii "Lib PCRE match per regex") seen.addr_ip data len
    pure ⟨byAddress || byMatch || bySqli || byRegex, block_addr_list,
      log₁ ++ log₂ ++ log₃ ++ log₄⟩
  else pure ⟨false, param.block_addr_list, []⟩

/-- A read of the copy below `len`, a read of the decoded text below `size`. -/
def BufferAccess.ReadInside (len size : ℕ) : BufferAccess → Prop
  | .data i => i < len
  | .decoded i => i < size
  | .stored _ => True

theorem is_requestTrace_result (ptr : List UInt8) :
    (is_requestTrace ptr).result = .ok (is_request ptr) := by
  have hlen : (strnlenTrace BufferAccess.decoded ptr 12 0).result = .ok (strnlen ptr 12) := by
    simp [strnlenTrace_result]
  unfold is_requestTrace is_request
  split_ifs with h₀ h₁ hshort
  · rfl
  · simp
  · simp [hlen, hshort]
  · cases hget : memcmpEq ptr (ascii "GET") 3 with
    | true => simp [hlen, hshort, hget]
    | false =>
      cases hpost : memcmpEq ptr (ascii "POST") 4 with
      | true => simp [hlen, hshort, hget, hpost]
      | false =>
        cases hput : memcmpEq ptr (ascii "PUT") 3 with
        | true => simp [hlen, hshort, hget, hpost, hput]
        | false => simp [hlen, hshort, hget, hpost, hput]

/-- The first two bytes are read in any case, the others only up to the terminator. -/
theorem is_requestTrace_within {ptr : List UInt8} {P : BufferAccess → Prop}
    (h₀ : P (.decoded 0)) (h₁ : P (.decoded 1))
    (hlen : ∀ i < 12, i ≤ (cstr ptr).length → P (.decoded i)) : (is_requestTrace ptr).Within P := by
  have hmem (lit : List UInt8) {n : ℕ} (hn : n ≤ 10) (hlong : 10 ≤ strnlen ptr 12) :
      (memcmpTrace BufferAccess.decoded ptr lit n).Within P := by
    intro a ha
    obtain ⟨i, hi, rfl⟩ := (mem_memcmpTrace _).mp ha
    rw [strnlen_eq] at hlong
    exact hlen i (by omega) (by omega)
  have hstrnlen : (strnlenTrace BufferAccess.decoded ptr 12 0).Within P := by
    intro a ha
    obtain ⟨i, hi, hle, rfl⟩ := (mem_strnlenTrace _).mp ha
    rw [Nat.zero_add]
    exact hlen i hi (by simpa using hle)
  have hlong {n : ℕ} (hn : (strnlenTrace BufferAccess.decoded ptr 12 0).result = .ok n)
      (hge : ¬ n < 10) : 10 ≤ strnlen ptr 12 := by
    simp only [strnlenTrace_result, List.drop_zero, Nat.zero_add, Except.ok.injEq] at hn
    omega
  unfold is_requestTrace
  simp only [within_bind, within_ite, within_touch, within_pure, h₀, h₁, hstrnlen, true_and,
    implies_true]
  intro _ _ _ _ _ _ n hn hge
  have hmem' (lit : List UInt8) {k : ℕ} (hk : k ≤ 10) := hmem lit hk (hlong hn hge)
  exact ⟨hmem' _ (by omega), fun _ _ _ => ⟨hmem' _ (by omega), fun _ _ _ => ⟨hmem' _ (by omega),
    fun _ _ _ => hmem' _ (by omega)⟩⟩⟩

theorem logHitTrace_result (param : Choice) (hit : Bool) (mode : List UInt8)
    (addr_ip : Option (List UInt8)) (data : List UInt8) (len : ℕ) :
    (logHitTrace param hit mode addr_ip data len).result =
      logHit param hit mode addr_ip data len := by
  unfold logHitTrace
  simp only [result_bind, result_quiet]
  cases logHit param hit mode addr_ip data len with
  | error t => rfl
  | ok log => split_ifs <;> simp [strnlenTrace_result]

theorem logHitTrace_within {param : Choice} {hit : Bool} {mode data : List UInt8}
    {addr_ip : Option (List UInt8)} {len : ℕ} {P : BufferAccess → Prop}
    (hP : ∀ i ≤ (cstr data).length, P (.data i)) :
    (logHitTrace param hit mode addr_ip data len).Within P := by
  have hread : (strnlenTrace BufferAccess.data data (data.length + 1) 0).Within P := by
    intro a ha
    obtain ⟨i, -, hle, rfl⟩ := (mem_strnlenTrace _).mp ha
    rw [Nat.zero_add]
    exact hP i (by simpa using hle)
  unfold logHitTrace
  simp only [within_bind, within_quiet, within_ite, within_pure, hread, implies_true, and_self]

/-- The recorded call computes what the plain one does. -/
theorem filter_checkTrace_result (ar : IntArith) (e : Engines) (param : Choice)
    (input : List UInt8) (seen : Seen) :
    (filter_checkTrace ar e param input seen).result = filter_check ar e param input seen := by
  unfold filter_checkTrace filter_check
  simp only [result_bind, strnlenTrace_result, urldecodeTrace_result, is_requestTrace_result,
    List.drop_zero, Nat.zero_add, ok_bind]
  have htmp : (urldecode (input ++ seen.afterData) (strnlen (input ++ seen.afterData) 6128)).written
      ++ seen.afterTmpbuf = tmpbuf input seen := rfl
  rw [htmp]
  split_ifs with hreq
  · simp only [result_bind, result_quiet, logHitTrace_result, result_pure]
  · rfl

section Reads

variable {ar : IntArith} {e : Engines} {param : Choice} {input : List UInt8} {seen : Seen}

/-- The decoded text ends no later than what it is decoded from. -/
theorem length_cstr_tmpbuf_le (input : List UInt8) (seen : Seen) :
    (cstr (tmpbuf input seen)).length ≤ (cstr (input ++ seen.afterData)).length := by
  have hbuf : tmpbuf input seen =
      decodeLoop (input ++ seen.afterData) ++ 0 :: seen.afterTmpbuf := by
    simp [tmpbuf, urldecode]
  rw [hbuf]
  exact (length_cstr_append_zero_le _ _).trans (length_decodeLoop_le _)

theorem filter_checkTrace_within {P : BufferAccess → Prop}
    (hdata : ∀ i ≤ (cstr (input ++ seen.afterData)).length, P (.data i))
    (hstored : ∀ i, P (.stored i)) (h₀ : P (.decoded 0)) (h₁ : P (.decoded 1))
    (hdecoded : ∀ i < 6128, i ≤ (cstr (tmpbuf input seen)).length → P (.decoded i)) :
    (filter_checkTrace ar e param input seen).Within P := by
  have hcopy : (strnlenTrace BufferAccess.data (input ++ seen.afterData) 6128 0).Within P := by
    intro a ha
    obtain ⟨i, -, hle, rfl⟩ := (mem_strnlenTrace _).mp ha
    rw [Nat.zero_add]
    exact hdata i (by simpa using hle)
  have hdecode (size : ℕ) : (urldecodeTrace (input ++ seen.afterData) size).Within P := by
    intro a ha
    replace ha : a ∈ (decodeTrace (input ++ seen.afterData) 0 0).accesses := by
      simpa [urldecodeTrace, mem_bind] using ha
    cases a with
    | data i => exact hdata i ((data_mem_decodeTrace (Nat.zero_le _)).2 i ha)
    | stored i => exact hstored i
    | decoded i => exact absurd ha decoded_not_mem_decodeTrace
  have hlen : (strnlenTrace BufferAccess.decoded (tmpbuf input seen) 6128 0).Within P := by
    intro a ha
    obtain ⟨i, hi, hle, rfl⟩ := (mem_strnlenTrace _).mp ha
    rw [Nat.zero_add]
    exact hdecoded i hi (by simpa using hle)
  have htest : (is_requestTrace (tmpbuf input seen)).Within P :=
    is_requestTrace_within h₀ h₁ fun i hi => hdecoded i (by omega)
  have hlog {hit : Bool} {mode : List UInt8} {len : ℕ} :
      (logHitTrace param hit mode seen.addr_ip (input ++ seen.afterData) len).Within P :=
    logHitTrace_within hdata
  unfold filter_checkTrace
  simp only [within_bind, within_ite, within_quiet, within_pure, hcopy, hdecode, hlog,
    strnlenTrace_result, urldecodeTrace_result, is_requestTrace_result, List.drop_zero,
    Nat.zero_add, Except.ok.injEq, forall_eq', true_and]
  refine ⟨hlen, htest, ?_⟩
  simp

/-- What is read in every call: the copy up to its terminator, and two decoded bytes. -/
theorem data_end_mem_filter_checkTrace :
    .data (cstr (input ++ seen.afterData)).length ∈
      (filter_checkTrace ar e param input seen).accesses := by
  have hread : .data (cstr (input ++ seen.afterData)).length ∈
      (decodeTrace (input ++ seen.afterData) 0 0).accesses :=
    (data_mem_decodeTrace (Nat.zero_le _)).1
  have hdecode : .data (cstr (input ++ seen.afterData)).length ∈
      (urldecodeTrace (input ++ seen.afterData)
        (strnlen (input ++ seen.afterData) 6128)).accesses := by
    simpa [urldecodeTrace, mem_bind] using hread
  unfold filter_checkTrace
  simp only [mem_bind, strnlenTrace_result, List.drop_zero, Nat.zero_add]
  exact .inr ⟨_, rfl, .inl hdecode⟩

theorem decoded_one_mem_filter_checkTrace (h : readAt (tmpbuf input seen) 0 ≠ 32) :
    .decoded 1 ∈ (filter_checkTrace ar e param input seen).accesses := by
  have htest : .decoded 1 ∈ (is_requestTrace (tmpbuf input seen)).accesses := by
    unfold is_requestTrace
    rw [mem_bind, if_neg h]
    exact .inr ⟨(), rfl, mem_bind.mpr (.inl (mem_touch.mpr rfl))⟩
  unfold filter_checkTrace
  simp only [mem_bind, strnlenTrace_result, urldecodeTrace_result, List.drop_zero, Nat.zero_add]
  exact .inr ⟨_, rfl, .inr ⟨_, rfl, .inr ⟨_, rfl, .inl htest⟩⟩⟩

/-- Received bytes with a terminator among them end the copy. -/
theorem length_cstr_lt_of_mem {input past : List UInt8} (h : 0 ∈ input) :
    (cstr (input ++ past)).length < input.length := by
  induction input with
  | nil => simp at h
  | cons c input ih =>
    by_cases hc : c = 0
    · simp [hc]
    · have hin : 0 ∈ input := (List.mem_cons.mp h).resolve_left (Ne.symm hc)
      rw [List.cons_append, cstr_cons hc]
      simpa using ih hin

/-- A call, with its result, reads inside the received bytes and inside the decoded buffer
exactly if the bytes hold a terminator and do not begin with it. -/
theorem inspection_reads_inside_iff (ar : IntArith) (e : Engines) (param : Choice)
    (input : List UInt8) (seen : Seen) :
    (filter_checkTrace ar e param input seen).result = filter_check ar e param input seen ∧
      ((filter_checkTrace ar e param input seen).Within
          (BufferAccess.ReadInside input.length (urldecode (input ++ seen.afterData)
            (strnlen (input ++ seen.afterData) 6128)).size) ↔
        0 ∈ input ∧ input.head? ≠ some 0) := by
  refine ⟨filter_checkTrace_result ar e param input seen, ?_⟩
  constructor
  · intro h
    constructor
    · by_contra hin
      have hend : (cstr (input ++ seen.afterData)).length < input.length :=
        h _ data_end_mem_filter_checkTrace
      have hnz : ∀ c ∈ input, c ≠ 0 := fun c hc hc0 => hin (hc0 ▸ hc)
      rw [cstr_append hnz, List.length_append] at hend
      omega
    · intro hhead
      obtain ⟨rest, rfl⟩ := List.head?_eq_some_iff.mp hhead
      have hone : 1 < (urldecode (0 :: rest ++ seen.afterData)
          (strnlen (0 :: rest ++ seen.afterData) 6128)).size :=
        h _ (decoded_one_mem_filter_checkTrace (by simp [tmpbuf, urldecode, decodeLoop, readAt]))
      simp [urldecode, strnlen_eq] at hone
  · rintro ⟨hin, hhead⟩
    have hend : (cstr (input ++ seen.afterData)).length < input.length :=
      length_cstr_lt_of_mem hin
    have hpos : 1 ≤ (cstr (input ++ seen.afterData)).length := by
      cases input with
      | nil => simp at hin
      | cons c rest =>
        have hc : c ≠ 0 := fun hc => hhead (by rw [hc]; rfl)
        rw [List.cons_append, cstr_cons hc]
        simp
    have hle := length_cstr_tmpbuf_le input seen
    have hsize : (urldecode (input ++ seen.afterData)
        (strnlen (input ++ seen.afterData) 6128)).size =
          min 6128 (cstr (input ++ seen.afterData)).length + 1 := by
      rw [← strnlen_eq]
      rfl
    rw [hsize]
    apply filter_checkTrace_within
    · intro i hi
      exact lt_of_le_of_lt hi hend
    · exact fun i => trivial
    · exact Nat.succ_pos _
    · change 1 < _
      omega
    · intro i hi hle'
      change i < _
      omega

/-- An ordinary request, without a zero byte, is read past its end. -/
theorem request_read_past_end :
    .data 15 ∈ (filter_checkTrace .wrapping quietEngines (matchOnly (ascii "<script>\n") 3)
        (ascii "GET /index.html") (seenAt (ascii "10.0.0.9"))).accesses ∧
      (ascii "GET /index.html").length = 15 := by
  decide +kernel

end Reads

end OctopusWaf
