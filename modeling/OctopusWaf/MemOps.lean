import OctopusWaf.Library.ByteMemory

/-! `mem_ops.c`: array allocations whose size is checked, and the move between ranges that may
overlap. -/
namespace OctopusWaf
open CMachine

/-- `(size_t)1 << (sizeof(size_t)*4)` of a 64-bit build. -/
def MUL_NO_OVERFLOW : UInt64 := (1 : UInt64) <<< (32 : UInt64)

def SIZE_MAX : UInt64 := 0xffffffffffffffff

/-- `a / b`, which has no value if `b` is zero. -/
def quotient (a b : UInt64) : Option UInt64 := if b = 0 then none else some (a / b)

/-- How a checked allocation ends. After a request the program goes on with the block, or is
stopped by a message. -/
inductive Allocation (Ptr : Type) where
  | divisionByZero
  | stopped (message : String)
  | requested (bytes : UInt64) (block : Except String Ptr)

/-- The condition in front of both allocations, its parts evaluated from left to right. -/
def sizeOverflows (nmemb size : UInt64) : Option Bool :=
  if (nmemb ≥ MUL_NO_OVERFLOW ∨ size ≥ MUL_NO_OVERFLOW) ∧ nmemb > 0 then
    (quotient SIZE_MAX nmemb).map fun most => decide (most < size)
  else some false

/-- An allocation of `nmemb * size` bytes by `alloc`, which gives `none` for a null pointer. -/
def allocArray {Ptr : Type} (alloc : UInt64 → Option Ptr) (failure : String)
    (nmemb size : UInt64) : Allocation Ptr :=
  match sizeOverflows nmemb size with
  | none => .divisionByZero
  | some true => .stopped "integer overflow block"
  | some false =>
    .requested (nmemb * size) ((alloc (nmemb * size)).elim (.error failure) .ok)

def xreallocarray {Ptr : Type} (realloc : Ptr → UInt64 → Option Ptr) (ptr : Ptr)
    (nmemb size : UInt64) : Allocation Ptr :=
  allocArray (realloc ptr) "Error in xreallocarray() function" nmemb size

def xmallocarray {Ptr : Type} (malloc : UInt64 → Option Ptr) (nmemb size : UInt64) :
    Allocation Ptr :=
  allocArray malloc "error in xmallocarray() function" nmemb size

/-- The quotient test is exact: `SIZE_MAX / n < s` says that the product is out of range. -/
theorem max_div_lt_iff {n s : ℕ} (hn : 0 < n) : (2 ^ 64 - 1) / n < s ↔ 2 ^ 64 ≤ n * s := by
  rw [Nat.div_lt_iff_lt_mul hn, mul_comm s n]
  omega

theorem sizeOverflows_eq (nmemb size : UInt64) :
    sizeOverflows nmemb size = some (decide (2 ^ 64 ≤ nmemb.toNat * size.toNat)) := by
  have hmin : MUL_NO_OVERFLOW.toNat = 2 ^ 32 := by decide +kernel
  have hmax : SIZE_MAX.toNat = 2 ^ 64 - 1 := by decide +kernel
  have hzero : nmemb > 0 ↔ 0 < nmemb.toNat := UInt64.lt_iff_toNat_lt
  unfold sizeOverflows
  split_ifs with h
  · have hpos : 0 < nmemb.toNat := hzero.mp h.2
    have hne : nmemb ≠ 0 := fun he => by simp [he] at hpos
    simp only [quotient, if_neg hne, Option.map_some, UInt64.lt_iff_toNat_lt, UInt64.toNat_div,
      hmax, max_div_lt_iff hpos]
  · -- a factor is zero, or both are below the root of the range
    have hlt : nmemb.toNat * size.toNat < 2 ^ 64 := by
      rcases Nat.eq_zero_or_pos nmemb.toNat with h0 | hpos
      · rw [h0, Nat.zero_mul]
        exact Nat.two_pow_pos 64
      · have hsmall : nmemb.toNat < 2 ^ 32 ∧ size.toNat < 2 ^ 32 := by
          rw [← hmin, ← UInt64.lt_iff_toNat_lt, ← UInt64.lt_iff_toNat_lt]
          simpa [hzero.mpr hpos] using h
        calc nmemb.toNat * size.toNat < 2 ^ 32 * 2 ^ 32 :=
              Nat.mul_lt_mul'' hsmall.1 hsmall.2
          _ = 2 ^ 64 := by norm_num
    rw [decide_eq_false (by omega)]

theorem allocArray_eq {Ptr : Type} (alloc : UInt64 → Option Ptr) (failure : String)
    (nmemb size : UInt64) :
    allocArray alloc failure nmemb size =
      if 2 ^ 64 ≤ nmemb.toNat * size.toNat then .stopped "integer overflow block"
      else .requested (nmemb * size) ((alloc (nmemb * size)).elim (.error failure) .ok) := by
  unfold allocArray
  rw [sizeOverflows_eq]
  split_ifs with h
  · rw [decide_eq_true h]
  · rw [decide_eq_false h]

/-- `alloc` is asked exactly if the product fits, and then for the exact product, and its answer
decides how the program goes on; otherwise the program is stopped. -/
structure Allocation.SizeExact {Ptr : Type} (allocation : Allocation Ptr)
    (alloc : UInt64 → Option Ptr) (failure : String) (nmemb size : UInt64) : Prop where
  requested_iff : (∃ bytes block, allocation = .requested bytes block) ↔
    nmemb.toNat * size.toNat < 2 ^ 64
  exact : ∀ bytes block, allocation = .requested bytes block →
    bytes.toNat = nmemb.toNat * size.toNat
  answered : ∀ bytes block, allocation = .requested bytes block →
    block = (alloc bytes).elim (.error failure) .ok
  stopped : 2 ^ 64 ≤ nmemb.toNat * size.toNat → ∃ message, allocation = .stopped message
  no_division : allocation ≠ .divisionByZero

theorem allocArray_sizeExact {Ptr : Type} (alloc : UInt64 → Option Ptr) (failure : String)
    (nmemb size : UInt64) :
    (allocArray alloc failure nmemb size).SizeExact alloc failure nmemb size := by
  rw [allocArray_eq]
  split_ifs with h
  · exact ⟨iff_of_false (by simp) (by omega), by simp, by simp, fun _ => ⟨_, rfl⟩, by simp⟩
  · have hexact : (nmemb * size).toNat = nmemb.toNat * size.toNat := by
      rw [UInt64.toNat_mul, Nat.mod_eq_of_lt (by omega)]
    refine ⟨iff_of_true ⟨_, _, rfl⟩ (by omega), ?_, ?_, fun hge => absurd hge h, by simp⟩
    · rintro bytes block heq
      rw [← (Allocation.requested.inj heq).1, hexact]
    · rintro bytes block heq
      obtain ⟨rfl, rfl⟩ := Allocation.requested.inj heq
      rfl

/-- Whatever the allocator does, both array allocations ask it for `nmemb * size` bytes, if that
is a 64-bit number at all, and otherwise stop the program without asking; neither divides by
zero. -/
theorem array_sizes_never_wrap {Ptr : Type} (malloc : UInt64 → Option Ptr)
    (realloc : Ptr → UInt64 → Option Ptr) (ptr : Ptr) (nmemb size : UInt64) :
    (xmallocarray malloc nmemb size).SizeExact malloc "error in xmallocarray() function"
        nmemb size ∧
      (xreallocarray realloc ptr nmemb size).SizeExact (realloc ptr)
        "Error in xreallocarray() function" nmemb size :=
  ⟨allocArray_sizeExact malloc _ nmemb size, allocArray_sizeExact (realloc ptr) _ nmemb size⟩

/-- `while (i < len)`, upwards from `i`. -/
def moveUp (dst src len i : ℕ) (m : Memory) : Option Memory :=
  if i < len then do
    let m' ← copyByte m dst src i
    moveUp dst src len (i + 1) m'
  else some m
termination_by len - i

/-- `while (len--)`, downwards. -/
def moveDown (dst src : ℕ) : (len : ℕ) → Memory → Option Memory
  | 0, m => some m
  | len + 1, m => do
    let m' ← copyByte m dst src len
    moveDown dst src len m'

/-- The address that is returned, and the memory behind it. -/
def burn_memmove (dst src len : ℕ) (m : Memory) : Option (ℕ × Memory) :=
  (if src > dst ∧ src < dst + len then moveUp dst src len 0 m
    else moveDown dst src len m).map fun m' => (dst, m')

section Move

variable {m₀ m : Memory} {dst src len : ℕ} (hdst : Mapped m₀ dst len) (hsrc : Mapped m₀ src len)
include hdst hsrc

/-- Upwards, what is still to be read lies above what was written. -/
theorem moveUp_moved (hover : dst < src) {i : ℕ} (hi : i ≤ len) (h : Moved m₀ m dst src 0 i) :
    ∃ m', moveUp dst src len i m = some m' ∧ Moved m₀ m' dst src 0 len := by
  induction hk : len - i generalizing i m with
  | zero =>
    obtain rfl : i = len := by omega
    rw [moveUp, if_neg (lt_irrefl i)]
    exact ⟨m, rfl, h⟩
  | succ k ih =>
    have hlt : i < len := by omega
    have hstep : ∃ m', copyByte m dst src i = some m' ∧ Moved m₀ m' dst src 0 (i + 1) :=
      h.copyByte (hsrc i hlt) (hdst i hlt) (by omega) (by omega) (by omega)
    obtain ⟨m', hcopy, hmoved⟩ := hstep
    obtain ⟨m'', hrest, hfinal⟩ := ih hlt hmoved (by omega)
    rw [moveUp, if_pos hlt, hcopy]
    exact ⟨m'', hrest, hfinal⟩

/-- Downwards, what is still to be read lies below what was written, or wholly beside it. -/
theorem moveDown_moved (hover : src ≤ dst ∨ dst + len ≤ src) {i : ℕ} (hi : i ≤ len)
    (h : Moved m₀ m dst src i len) :
    ∃ m', moveDown dst src i m = some m' ∧ Moved m₀ m' dst src 0 len := by
  induction i generalizing m with
  | zero => exact ⟨m, rfl, h⟩
  | succ i ih =>
    have hstep : ∃ m', copyByte m dst src i = some m' ∧ Moved m₀ m' dst src i len :=
      h.copyByte (hsrc i hi) (hdst i hi) (by omega) (by omega) (by omega)
    obtain ⟨m', hcopy, hmoved⟩ := hstep
    obtain ⟨m'', hrest, hfinal⟩ := ih (by omega) hmoved
    rw [moveDown, hcopy]
    exact ⟨m'', hrest, hfinal⟩

end Move

/-- Between any two mapped ranges the move is exact: the destination holds what the source held
before, and every other byte is what it was. -/
theorem burn_memmove_exact {m : Memory} {dst src len : ℕ} (hdst : Mapped m dst len)
    (hsrc : Mapped m src len) :
    ∃ m', burn_memmove dst src len m = some (dst, m') ∧
      (∀ i < len, m' (dst + i) = m (src + i)) ∧
      ∀ a, ¬ (dst ≤ a ∧ a < dst + len) → m' a = m a := by
  have hmove : ∃ m', (if src > dst ∧ src < dst + len then moveUp dst src len 0 m
      else moveDown dst src len m) = some m' ∧ Moved m m' dst src 0 len := by
    split_ifs with h
    · exact moveUp_moved hdst hsrc h.1 (Nat.zero_le len) (moved_empty m dst src 0)
    · exact moveDown_moved hdst hsrc (by omega) le_rfl (moved_empty m dst src len)
  obtain ⟨m', hrun, hmoved⟩ := hmove
  refine ⟨m', by rw [burn_memmove, hrun, Option.map_some], fun i hi => ?_, fun a ha => ?_⟩
  · rw [hmoved, if_pos (by omega), Nat.add_sub_cancel_left]
  · rw [hmoved, if_neg (by omega)]

/-- A range that is moved onto its own second byte. -/
theorem burn_memmove_overlap :
    ∃ m', burn_memmove 1 0 3 (fun a => if a < 4 then some (UInt8.ofNat a) else none) =
        some (1, m') ∧
      (∀ i < 3, m' (1 + i) = (fun a => if a < 4 then some (UInt8.ofNat a) else none) (0 + i)) ∧
      ∀ a, ¬ (1 ≤ a ∧ a < 1 + 3) →
        m' a = (fun a => if a < 4 then some (UInt8.ofNat a) else none) a :=
  burn_memmove_exact (by unfold Mapped; decide) (by unfold Mapped; decide)

end OctopusWaf
