import Mathlib.Data.BitVec
import Mathlib.Tactic

/-! The ways a C program loses its meaning or is stopped, plain `char` as a signed
type, table subscripts, and 32-bit `int` arithmetic under a chosen overflow rule. -/
namespace CMachine

/-- Why an execution has no further state. The first two are undefined behaviour,
`overflow` is the abort of code built with `-ftrapv`, and `exit` a call of `exit`. -/
inductive Trap where
  | subscript
  | nullPointer
  | overflow
  | exit
  deriving DecidableEq, Repr

@[simp] theorem ok_bind {ε α β : Type} (a : α) (f : α → Except ε β) :
    (Except.ok a >>= f) = f a := rfl

/-- A completed sequence completes in both parts. -/
theorem bind_ok {ε α β : Type} {x : Except ε α} {f : α → Except ε β} {b : β}
    (h : x >>= f = .ok b) : ∃ a, x = .ok a ∧ f a = .ok b := by
  cases x with
  | error e => contradiction
  | ok a => exact ⟨a, rfl, h⟩

/-- A sequence fails in its first part or in its second. -/
theorem bind_error {ε α β : Type} {x : Except ε α} {f : α → Except ε β} {t : ε}
    (h : x >>= f = .error t) : x = .error t ∨ ∃ a, x = .ok a ∧ f a = .error t := by
  cases x with
  | error e => exact .inl (congrArg Except.error (Except.error.inj h))
  | ok a => exact .inr ⟨a, rfl, h⟩

theorem map_ok {ε α β : Type} {x : Except ε α} {f : α → β} {b : β} (h : f <$> x = .ok b) :
    ∃ a, x = .ok a ∧ f a = b := by
  cases x with
  | error e => contradiction
  | ok a => exact ⟨a, rfl, Except.ok.inj h⟩

/-- A search that stops at the first hit, when every completed test is exact. -/
theorem anyM_ok {ε α : Type} {test : α → Except ε Bool} {p : α → Prop} {l : List α} {v : Bool}
    (hexact : ∀ x ∈ l, ∀ {b}, test x = .ok b → (b = true ↔ p x))
    (h : l.anyM test = .ok v) : v = true ↔ ∃ x ∈ l, p x := by
  induction l with
  | nil =>
    obtain rfl := Except.ok.inj h
    simp
  | cons x l ih =>
    rw [List.anyM_cons] at h
    obtain ⟨b, hb, h⟩ := bind_ok h
    have hx := hexact x (by simp) hb
    cases b with
    | true =>
      obtain rfl := Except.ok.inj h
      exact iff_of_true rfl ⟨x, by simp, hx.mp rfl⟩
    | false =>
      have hl := ih (fun y hy => hexact y (by simp [hy])) h
      rw [hl]
      simp only [List.mem_cons, exists_eq_or_imp, ← hx, Bool.false_eq_true, false_or]

/-- A search fails as one of its tests does. -/
theorem anyM_error {ε α : Type} {test : α → Except ε Bool} {l : List α} {t : ε}
    (h : l.anyM test = .error t) : ∃ x ∈ l, test x = .error t := by
  induction l with
  | nil => contradiction
  | cons x l ih =>
    rw [List.anyM_cons] at h
    cases hx : test x with
    | error t' =>
      rw [hx] at h
      obtain rfl := Except.error.inj h
      exact ⟨x, by simp, hx⟩
    | ok b =>
      rw [hx] at h
      cases b with
      | true => contradiction
      | false =>
        obtain ⟨y, hy, ht⟩ := ih h
        exact ⟨y, by simp [hy], ht⟩

/-- What holds from iteration `i` on holds there and from the next one on. -/
theorem forall_from_iff {p : ℕ → Prop} (i : ℕ) :
    (∀ k, i ≤ k → p k) ↔ p i ∧ ∀ k, i + 1 ≤ k → p k := by
  constructor
  · exact fun h => ⟨h i le_rfl, fun k hk => h k (by omega)⟩
  · rintro ⟨hi, h⟩ k hk
    rcases hk.eq_or_lt with rfl | hlt
    · exact hi
    · exact h k hlt

/-- The value of a plain (signed) `char` converted to `int`. -/
def charInt (c : UInt8) : ℤ :=
  if c.toNat < 128 then c.toNat else (c.toNat : ℤ) - 256

theorem charInt_injective : Function.Injective charInt := by
  intro a b h
  have ha := a.toNat_lt
  have hb := b.toNat_lt
  apply UInt8.toNat_inj.mp
  unfold charInt at h
  split_ifs at h <;> omega

@[simp] theorem charInt_inj {a b : UInt8} : charInt a = charInt b ↔ a = b :=
  charInt_injective.eq_iff

/-- A table with `n` entries subscripted by an `int`. -/
def subscript (n : ℕ) (i : ℤ) : Except Trap ℕ :=
  if 0 ≤ i ∧ i < n then .ok i.toNat else .error .subscript

theorem subscript_ok {n k : ℕ} {i : ℤ} (h : subscript n i = .ok k) : (k : ℤ) = i := by
  unfold subscript at h
  split_ifs at h with hi
  have hk := Except.ok.inj h
  omega

theorem subscript_error {n : ℕ} {i : ℤ} {t : Trap} (h : subscript n i = .error t) :
    t = .subscript := by
  unfold subscript at h
  split_ifs at h
  exact (Except.error.inj h).symm

/-- A plain `char` may subscript a table of 256 entries if its top bit is clear. -/
theorem subscript_ascii {c : UInt8} (hc : c.toNat < 128) :
    subscript 256 (charInt c) = .ok c.toNat := by
  simp only [subscript, charInt, if_pos hc]
  rw [if_pos (by omega), Int.toNat_natCast]

theorem subscript_negative {c : UInt8} (hc : ¬ c.toNat < 128) :
    subscript 256 (charInt c) = .error .subscript := by
  have hlt := c.toNat_lt
  simp only [subscript, charInt, if_neg hc]
  exact if_neg (by omega)

/-- How a build evaluates `+`, `-` and `*` of `int`. Whatever it does on overflow, a
result that it does return is the one modulo `2^32`; shifts are never checked. -/
structure IntArith where
  add : BitVec 32 → BitVec 32 → Except Trap (BitVec 32)
  sub : BitVec 32 → BitVec 32 → Except Trap (BitVec 32)
  mul : BitVec 32 → BitVec 32 → Except Trap (BitVec 32)
  add_ok : ∀ {x y z}, add x y = .ok z → z = x + y
  sub_ok : ∀ {x y z}, sub x y = .ok z → z = x - y
  mul_ok : ∀ {x y z}, mul x y = .ok z → z = x * y

/-- Two's complement wrap-around. -/
def IntArith.wrapping : IntArith where
  add x y := .ok (x + y)
  sub x y := .ok (x - y)
  mul x y := .ok (x * y)
  add_ok h := (Except.ok.inj h).symm
  sub_ok h := (Except.ok.inj h).symm
  mul_ok h := (Except.ok.inj h).symm

/-- Stop the program unless the exact result is in range. -/
def trapIf (overflows : Bool) (result : BitVec 32) : Except Trap (BitVec 32) :=
  if overflows then .error .overflow else .ok result

theorem trapIf_ok {overflows : Bool} {result z : BitVec 32}
    (h : trapIf overflows result = .ok z) : z = result := by
  unfold trapIf at h
  split_ifs at h
  exact (Except.ok.inj h).symm

/-- Signed overflow aborts, as with the compiler option `-ftrapv`. -/
def IntArith.ftrapv : IntArith where
  add x y := trapIf (x.saddOverflow y) (x + y)
  sub x y := trapIf (x.ssubOverflow y) (x - y)
  mul x y := trapIf (x.smulOverflow y) (x * y)
  add_ok := trapIf_ok
  sub_ok := trapIf_ok
  mul_ok := trapIf_ok

/-- A `char` operand after the usual promotion to `int`. -/
def charWord (c : UInt8) : BitVec 32 := BitVec.ofInt 32 (charInt c)

/-- The range of `int`. -/
def FitsInt (x : ℤ) : Prop := -2 ^ 31 ≤ x ∧ x < 2 ^ 31

instance (x : ℤ) : Decidable (FitsInt x) := by
  unfold FitsInt
  infer_instance

/-- The `int` that an exact value wraps around to. -/
def wrapInt (x : ℤ) : ℤ := x.bmod (2 ^ 32)

theorem wrapInt_eq {x : ℤ} (h : FitsInt x) : wrapInt x = x :=
  Int.bmod_eq_of_le (by have := h.1; omega) (by have := h.2; omega)

@[simp] theorem toInt_ofInt (x : ℤ) : (BitVec.ofInt 32 x).toInt = wrapInt x :=
  BitVec.toInt_ofInt x

theorem charInt_bounds (c : UInt8) : -128 ≤ charInt c ∧ charInt c ≤ 127 := by
  have hc := c.toNat_lt
  unfold charInt
  split_ifs <;> omega

theorem fitsInt_charInt (c : UInt8) : FitsInt (charInt c) := by
  have hc := charInt_bounds c
  unfold FitsInt
  omega

@[simp] theorem toInt_charWord (c : UInt8) : (charWord c).toInt = charInt c := by
  rw [charWord, toInt_ofInt, wrapInt_eq (fitsInt_charInt c)]

theorem ftrapv_add (x y : BitVec 32) : IntArith.ftrapv.add x y =
    if FitsInt (x.toInt + y.toInt) then .ok (x + y) else .error .overflow := by
  have h : x.saddOverflow y = true ↔ ¬ FitsInt (x.toInt + y.toInt) := by
    simp [BitVec.saddOverflow, FitsInt]
    omega
  simp only [IntArith.ftrapv, trapIf, h, ite_not]

theorem ftrapv_sub (x y : BitVec 32) : IntArith.ftrapv.sub x y =
    if FitsInt (x.toInt - y.toInt) then .ok (x - y) else .error .overflow := by
  have h : x.ssubOverflow y = true ↔ ¬ FitsInt (x.toInt - y.toInt) := by
    simp [BitVec.ssubOverflow, FitsInt]
    omega
  simp only [IntArith.ftrapv, trapIf, h, ite_not]

theorem ftrapv_mul (x y : BitVec 32) : IntArith.ftrapv.mul x y =
    if FitsInt (x.toInt * y.toInt) then .ok (x * y) else .error .overflow := by
  have h : x.smulOverflow y = true ↔ ¬ FitsInt (x.toInt * y.toInt) := by
    simp [BitVec.smulOverflow, FitsInt]
    omega
  simp only [IntArith.ftrapv, trapIf, h, ite_not]

end CMachine
