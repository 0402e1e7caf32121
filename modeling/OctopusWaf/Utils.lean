import OctopusWaf.Library.CString

/-! `from_hex` and `urldecode` of `utils.c`, beside the percent-decoding they stand for. -/
namespace OctopusWaf
open CString

def isdigit (ch : UInt8) : Bool := 48 ≤ ch ∧ ch ≤ 57

def tolower (ch : UInt8) : UInt8 := if 65 ≤ ch ∧ ch ≤ 90 then ch + 32 else ch

/-- Every character gets a value; only the low eight bits of it are ever used. -/
def from_hex (ch : UInt8) : UInt8 := if isdigit ch then ch - 48 else tolower ch - 97 + 10

/-- A heap block: its size in bytes and what was written from its start on. Nothing in
the source keeps the writes below `size`. -/
structure Block where
  size : ℕ
  written : List UInt8

/-- The bytes written by the loop, which runs to the terminator of the input. A `%` with
fewer than two characters after it is dropped. -/
def decodeLoop : List UInt8 → List UInt8
  | [] => []
  | 37 :: a :: b :: rest =>
    if a ≠ 0 ∧ b ≠ 0 then ((from_hex a <<< 4) ||| from_hex b) :: decodeLoop rest
    else decodeLoop (a :: b :: rest)
  | c :: rest =>
    if c = 0 then []
    else if c = 37 then decodeLoop rest
    else if c = 43 then 32 :: decodeLoop rest
    else c :: decodeLoop rest

def urldecode (str : List UInt8) (size : ℕ) : Block where
  size := size + 1
  written := decodeLoop str ++ [0]

def isxdigit (ch : UInt8) : Bool := isdigit ch ∨ (97 ≤ tolower ch ∧ tolower ch ≤ 102)

/-- Percent-decoding of a byte string as a whole: `%HH` is the byte, `+` a space, and
everything else, zero bytes and other `%` included, stands for itself. -/
def percentDecode : List UInt8 → List UInt8
  | [] => []
  | 37 :: a :: b :: rest =>
    if isxdigit a ∧ isxdigit b then ((from_hex a <<< 4) ||| from_hex b) :: percentDecode rest
    else 37 :: percentDecode (a :: b :: rest)
  | c :: rest => (if c = 43 then 32 else c) :: percentDecode rest

/-- No zero byte, and every `%` begins a complete escape. -/
def escapesComplete : List UInt8 → Bool
  | [] => true
  | 37 :: a :: b :: rest => isxdigit a && isxdigit b && escapesComplete rest
  | c :: rest => c ≠ 0 && c ≠ 37 && escapesComplete rest

theorem isxdigit_ne_zero {ch : UInt8} (h : isxdigit ch = true) : ch ≠ 0 := by
  rintro rfl
  revert h
  decide

theorem decodeLoop_cons {c : UInt8} (hc : c ≠ 37) (s : List UInt8) :
    decodeLoop (c :: s) =
      if c = 0 then [] else if c = 43 then 32 :: decodeLoop s else c :: decodeLoop s := by
  rw [decodeLoop.eq_3 _ _ fun _ _ _ h _ => hc h, if_neg hc]

theorem percentDecode_cons {c : UInt8} (hc : c ≠ 37) (s : List UInt8) :
    percentDecode (c :: s) = (if c = 43 then 32 else c) :: percentDecode s :=
  percentDecode.eq_3 _ _ fun _ _ _ h _ => hc h

/-- Text with complete escapes is decoded as a whole, whatever stands behind it. -/
theorem decodeLoop_append {s : List UInt8} (h : escapesComplete s = true) (rest : List UInt8) :
    decodeLoop (s ++ rest) = percentDecode s ++ decodeLoop rest := by
  induction s using escapesComplete.induct with
  | case1 => rfl
  | case2 a b s ih =>
    simp only [escapesComplete, Bool.and_eq_true] at h
    have ha := isxdigit_ne_zero h.1.1
    have hb := isxdigit_ne_zero h.1.2
    simp [decodeLoop, percentDecode, ha, hb, h.1, ih h.2]
  | case3 c s hc ih =>
    have hplain : (c ≠ 0 ∧ c ≠ 37) ∧ escapesComplete s = true := by
      simpa [escapesComplete, hc] using h
    rw [List.cons_append, decodeLoop_cons hplain.1.2, if_neg hplain.1.1,
      percentDecode_cons hplain.1.2, ih hplain.2]
    split_ifs <;> rfl

example : decodeLoop (ascii "a%2Bb+c%4") = ascii "a+b c4" := by decide +kernel
example : decodeLoop (ascii "x%00y") = ascii "x" ++ 0 :: ascii "y" := by decide +kernel

end OctopusWaf
