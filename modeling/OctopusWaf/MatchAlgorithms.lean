import OctopusWaf.Library.CMachine
import OctopusWaf.Library.CString
import OctopusWaf.Library.StringSearch

/-! The search functions of `match_algorithms.c`. Loops are recursions on the number of
iterations left; subscripts taken from a `char` are checked against the declared dimension. -/
namespace OctopusWaf
open CMachine CString StringSearch

/-- The third-party engines, as functions of the bytes they are handed. -/
structure Engines where
  libinjection_is_sqli : List UInt8 → Bool
  pcre_compile : List UInt8 → Bool
  pcre_exec : List UInt8 → List UInt8 → ℤ

def libinjection_test_sqli (e : Engines) (input : List UInt8) : Bool :=
  e.libinjection_is_sqli (cstr input)

/-- `for (i = 0; i < fix-1; i++) if (pat[i] != pat[state-fix+1+i]) break;` returns `i`. -/
def compareBorder (pat : List UInt8) (state fix : ℕ) : (left i : ℕ) → ℕ
  | 0, i => i
  | left + 1, i =>
    if readAt pat i ≠ readAt pat (state - fix + 1 + i) then i
    else compareBorder pat state fix left (i + 1)

/-- The `while (fix > 0)` loop. -/
def fallBack (pat : List UInt8) (state : ℕ) (x : ℤ) : ℕ → ℕ
  | 0 => 0
  | fix + 1 =>
    if charInt (readAt pat fix) = x ∧ compareBorder pat state (fix + 1) fix 0 = fix then fix + 1
    else fallBack pat state x fix

def NextMachineState (pat : List UInt8) (M state : ℕ) (x : ℤ) : ℕ :=
  if state < M ∧ x = charInt (readAt pat state) then state + 1
  else fallBack pat state x state

/-- The table as `write_tf` fills it, for `state ≤ M` and `x < 256`. -/
def write_tf (pat : List UInt8) (M : ℕ) : ℕ → ℕ → ℕ :=
  fun state x => NextMachineState pat M state x

def dfaLoop (TF : ℕ → ℕ → ℕ) (patsize : ℕ) (txt : List UInt8) :
    (left i state : ℕ) → Except Trap Bool
  | 0, _, _ => .ok false
  | left + 1, i, state => do
    let x ← subscript 256 (charInt (readAt txt i))
    let state := TF state x
    if state = patsize then .ok true
    else dfaLoop TF patsize txt left (i + 1) state

def DFA_Search (pat : List UInt8) (patsize : ℕ) (txt : List UInt8) (txtsize : ℕ) :
    Except Trap Bool :=
  dfaLoop (write_tf pat patsize) patsize txt txtsize 0 0

def max_horspool (a b : ℤ) : ℤ := if a > b then a else b

theorem one_le_max_horspool (b : ℤ) : 1 ≤ max_horspool 1 b := by
  unfold max_horspool
  split_ifs <;> omega

/-- `badCharHtable[(int) match[i]] = i` for the indices from `i` on. -/
def fillTable (pattern : List UInt8) : (left i : ℕ) → (ℕ → ℤ) → Except Trap (ℕ → ℤ)
  | 0, _, badCharHtable => .ok badCharHtable
  | left + 1, i, badCharHtable => do
    let c ← subscript 256 (charInt (readAt pattern i))
    fillTable pattern left (i + 1) (Function.update badCharHtable c i)

/-- Compare right to left below `n`; the result is the mismatching `nInd`, if any. -/
def matchBackwards (txt pattern : List UInt8) (shift : ℕ) : ℕ → Option ℕ
  | 0 => none
  | n + 1 =>
    if readAt pattern n = readAt txt (shift + n) then matchBackwards txt pattern shift n
    else some n

/-- The statements after `return true` in the source are dead and left out. -/
def horspoolLoop (txt : List UInt8) (txtLen : ℕ) (pattern : List UInt8) (matchLen : ℕ)
    (badCharHtable : ℕ → ℤ) (shift : ℕ) : Except Trap Bool :=
  if (shift : ℤ) ≤ (txtLen : ℤ) - matchLen then
    match matchBackwards txt pattern shift matchLen with
    | none => .ok true
    | some nInd => do
      let c ← subscript 256 (charInt (readAt txt (shift + nInd)))
      horspoolLoop txt txtLen pattern matchLen badCharHtable
        (shift + (max_horspool 1 (nInd - badCharHtable c)).toNat)
  else .ok false
termination_by txtLen + 1 - shift
decreasing_by
  have h1 := one_le_max_horspool (nInd - badCharHtable c)
  omega

def horspool_search (txt : List UInt8) (txtLen : ℕ) (pattern : List UInt8) (matchLen : ℕ) :
    Except Trap Bool := do
  let badCharHtable ← fillTable pattern matchLen 0 fun _ => -1
  horspoolLoop txt txtLen pattern matchLen badCharHtable 0

/-- The initial hashes of the pattern and of the first window. The window is read
without a look at `input_len`. -/
def hashLoop (ar : IntArith) (input pattern : List UInt8) :
    (left i : ℕ) → (var1 var2 : BitVec 32) → Except Trap (BitVec 32 × BitVec 32)
  | 0, _, var1, var2 => .ok (var1, var2)
  | left + 1, i, var1, var2 => do
    let var1 ← ar.add (var1 <<< 1) (charWord (readAt pattern i))
    let var2 ← ar.add (var2 <<< 1) (charWord (readAt input i))
    hashLoop ar input pattern left (i + 1) var1 var2

/-- The `while (j <= sub)` loop; the last slide reads `input[input_len]`. -/
def slideLoop (ar : IntArith) (input pattern : List UInt8) (match_len : ℕ)
    (var1 z : BitVec 32) : (left j : ℕ) → (var2 : BitVec 32) → Except Trap Bool
  | 0, _, _ => .ok false
  | left + 1, j, var2 =>
    if var1 = var2 ∧ memcmpEq pattern (input.drop j) match_len then .ok true
    else do
      let w ← ar.mul (charWord (readAt input j)) z
      let v ← ar.sub var2 w
      let var2 ← ar.add (v <<< 1) (charWord (readAt input (j + match_len)))
      slideLoop ar input pattern match_len var1 z left (j + 1) var2

def Rabin_Karp_search (ar : IntArith) (input : List UInt8) (input_len : ℕ)
    (pattern : List UInt8) (match_len : ℕ) : Except Trap Bool := do
  let z := (fun z : BitVec 32 => z <<< 1)^[match_len - 1] 1
  let (var1, var2) ← hashLoop ar input pattern match_len 0 0 0
  let sub : ℤ := (input_len : ℤ) - match_len
  slideLoop ar input pattern match_len var1 z (sub + 1).toNat 0 var2

/-- A regular expression that does not compile ends the process. -/
def pcre_regex_search (e : Engines) (string : List UInt8) (string_len : ℕ)
    (expression : List UInt8) : Except Trap Bool :=
  if e.pcre_compile expression then .ok (e.pcre_exec expression (bytes string string_len) > 0)
  else .error .exit

/-- An occurrence, by the subscripts the searches compare. -/
theorem occursAt_bytes_iff {pattern txt : List UInt8} {m n s : ℕ} (hm : 0 < m) :
    OccursAt (bytes pattern m) (bytes txt n) s ↔
      s + m ≤ n ∧ ∀ k < m, readAt txt (s + k) = readAt pattern k := by
  constructor
  · intro h
    have hle := h.le_length (List.length_pos_iff.mp (by simpa using hm))
    simp only [length_bytes] at hle
    refine ⟨hle, fun k hk => ?_⟩
    have hg := h.getElem? (i := k) (by simpa using hk)
    rw [getElem?_bytes _ hk, getElem?_bytes _ (by omega)] at hg
    exact Option.some.inj hg
  · rintro ⟨hle, h⟩
    apply occursAt_of_getElem?
    intro k hk
    rw [length_bytes] at hk
    rw [getElem?_bytes _ hk, getElem?_bytes _ (by omega), h k hk]

end OctopusWaf
