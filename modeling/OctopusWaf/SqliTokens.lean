import OctopusWaf.Library.CString
import OctopusWaf.Library.Outcome
import Mathlib.Logic.Function.Basic

/-! The tokens of libinjection, its state, and the helpers of its parsers. A pointer and a
length into the input are given as the bytes they delimit. -/
namespace OctopusWaf.Libinjection
open CMachine CString

/-- What would stop the analysis of an input: an access outside the object it is made in,
a failed `assert`, and a loop that does not end. -/
inductive Fault where
  | outside
  | assertion
  | diverges
  deriving DecidableEq, Repr

/-- A character constant. -/
abbrev chr (c : Char) : UInt8 := UInt8.ofNat c.toNat

abbrev CHAR_NULL : UInt8 := 0
abbrev CHAR_SINGLE : UInt8 := 39
abbrev CHAR_DOUBLE : UInt8 := 34
abbrev CHAR_TICK : UInt8 := 96

abbrev TYPE_NONE : UInt8 := 0
abbrev TYPE_KEYWORD : UInt8 := chr 'k'
abbrev TYPE_UNION : UInt8 := chr 'U'
abbrev TYPE_GROUP : UInt8 := chr 'B'
abbrev TYPE_EXPRESSION : UInt8 := chr 'E'
abbrev TYPE_SQLTYPE : UInt8 := chr 't'
abbrev TYPE_FUNCTION : UInt8 := chr 'f'
abbrev TYPE_BAREWORD : UInt8 := chr 'n'
abbrev TYPE_NUMBER : UInt8 := chr '1'
abbrev TYPE_VARIABLE : UInt8 := chr 'v'
abbrev TYPE_STRING : UInt8 := chr 's'
abbrev TYPE_OPERATOR : UInt8 := chr 'o'
abbrev TYPE_LOGIC_OPERATOR : UInt8 := chr '&'
abbrev TYPE_COMMENT : UInt8 := chr 'c'
abbrev TYPE_COLLATE : UInt8 := chr 'A'
abbrev TYPE_LEFTPARENS : UInt8 := chr '('
abbrev TYPE_RIGHTPARENS : UInt8 := chr ')'
abbrev TYPE_LEFTBRACE : UInt8 := 123
abbrev TYPE_RIGHTBRACE : UInt8 := 125
abbrev TYPE_DOT : UInt8 := chr '.'
abbrev TYPE_COMMA : UInt8 := chr ','
abbrev TYPE_COLON : UInt8 := chr ':'
abbrev TYPE_SEMICOLON : UInt8 := chr ';'
abbrev TYPE_TSQL : UInt8 := chr 'T'
abbrev TYPE_UNKNOWN : UInt8 := chr '?'
abbrev TYPE_EVIL : UInt8 := chr 'X'
abbrev TYPE_FINGERPRINT : UInt8 := chr 'F'
abbrev TYPE_BACKSLASH : UInt8 := 92

abbrev LIBINJECTION_SQLI_TOKEN_SIZE : ℕ := 32
abbrev LIBINJECTION_SQLI_MAX_TOKENS : ℕ := 5

abbrev FLAG_QUOTE_NONE : ℕ := 1
abbrev FLAG_QUOTE_SINGLE : ℕ := 2
abbrev FLAG_QUOTE_DOUBLE : ℕ := 4
abbrev FLAG_SQL_ANSI : ℕ := 8
abbrev FLAG_SQL_MYSQL : ℕ := 16

/-- `flags & flag` as a condition. -/
abbrev hasFlag (flags flag : ℕ) : Prop := flags &&& flag ≠ 0

/-- A token; `val` holds the cells of the array. -/
structure stoken_t where
  pos : ℕ
  len : ℕ
  count : ℕ
  type : UInt8
  str_open : UInt8
  str_close : UInt8
  val : List UInt8
  deriving DecidableEq, Repr

/-- `memset` with zero. -/
def st_clear : stoken_t := ⟨0, 0, 0, 0, 0, 0, List.replicate LIBINJECTION_SQLI_TOKEN_SIZE 0⟩

/-- The length argument is not used by the source. -/
def st_assign_char (st : stoken_t) (stype : UInt8) (pos : ℕ) (value : UInt8) : stoken_t :=
  { st with type := stype, pos := pos, len := 1, val := value :: CHAR_NULL :: st.val.drop 2 }

/-- `memcpy` reads `last` bytes at `value`. -/
def st_assign (st : stoken_t) (stype : UInt8) (pos len : ℕ) (value : List UInt8) :
    Except Fault stoken_t :=
  let MSIZE := LIBINJECTION_SQLI_TOKEN_SIZE
  let last := if len < MSIZE then len else MSIZE - 1
  if last ≤ value.length then
    .ok { st with
      type := stype, pos := pos, len := last,
      val := value.take last ++ CHAR_NULL :: st.val.drop (last + 1) }
  else .error .outside

/-- The array of a token as `st_clear` leaves it. -/
def stoken_t.Cleared (t : stoken_t) : Prop := t.val = st_clear.val

/-- At most 31 bytes are copied. -/
theorem st_assign_cleared {st : stoken_t} (hst : st.Cleared) (stype : UInt8) {pos len : ℕ}
    {value : List UInt8} (hlen : len ≤ value.length) :
    st_assign st stype pos len value = .ok { st with
      type := stype, pos := pos, len := min len 31,
      val := value.take (min len 31) ++ List.replicate (32 - min len 31) 0 } := by
  have hlast : (if len < 32 then len else 32 - 1) = min len 31 := by split_ifs <;> omega
  have hzeros : (0 : UInt8) :: (List.replicate 32 0).drop (min len 31 + 1) =
      List.replicate (32 - min len 31) 0 := by
    rw [List.drop_replicate, ← List.replicate_succ]
    congr 1
    omega
  unfold st_assign
  simp only [hlast]
  rw [if_pos (by omega), hst, ← hzeros]
  rfl

/-- `s[i]`, where the input ends. -/
def readInput (s : List UInt8) (i : ℕ) : Except Fault UInt8 :=
  if h : i < s.length then .ok s[i] else .error .outside

/-- The bytes from `s + i` up to the end of the input. -/
def tailInput (s : List UInt8) (i : ℕ) : Except Fault (List UInt8) :=
  if i ≤ s.length then .ok (s.drop i) else .error .outside

/-- The `n` bytes from `s + i` on. -/
def blockInput (s : List UInt8) (i n : ℕ) : Except Fault (List UInt8) :=
  if i + n ≤ s.length then .ok ((s.drop i).take n) else .error .outside

/-- A difference of two `size_t`, which must not wrap around. -/
def sizeSub (a b : ℕ) : Except Fault ℕ := if b ≤ a then .ok (a - b) else .error .outside

@[simp] theorem readInput_ok {s : List UInt8} {i : ℕ} (h : i < s.length) :
    readInput s i = .ok (readAt s i) := by
  rw [readInput, dif_pos h, readAt, List.getD_eq_getElem?_getD, List.getElem?_eq_getElem h,
    Option.getD_some]

@[simp] theorem tailInput_ok {s : List UInt8} {i : ℕ} (h : i ≤ s.length) :
    tailInput s i = .ok (s.drop i) := if_pos h

@[simp] theorem blockInput_ok {s : List UInt8} {i n : ℕ} (h : i + n ≤ s.length) :
    blockInput s i n = .ok ((s.drop i).take n) := if_pos h

@[simp] theorem sizeSub_ok {a b : ℕ} (h : b ≤ a) : sizeSub a b = .ok (a - b) := if_pos h

/-- `memchr`, as an offset. -/
def memchr (w : List UInt8) (c : UInt8) : Option ℕ := w.findIdx? (· = c)

/-- What `memchr` finds is in the bytes it is given. -/
theorem memchr_lt {w : List UInt8} {c : UInt8} {n : ℕ} (h : memchr w c = some n) :
    n < w.length ∧ readAt w n = c := by
  obtain ⟨hn, hc, -⟩ := List.findIdx?_eq_some_iff_getElem.mp h
  refine ⟨hn, ?_⟩
  rw [readAt, List.getD_eq_getElem?_getD, List.getElem?_eq_getElem hn, Option.getD_some]
  simpa using hc

/-- `strchr(accept, c) != NULL`: the terminator is found as well. -/
def strchr (accept : List UInt8) (c : UInt8) : Bool := c ∈ cstr accept ∨ c = 0

def memchr2 (haystack : List UInt8) (c0 c1 : UInt8) : Option ℕ :=
  (List.range (haystack.length - 1)).find? fun cur =>
    readAt haystack cur = c0 ∧ readAt haystack (cur + 1) = c1

/-- The first place of the two bytes. -/
theorem memchr2_lt {w : List UInt8} {c0 c1 : UInt8} {n : ℕ} (h : memchr2 w c0 c1 = some n) :
    n + 1 < w.length ∧ readAt w n = c0 ∧ readAt w (n + 1) = c1 := by
  obtain ⟨htest, hn, -⟩ := List.find?_range_eq_some.mp h
  have hn := List.mem_range.mp hn
  have htest : readAt w n = c0 ∧ readAt w (n + 1) = c1 := by simpa using htest
  exact ⟨by omega, htest⟩

def my_memmem (haystack needle : List UInt8) : Except Fault (Option ℕ) :=
  if 1 < needle.length then
    .ok ((List.range (haystack.length + 1 - needle.length)).find? fun cur =>
      readAt haystack cur = readAt needle 0 && memcmpEq (haystack.drop cur) needle needle.length)
  else .error .assertion

/-- The first place of the needle. -/
theorem my_memmem_spec {haystack needle : List UInt8} (h : 1 < needle.length) :
    Returns (my_memmem haystack needle) fun r => ∀ n, r = some n →
      n + needle.length ≤ haystack.length ∧
        ∀ i < needle.length, readAt haystack (n + i) = readAt needle i := by
  rw [my_memmem, if_pos h, returns_ok]
  intro n hn
  obtain ⟨htest, hmem, -⟩ := List.find?_range_eq_some.mp hn
  have hlt := List.mem_range.mp hmem
  rw [Bool.and_eq_true] at htest
  refine ⟨by omega, fun i hi => ?_⟩
  rw [← readAt_drop]
  exact memcmpEq_iff.mp htest.2 i hi

def strlenspn (s accept : List UInt8) : ℕ := (s.takeWhile fun c => strchr accept c).length

def strlencspn (s reject : List UInt8) : ℕ := (s.takeWhile fun c => !strchr reject c).length

/-- Blanks, the zero byte and the Latin-1 non-breaking space. -/
def char_is_white (ch : UInt8) : Bool := strchr ([32, 9, 10, 11, 12, 13, 160]) ch

def ISDIGIT (a : UInt8) : Bool := 48 ≤ a ∧ a ≤ 57

/-- `ch -= 0x20` for the lower case letters. -/
def upcase (cb : UInt8) : UInt8 := if 97 ≤ cb ∧ cb ≤ 122 then cb - 32 else cb

/-- The comparison of an upper case string `a` with `b`, of which all bytes are looked at. -/
def cstrcasecmp : (a b : List UInt8) → ℤ
  | a, [] => if readAt a 0 = 0 then 0 else 1
  | a, cb :: b =>
    if readAt a 0 ≠ upcase cb then charInt (readAt a 0) - charInt (upcase cb)
    else if readAt a 0 = 0 then -1
    else cstrcasecmp a.tail b

/-- `strcmp(a, b) == 0`. -/
def streq (a b : List UInt8) : Bool := cstr a = cstr b

/-- The text of a token, as `val` and a length are passed on. -/
def stoken_t.text (st : stoken_t) (n : ℕ) : List UInt8 := bytes st.val n

def st_is_arithmetic_op (st : stoken_t) : Bool :=
  let ch := readAt st.val 0
  st.type = TYPE_OPERATOR ∧ st.len = 1 ∧
    (ch = chr '*' ∨ ch = chr '/' ∨ ch = chr '-' ∨ ch = chr '+' ∨ ch = chr '%')

def st_is_unary_op (st : stoken_t) : Bool :=
  let str := readAt st.val
  if st.type ≠ TYPE_OPERATOR then false
  else if st.len = 1 then
    str 0 = chr '+' ∨ str 0 = chr '-' ∨ str 0 = chr '!' ∨ str 0 = chr '~'
  else if st.len = 2 then str 0 = chr '!' ∧ str 1 = chr '!'
  else if st.len = 3 then cstrcasecmp (ascii "NOT") (st.text 3) = 0
  else false

/-- The state of the analysis. `current` points into `tokenvec`. -/
structure sfilter where
  s : List UInt8
  flags : ℕ
  pos : ℕ
  tokenvec : Fin 8 → stoken_t
  current : Fin 8
  fingerprint : List UInt8
  stats_comment_ddx : ℕ
  stats_comment_hash : ℕ
  stats_folds : ℕ
  stats_tokens : ℕ

def sfilter.slen (sf : sfilter) : ℕ := sf.s.length

/-- `*sf->current`. -/
def sfilter.cur (sf : sfilter) : stoken_t := sf.tokenvec sf.current

def sfilter.setCurrent (sf : sfilter) (st : stoken_t) : sfilter :=
  { sf with tokenvec := Function.update sf.tokenvec sf.current st }

@[simp] theorem cur_setCurrent (sf : sfilter) (t : stoken_t) : (sf.setCurrent t).cur = t :=
  Function.update_self _ _ _

@[simp] theorem s_setCurrent (sf : sfilter) (t : stoken_t) : (sf.setCurrent t).s = sf.s := rfl

@[simp] theorem pos_setCurrent (sf : sfilter) (t : stoken_t) : (sf.setCurrent t).pos = sf.pos :=
  rfl

/-- The lookup of a word: a token type, or zero if there is none. -/
abbrev ptr_lookup_fn := List UInt8 → UInt8

def libinjection_sqli_init (s : List UInt8) (flags : ℕ) : sfilter where
  s := s
  flags := if flags = 0 then FLAG_QUOTE_NONE ||| FLAG_SQL_ANSI else flags
  pos := 0
  tokenvec := fun _ => st_clear
  current := ⟨0, Nat.zero_lt_succ 7⟩
  fingerprint := List.replicate 8 0
  stats_comment_ddx := 0
  stats_comment_hash := 0
  stats_folds := 0
  stats_tokens := 0

/-- The input is kept. -/
def libinjection_sqli_reset (sf : sfilter) (flags : ℕ) : sfilter :=
  libinjection_sqli_init sf.s flags

end OctopusWaf.Libinjection
