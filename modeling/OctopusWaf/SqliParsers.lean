import OctopusWaf.SqliTokens

/-! The parsers of libinjection, one for each kind of first byte, and the tokenizer that
calls them. A parser returns the position after what it has read. -/
namespace OctopusWaf.Libinjection
open CMachine CString

/-- The new position and the state with the token that was read. -/
abbrev Parsed := ℕ × sfilter

/-- `st_assign(sf->current, ...)`, and the position that is returned. -/
def assignCurrent (sf : sfilter) (stype : UInt8) (pos len : ℕ) (value : List UInt8) (next : ℕ) :
    Except Fault Parsed := do
  let st ← st_assign sf.cur stype pos len value
  .ok (next, sf.setCurrent st)

/-- `st_assign_char(sf->current, ...)`, and the position that is returned. -/
def assignChar (sf : sfilter) (stype : UInt8) (pos : ℕ) (value : UInt8) (next : ℕ) : Parsed :=
  (next, sf.setCurrent (st_assign_char sf.cur stype pos value))

def parse_white (sf : sfilter) : Except Fault Parsed := .ok (sf.pos + 1, sf)

def parse_operator1 (sf : sfilter) : Except Fault Parsed := do
  let c ← readInput sf.s sf.pos
  .ok (assignChar sf TYPE_OPERATOR sf.pos c (sf.pos + 1))

def parse_other (sf : sfilter) : Except Fault Parsed := do
  let c ← readInput sf.s sf.pos
  .ok (assignChar sf TYPE_UNKNOWN sf.pos c (sf.pos + 1))

def parse_char (sf : sfilter) : Except Fault Parsed := do
  let c ← readInput sf.s sf.pos
  .ok (assignChar sf c sf.pos c (sf.pos + 1))

def parse_eol_comment (sf : sfilter) : Except Fault Parsed := do
  let w ← tailInput sf.s sf.pos
  match memchr w 10 with
  | none => assignCurrent sf TYPE_COMMENT sf.pos w.length w sf.slen
  | some n => assignCurrent sf TYPE_COMMENT sf.pos n w (sf.pos + n + 1)

def parse_hash (sf : sfilter) : Except Fault Parsed :=
  let sf := { sf with stats_comment_hash := sf.stats_comment_hash + 1 }
  if hasFlag sf.flags FLAG_SQL_MYSQL then
    parse_eol_comment { sf with stats_comment_hash := sf.stats_comment_hash + 1 }
  else .ok (assignChar sf TYPE_OPERATOR sf.pos (chr '#') (sf.pos + 1))

def parse_dash (sf : sfilter) : Except Fault Parsed := do
  let pos := sf.pos
  let ddw ← andAlso (pos + 2 < sf.slen) do
    let c1 ← readInput sf.s (pos + 1)
    andAlso (c1 = chr '-') do
      let c2 ← readInput sf.s (pos + 2)
      .ok (char_is_white c2)
  if ddw then parse_eol_comment sf
  else
    let eof ← andAlso (pos + 2 = sf.slen) do
      let c1 ← readInput sf.s (pos + 1)
      .ok (c1 = chr '-')
    if eof then parse_eol_comment sf
    else
      let ddx ← andAlso (pos + 1 < sf.slen) do
        let c1 ← readInput sf.s (pos + 1)
        .ok (c1 = chr '-' ∧ hasFlag sf.flags FLAG_SQL_ANSI)
      if ddx then
        parse_eol_comment { sf with stats_comment_ddx := sf.stats_comment_ddx + 1 }
      else .ok (assignChar sf TYPE_OPERATOR pos (chr '-') (pos + 1))

def is_mysql_comment (cs : List UInt8) (pos : ℕ) : Except Fault Bool :=
  andAlso (pos + 2 < cs.length) do
    let c ← readInput cs (pos + 2)
    .ok (c = chr '!')

/-- The bytes between the first `/*` and the end of its `*/`, less the final slash. Without
a `*/` the source passes a length counted from the null pointer: the last address of the
search is then the null pointer and nothing is searched. -/
def commentInside (w : List UInt8) : Option ℕ → List UInt8
  | none => []
  | some ptr => w.take (ptr + 1)

def parse_slash (sf : sfilter) : Except Fault Parsed := do
  let pos := sf.pos
  let operator ← orElse (pos + 1 = sf.slen) do
    let c ← readInput sf.s (pos + 1)
    .ok (c ≠ chr '*')
  if operator then parse_operator1 sf
  else
    let cur ← tailInput sf.s pos
    let w ← tailInput sf.s (pos + 2)
    let ptr := memchr2 w (chr '*') (chr '/')
    let clen := ptr.elim cur.length (· + 4)
    let evil ← orElse ((memchr2 (commentInside w ptr) (chr '/') (chr '*')).isSome)
      (is_mysql_comment sf.s pos)
    assignCurrent sf (if evil then TYPE_EVIL else TYPE_COMMENT) pos clen cur (pos + clen)

def parse_backslash (sf : sfilter) : Except Fault Parsed := do
  let pos := sf.pos
  let null ← andAlso (pos + 1 < sf.slen) do
    let c ← readInput sf.s (pos + 1)
    .ok (c = chr 'N')
  if null then
    let cur ← tailInput sf.s pos
    assignCurrent sf TYPE_NUMBER pos 2 cur (pos + 2)
  else
    let c ← readInput sf.s pos
    .ok (assignChar sf TYPE_BACKSLASH pos c (pos + 1))

def parse_operator2 (lookup : ptr_lookup_fn) (sf : sfilter) : Except Fault Parsed := do
  let pos := sf.pos
  if sf.slen ≤ pos + 1 then parse_operator1 sf
  else
    let cur ← tailInput sf.s pos
    let spaceship ← andAlso (pos + 2 < sf.slen) do
      let c0 ← readInput sf.s pos
      let c1 ← readInput sf.s (pos + 1)
      let c2 ← readInput sf.s (pos + 2)
      .ok (c0 = chr '<' ∧ c1 = chr '=' ∧ c2 = chr '>')
    if spaceship then assignCurrent sf TYPE_OPERATOR pos 3 cur (pos + 3)
    else
      let key ← blockInput sf.s pos 2
      let ch := lookup key
      if ch ≠ CHAR_NULL then assignCurrent sf ch pos 2 cur (pos + 2)
      else
        let c ← readInput sf.s pos
        if c = chr ':' then assignCurrent sf TYPE_COLON pos 1 cur (pos + 1)
        else parse_operator1 sf

/-- Of the bytes from the start of the text up to a delimiter: whether an odd number of
backslashes stands at the end. -/
def is_backslash_escaped (text : List UInt8) : Bool :=
  (text.reverse.takeWhile (· = 92)).length % 2 = 1

def is_double_delim_escaped (cs : List UInt8) (cur : ℕ) : Except Fault Bool :=
  andAlso (cur + 1 < cs.length) do
    let c ← readInput cs cur
    let d ← readInput cs (cur + 1)
    .ok (d = c)

/-- `memchr` from `i` to the end of the input, as a position in the input. -/
def nextDelim (cs : List UInt8) (i : ℕ) (delim : UInt8) : Except Fault (Option ℕ) := do
  let w ← tailInput cs i
  .ok ((memchr w delim).map (i + ·))

/-- One round of the loop of `parse_string_core`, from the delimiter at `qpos`: the position
of the closing one, or the next to look at. -/
def stringRound (cs : List UInt8) (start : ℕ) (delim : UInt8) :
    Option ℕ → Except Fault (Option ℕ ⊕ Option ℕ)
  | none => .ok (.inl none)
  | some qpos => do
    let len ← sizeSub qpos start
    let text ← blockInput cs start len
    if is_backslash_escaped text then .inr <$> nextDelim cs (qpos + 1) delim
    else if ← is_double_delim_escaped cs qpos then .inr <$> nextDelim cs (qpos + 2) delim
    else .ok (.inl (some qpos))

/-- The position of the closing delimiter of a text that starts at `start`. -/
def closingDelim (cs : List UInt8) (start : ℕ) (delim : UInt8) : Except Fault (Option ℕ) := do
  let qpos ← nextDelim cs start delim
  rounds .diverges (stringRound cs start delim) (cs.length + 1) qpos

def parse_string_core (cs : List UInt8) (pos : ℕ) (st : stoken_t) (delim : UInt8) (offset : ℕ) :
    Except Fault (ℕ × stoken_t) := do
  let start := pos + offset
  let qpos ← closingDelim cs start delim
  let w ← tailInput cs start
  let st := { st with str_open := if 0 < offset then delim else CHAR_NULL }
  match qpos with
  | none =>
    let st ← st_assign st TYPE_STRING start w.length w
    .ok (cs.length, { st with str_close := CHAR_NULL })
  | some qpos =>
    let st ← st_assign st TYPE_STRING start (qpos - start) w
    .ok (qpos + 1, { st with str_close := delim })

/-- `parse_string_core` on the current token. -/
def stringCurrent (sf : sfilter) (delim : UInt8) (offset : ℕ) : Except Fault Parsed := do
  let (next, st) ← parse_string_core sf.s sf.pos sf.cur delim offset
  .ok (next, sf.setCurrent st)

def parse_string (sf : sfilter) : Except Fault Parsed := do
  let c ← readInput sf.s sf.pos
  stringCurrent sf c 1

/-- What ends a word: blanks, brackets, operators, quotes and the zero byte. -/
def wordStops : List UInt8 :=
  ascii " []<>:?=@!#~+-*/&|^%(),;" ++ [123, 125, 92, 39, 9, 10, 11, 12, 13, 34, 160]

/-- The first `.` or back tick of a word before which a keyword stands, and its type. -/
def splitWord (lookup : ptr_lookup_fn) (val : List UInt8) (len : ℕ) : Option (ℕ × UInt8) :=
  (List.range len).findSome? fun i =>
    let delim := readAt val i
    if delim = chr '.' ∨ delim = CHAR_TICK then
      let ch := lookup (bytes val i)
      if ch ≠ TYPE_NONE ∧ ch ≠ TYPE_BAREWORD then some (i, ch) else none
    else none

def parse_word (lookup : ptr_lookup_fn) (sf : sfilter) : Except Fault Parsed := do
  let pos := sf.pos
  let w ← tailInput sf.s pos
  let wlen := strlencspn w wordStops
  let st ← st_assign sf.cur TYPE_BAREWORD pos wlen w
  match splitWord lookup st.val st.len with
  | some (i, ch) =>
    let st ← st_assign st_clear ch pos i w
    .ok (pos + i, sf.setCurrent st)
  | none =>
    let ch := lookup (st.text wlen)
    let type := if wlen < LIBINJECTION_SQLI_TOKEN_SIZE then
      if ch = CHAR_NULL then TYPE_BAREWORD else ch else TYPE_BAREWORD
    .ok (pos + wlen, sf.setCurrent { st with type := type })

/-- After an `e`, `E`, `n` or `N`. -/
def parse_estring (lookup : ptr_lookup_fn) (sf : sfilter) : Except Fault Parsed := do
  let word ← orElse (sf.slen ≤ sf.pos + 2) do
    let c ← readInput sf.s (sf.pos + 1)
    .ok (c ≠ CHAR_SINGLE)
  if word then parse_word lookup sf else stringCurrent sf CHAR_SINGLE 2

def parse_ustring (lookup : ptr_lookup_fn) (sf : sfilter) : Except Fault Parsed := do
  let quoted ← andAlso (sf.pos + 2 < sf.slen) do
    let c1 ← readInput sf.s (sf.pos + 1)
    let c2 ← readInput sf.s (sf.pos + 2)
    .ok (c1 = chr '&' ∧ c2 = CHAR_SINGLE)
  if quoted then
    let (next, sf) ← parse_string { sf with pos := sf.pos + 2 }
    let st := { sf.cur with str_open := chr 'u' }
    .ok (next, sf.setCurrent (if st.str_close = CHAR_SINGLE then
      { st with str_close := chr 'u' } else st))
  else parse_word lookup sf

/-- The bracket that closes what a bracket opens. -/
def closingBracket (ch : UInt8) : UInt8 :=
  if ch = chr '(' then chr ')' else if ch = chr '[' then chr ']'
  else if ch = 123 then 125 else if ch = chr '<' then chr '>' else ch

/-- The condition under which `parse_qstring_core` reads a string. -/
def opensQstring (s : List UInt8) (pos : ℕ) : Except Fault Bool :=
  andAlso (pos < s.length) do
    let c0 ← readInput s pos
    andAlso ((c0 = chr 'q' ∨ c0 = chr 'Q') ∧ pos + 2 < s.length) do
      let c1 ← readInput s (pos + 1)
      let ch ← readInput s (pos + 2)
      -- a plain `char` is signed
      .ok (c1 = CHAR_SINGLE ∧ ¬ charInt ch < 33)

/-- A string that starts at `start` with the bytes `w` after it, up to a closing mark of
`size` bytes at offset `strend`, or to the end of the input. -/
def markedString (sf : sfilter) (mark : UInt8) (start : ℕ) (w : List UInt8) (size : ℕ)
    (strend : Option ℕ) : Except Fault Parsed := do
  let st ← st_assign sf.cur TYPE_STRING start (strend.getD w.length) w
  .ok (strend.elim sf.slen (start + · + size), sf.setCurrent { st with
    str_open := mark, str_close := if strend.isSome then mark else CHAR_NULL })

def parse_qstring_core (lookup : ptr_lookup_fn) (sf : sfilter) (offset : ℕ) :
    Except Fault Parsed := do
  let pos := sf.pos + offset
  if ← opensQstring sf.s pos then
    let ch ← readInput sf.s (pos + 2)
    let w ← tailInput sf.s (pos + 3)
    markedString sf (chr 'q') (pos + 3) w 2 (memchr2 w (closingBracket ch) CHAR_SINGLE)
  else parse_word lookup sf

def parse_qstring (lookup : ptr_lookup_fn) (sf : sfilter) : Except Fault Parsed :=
  parse_qstring_core lookup sf 0

def parse_nqstring (lookup : ptr_lookup_fn) (sf : sfilter) : Except Fault Parsed := do
  let quoted ← andAlso (sf.pos + 2 < sf.slen) do
    let c ← readInput sf.s (sf.pos + 1)
    .ok (c = CHAR_SINGLE)
  if quoted then parse_estring lookup sf else parse_qstring_core lookup sf 1

/-- A literal of digits in quotes after one letter; anything else is a word. -/
def parseDigitString (lookup : ptr_lookup_fn) (digits : List UInt8) (sf : sfilter) :
    Except Fault Parsed := do
  let pos := sf.pos
  let word ← orElse (sf.slen ≤ pos + 2) do
    let c ← readInput sf.s (pos + 1)
    .ok (c ≠ CHAR_SINGLE)
  if word then parse_word lookup sf
  else
    let w ← tailInput sf.s (pos + 2)
    let wlen := strlenspn w digits
    let open_ ← orElse (sf.slen ≤ pos + 2 + wlen) do
      let c ← readInput sf.s (pos + 2 + wlen)
      .ok (c ≠ CHAR_SINGLE)
    if open_ then parse_word lookup sf
    else
      let cur ← tailInput sf.s pos
      assignCurrent sf TYPE_NUMBER pos (wlen + 3) cur (pos + 2 + wlen + 1)

def parse_bstring (lookup : ptr_lookup_fn) : sfilter → Except Fault Parsed :=
  parseDigitString lookup (ascii "01")

def parse_xstring (lookup : ptr_lookup_fn) : sfilter → Except Fault Parsed :=
  parseDigitString lookup (ascii "0123456789ABCDEFabcdef")

def parse_bword (sf : sfilter) : Except Fault Parsed := do
  let cur ← tailInput sf.s sf.pos
  match memchr cur (chr ']') with
  | none => assignCurrent sf TYPE_BAREWORD sf.pos cur.length cur sf.slen
  | some endptr => assignCurrent sf TYPE_BAREWORD sf.pos (endptr + 1) cur (sf.pos + endptr + 1)

def parse_tick (lookup : ptr_lookup_fn) (sf : sfilter) : Except Fault Parsed := do
  let (next, sf) ← stringCurrent sf CHAR_TICK 1
  let ch := lookup (sf.cur.text sf.cur.len)
  .ok (next, sf.setCurrent { sf.cur with
    type := if ch = TYPE_FUNCTION then TYPE_FUNCTION else TYPE_BAREWORD })

/-- The stops of a variable name: those of a word less the brackets and braces and the
non-breaking space, and the back tick. -/
def varStops : List UInt8 :=
  ascii " <>:?=@!#~+-*/&|^%(),;" ++ [92, 39, 9, 10, 11, 12, 13, 96, 34]

def parse_var (lookup : ptr_lookup_fn) (sf : sfilter) : Except Fault Parsed := do
  let double ← andAlso (sf.pos + 1 < sf.slen) do
    let c ← readInput sf.s (sf.pos + 1)
    .ok (c = chr '@')
  let pos := if double then sf.pos + 2 else sf.pos + 1
  let sf := sf.setCurrent { sf.cur with count := if double then 2 else 1 }
  let w ← tailInput sf.s pos
  if w.head? = some CHAR_TICK then
    let (next, sf) ← parse_tick lookup { sf with pos := pos }
    .ok (next, sf.setCurrent { sf.cur with type := TYPE_VARIABLE })
  else if w.head? = some CHAR_SINGLE ∨ w.head? = some CHAR_DOUBLE then
    let (next, sf) ← parse_string { sf with pos := pos }
    .ok (next, sf.setCurrent { sf.cur with type := TYPE_VARIABLE })
  else
    let xlen := strlencspn w varStops
    assignCurrent sf TYPE_VARIABLE pos xlen w (pos + xlen)

/-- The letters as the source lists them. -/
def letters : List UInt8 :=
  ascii "abcdefghjiklmnopqrstuvwxyzABCDEFGHIJKLMNOPQRSTUVWXYZ"

/-- `$tag$`, of `size` bytes with both dollar signs, opens a string. The second tag is
looked for from `cs + size` on, whatever the position of the first. -/
def dollarTag (sf : sfilter) (size : ℕ) : Except Fault Parsed := do
  let start := sf.pos + size
  let hlen ← sizeSub sf.slen start
  let haystack ← blockInput sf.s size hlen
  let needle ← blockInput sf.s sf.pos size
  let strend ← my_memmem haystack needle
  let w ← tailInput sf.s start
  let found := (strend.map (size + ·)).filter (start ≤ ·)
  markedString sf (chr '$') start w size (found.map (· - start))

/-- A dollar sign that is not followed by a number. -/
def dollarString (sf : sfilter) (w : List UInt8) : Except Fault Parsed := do
  let pos := sf.pos
  let alone : Parsed := assignChar sf TYPE_BAREWORD pos (chr '$') (pos + 1)
  let c ← readInput sf.s (pos + 1)
  if c = chr '$' then
    let w2 ← tailInput sf.s (pos + 2)
    markedString sf (chr '$') (pos + 2) w2 2 (memchr2 w2 (chr '$') (chr '$'))
  else
    let xlen := strlenspn w letters
    if xlen = 0 then .ok alone
    else
      let open_ ← orElse (pos + xlen + 1 = sf.slen) do
        let d ← readInput sf.s (pos + xlen + 1)
        .ok (d ≠ chr '$')
      if open_ then .ok alone else dollarTag sf (xlen + 2)

def parse_money (lookup : ptr_lookup_fn) (sf : sfilter) : Except Fault Parsed := do
  let pos := sf.pos
  if pos + 1 = sf.slen then .ok (assignChar sf TYPE_BAREWORD pos (chr '$') sf.slen)
  else
    let w ← tailInput sf.s (pos + 1)
    let xlen := strlenspn w (ascii "0123456789.,")
    if xlen = 0 then dollarString sf w
    else
      let c ← readInput sf.s (pos + 1)
      if xlen = 1 ∧ c = chr '.' then parse_word lookup sf
      else
        let cur ← tailInput sf.s pos
        assignCurrent sf TYPE_NUMBER pos (1 + xlen) cur (pos + 1 + xlen)

/-- The digits of a number that starts with a radix mark. -/
def radixDigits (cs : List UInt8) (pos : ℕ) : Except Fault (Option (List UInt8)) := do
  let c ← readInput cs pos
  if c = chr '0' ∧ pos + 1 < cs.length then
    let c1 ← readInput cs (pos + 1)
    .ok (if c1 = chr 'X' ∨ c1 = chr 'x' then some (ascii "0123456789ABCDEFabcdef")
      else if c1 = chr 'B' ∨ c1 = chr 'b' then some (ascii "01") else none)
  else .ok none

/-- `while (pos < slen && ISDIGIT(cs[pos])) pos += 1`. -/
def skipDigits (cs : List UInt8) (pos : ℕ) : Except Fault ℕ := do
  let w ← tailInput cs pos
  .ok (pos + (w.takeWhile ISDIGIT).length)

/-- The end of an exponent, with `have_e` and `have_exp`. -/
def numberExponent (cs : List UInt8) (pos : ℕ) : Except Fault (ℕ × Bool × Bool) := do
  let have_e ← andAlso (pos < cs.length) do
    let c ← readInput cs pos
    .ok (c = chr 'E' ∨ c = chr 'e')
  if have_e then
    let sign ← andAlso (pos + 1 < cs.length) do
      let c ← readInput cs (pos + 1)
      .ok (c = chr '+' ∨ c = chr '-')
    let first := if sign then pos + 2 else pos + 1
    let stop ← skipDigits cs first
    .ok (stop, true, first < stop)
  else .ok (pos, false, false)

/-- The end of an optional float or double suffix. -/
def numberSuffix (cs : List UInt8) (pos : ℕ) : Except Fault ℕ := do
  let suffix ← andAlso (pos < cs.length) do
    let c ← readInput cs pos
    .ok (c = chr 'd' ∨ c = chr 'D' ∨ c = chr 'f' ∨ c = chr 'F')
  if suffix then
    let ends ← orElse (pos + 1 = cs.length) do
      let c ← readInput cs (pos + 1)
      .ok (char_is_white c ∨ c = chr ';' ∨ c = chr 'u' ∨ c = chr 'U')
    .ok (if ends then pos + 1 else pos)
  else .ok pos

/-- A decimal number from `start`, read up to `pos`: what may follow its digits. -/
def numberTail (sf : sfilter) (start pos : ℕ) : Except Fault Parsed := do
  let (pos, have_e, have_exp) ← numberExponent sf.s pos
  let pos ← numberSuffix sf.s pos
  let cur ← tailInput sf.s start
  -- `1.e` and the like are words
  let stype := if have_e ∧ ¬ have_exp then TYPE_BAREWORD else TYPE_NUMBER
  assignCurrent sf stype start (pos - start) cur pos

def parse_number (sf : sfilter) : Except Fault Parsed := do
  let start := sf.pos
  match ← radixDigits sf.s start with
  | some digits =>
    let w ← tailInput sf.s (start + 2)
    let xlen := strlenspn w digits
    let cur ← tailInput sf.s start
    assignCurrent sf (if xlen = 0 then TYPE_BAREWORD else TYPE_NUMBER) start (2 + xlen) cur
      (start + 2 + xlen)
  | none =>
    let pos ← skipDigits sf.s start
    let point ← andAlso (pos < sf.slen) do
      let c ← readInput sf.s pos
      .ok (c = chr '.')
    if point then
      let stop ← skipDigits sf.s (pos + 1)
      if stop - start = 1 then .ok (assignChar sf TYPE_DOT start (chr '.') stop)
      else numberTail sf start stop
    else numberTail sf start pos

/-- The entries of the parser table. -/
inductive pt2Function where
  | parse_white | parse_operator1 | parse_operator2 | parse_other | parse_char | parse_hash
  | parse_dash | parse_slash | parse_backslash | parse_string | parse_word | parse_estring
  | parse_ustring | parse_qstring | parse_nqstring | parse_bstring | parse_xstring
  | parse_bword | parse_tick | parse_var | parse_money | parse_number
  deriving DecidableEq, Repr

/-- The entries of the letters, which are the same in upper and lower case. -/
def wordLetters : List pt2Function :=
  [.parse_word, .parse_bstring, .parse_word, .parse_word, .parse_estring, .parse_word,
    .parse_word, .parse_word, .parse_word, .parse_word, .parse_word, .parse_word, .parse_word,
    .parse_nqstring, .parse_word, .parse_word, .parse_qstring, .parse_word, .parse_word,
    .parse_word, .parse_ustring, .parse_word, .parse_word, .parse_xstring, .parse_word,
    .parse_word]

def char_parse_map : List pt2Function := List.flatten
  [List.replicate 33 .parse_white,
    [.parse_operator2, .parse_string, .parse_hash, .parse_money, .parse_operator1,
      .parse_operator2, .parse_string, .parse_char, .parse_char, .parse_operator2,
      .parse_operator1, .parse_char, .parse_dash, .parse_number, .parse_slash],
    List.replicate 10 .parse_number,
    [.parse_operator2, .parse_char, .parse_operator2, .parse_operator2, .parse_operator2,
      .parse_other, .parse_var],
    wordLetters,
    [.parse_bword, .parse_backslash, .parse_other, .parse_operator1, .parse_word, .parse_tick],
    wordLetters,
    [.parse_char, .parse_operator2, .parse_char, .parse_operator1, .parse_white],
    List.replicate 32 .parse_word, [.parse_white], List.replicate 95 .parse_word]

/-- `char_parse_map[ch]`. -/
def charParser (ch : UInt8) : pt2Function := char_parse_map.getD ch.toNat .parse_white

def pt2Function.run (lookup : ptr_lookup_fn) : pt2Function → sfilter → Except Fault Parsed
  | parse_white => Libinjection.parse_white
  | parse_operator1 => Libinjection.parse_operator1
  | parse_operator2 => Libinjection.parse_operator2 lookup
  | parse_other => Libinjection.parse_other
  | parse_char => Libinjection.parse_char
  | parse_hash => Libinjection.parse_hash
  | parse_dash => Libinjection.parse_dash
  | parse_slash => Libinjection.parse_slash
  | parse_backslash => Libinjection.parse_backslash
  | parse_string => Libinjection.parse_string
  | parse_word => Libinjection.parse_word lookup
  | parse_estring => Libinjection.parse_estring lookup
  | parse_ustring => Libinjection.parse_ustring lookup
  | parse_qstring => Libinjection.parse_qstring lookup
  | parse_nqstring => Libinjection.parse_nqstring lookup
  | parse_bstring => Libinjection.parse_bstring lookup
  | parse_xstring => Libinjection.parse_xstring lookup
  | parse_bword => Libinjection.parse_bword
  | parse_tick => Libinjection.parse_tick lookup
  | parse_var => Libinjection.parse_var lookup
  | parse_money => Libinjection.parse_money lookup
  | parse_number => Libinjection.parse_number

def flag2delim (flag : ℕ) : UInt8 :=
  if hasFlag flag FLAG_QUOTE_SINGLE then CHAR_SINGLE
  else if hasFlag flag FLAG_QUOTE_DOUBLE then CHAR_DOUBLE else CHAR_NULL

/-- One round of the loop of the tokenizer. -/
def tokenRound (lookup : ptr_lookup_fn) (sf : sfilter) :
    Except Fault ((Bool × sfilter) ⊕ sfilter) := do
  if sf.pos < sf.slen then
    let ch ← readInput sf.s sf.pos
    let (next, sf) ← (charParser ch).run lookup sf
    let sf := { sf with pos := next }
    if sf.cur.type ≠ CHAR_NULL then
      .ok (.inl (true, { sf with stats_tokens := sf.stats_tokens + 1 }))
    else .ok (.inr sf)
  else .ok (.inl (false, sf))

/-- Reads the next token into `*sf->current`, if there is one. -/
def libinjection_sqli_tokenize (lookup : ptr_lookup_fn) (sf : sfilter) :
    Except Fault (Bool × sfilter) :=
  if sf.slen = 0 then .ok (false, sf)
  else
    let sf := sf.setCurrent st_clear
    if sf.pos = 0 ∧ hasFlag sf.flags (FLAG_QUOTE_SINGLE ||| FLAG_QUOTE_DOUBLE) then do
      let (next, st) ← parse_string_core sf.s 0 sf.cur (flag2delim sf.flags) 0
      .ok (true, { sf.setCurrent st with pos := next, stats_tokens := sf.stats_tokens + 1 })
    else rounds .diverges (tokenRound lookup) (sf.slen + 1) sf

end OctopusWaf.Libinjection
