import OctopusWaf.SqliParsers

/-! `libinjection_sqli_fold`: tokens are read two or three at a time and merged or dropped
until at most five are left. -/
namespace OctopusWaf.Libinjection
open CMachine CString

/-- `sf->tokenvec[i]`. -/
def getToken (sf : sfilter) (i : ℕ) : Except Fault stoken_t :=
  if h : i < 8 then .ok (sf.tokenvec ⟨i, h⟩) else .error .outside

def setToken (sf : sfilter) (i : ℕ) (st : stoken_t) : Except Fault sfilter :=
  if h : i < 8 then .ok { sf with tokenvec := Function.update sf.tokenvec ⟨i, h⟩ st }
  else .error .outside

/-- `sf->current = &(sf->tokenvec[i])`. -/
def pointCurrent (sf : sfilter) (i : ℕ) : Except Fault sfilter :=
  if h : i < 8 then .ok { sf with current := ⟨i, h⟩ } else .error .outside

/-- The types of a first word that may be merged with the next one. -/
def mergeable : List UInt8 :=
  [TYPE_KEYWORD, TYPE_BAREWORD, TYPE_OPERATOR, TYPE_UNION, TYPE_FUNCTION, TYPE_EXPRESSION,
    TYPE_TSQL, TYPE_SQLTYPE]

/-- The first token after the merge, if the two words are a phrase. -/
def syntax_merge_words (lookup : ptr_lookup_fn) (a b : stoken_t) :
    Except Fault (Option stoken_t) :=
  if a.type ∈ mergeable ∧ (b.type ∈ mergeable ∨ b.type = TYPE_LOGIC_OPERATOR) then
    let sz3 := a.len + b.len + 1
    if LIBINJECTION_SQLI_TOKEN_SIZE ≤ sz3 then .ok none
    else
      let tmp := a.text a.len ++ 32 :: b.text b.len
      let ch := lookup tmp
      if ch ≠ CHAR_NULL then some <$> st_assign a ch a.pos sz3 tmp else .ok none
  else .ok none

/-- `cstrcasecmp(word, st->val, st->len) == 0`. -/
def isWord (word : String) (st : stoken_t) : Bool := cstrcasecmp (ascii word) (st.text st.len) = 0

/-- Words that are functions before a parenthesis. -/
def functionWords : List String :=
  ["USER_ID", "USER_NAME", "DATABASE", "PASSWORD", "USER", "CURRENT_USER", "CURRENT_DATE",
    "CURRENT_TIME", "CURRENT_TIMESTAMP", "LOCALTIME", "LOCALTIMESTAMP"]

/-- The variables of the loop: `pos` is where the next token goes, and the tokens before
`left` are done with. -/
structure Folding where
  sf : sfilter
  last_comment : stoken_t
  pos : ℕ
  left : ℕ
  more : Bool

/-- `pos -= n`, with the new `left` and the folds that are counted. -/
def Folding.shrink (f : Folding) (n left folds : ℕ) : Except Fault Folding := do
  let pos ← sizeSub f.pos n
  .ok { f with
    pos := pos, left := left, sf := { f.sf with stats_folds := f.sf.stats_folds + folds } }

def Folding.put (f : Folding) (i : ℕ) (st : stoken_t) : Except Fault Folding := do
  let sf ← setToken f.sf i st
  .ok { f with sf := sf }

/-- How a pass over the first tokens ends: `return`, `continue`, or going on below. -/
inductive Folded where
  | returns (n : ℕ) (sf : sfilter)
  | again (f : Folding)
  | onward (f : Folding)

/-- One more token, unless there are enough already. -/
def fetchRound (lookup : ptr_lookup_fn) (n : ℕ) (f : Folding) :
    Except Fault (Folding ⊕ Folding) := do
  let held ← sizeSub f.pos f.left
  if f.more = true ∧ f.pos ≤ LIBINJECTION_SQLI_MAX_TOKENS ∧ held < n then
    let sf ← pointCurrent f.sf f.pos
    let (more, sf) ← libinjection_sqli_tokenize lookup sf
    if more then
      if sf.cur.type = TYPE_COMMENT then
        .ok (.inr { f with sf := sf, more := more, last_comment := sf.cur })
      else
        .ok (.inr { f with
          sf := sf, more := more, pos := f.pos + 1,
          last_comment := { f.last_comment with type := CHAR_NULL } })
    else .ok (.inr { f with sf := sf, more := more })
  else .ok (.inl f)

/-- Tokens are read until there are `n` from `left` on. -/
def fetch (lookup : ptr_lookup_fn) (n : ℕ) (f : Folding) : Except Fault Folding :=
  rounds .diverges (fetchRound lookup n) (f.sf.slen + 2) f

/-- `sf->tokenvec[i].type`. -/
def sfilter.types (sf : sfilter) (i : ℕ) : UInt8 :=
  if h : i < 8 then (sf.tokenvec ⟨i, h⟩).type else 0

theorem types_eq {sf : sfilter} {i : ℕ} (h : i < 8) : sf.types i = (sf.tokenvec ⟨i, h⟩).type :=
  dif_pos h

/-- What five tokens look like that are cut down to their first. -/
def fiveTokens (t : ℕ → UInt8) : Bool :=
  (t 0 = TYPE_NUMBER ∧ (t 1 = TYPE_OPERATOR ∨ t 1 = TYPE_COMMA) ∧ t 2 = TYPE_LEFTPARENS ∧
    t 3 = TYPE_NUMBER ∧ t 4 = TYPE_RIGHTPARENS) ∨
  (t 0 = TYPE_BAREWORD ∧ t 1 = TYPE_OPERATOR ∧ t 2 = TYPE_LEFTPARENS ∧
    (t 3 = TYPE_BAREWORD ∨ t 3 = TYPE_NUMBER) ∧ t 4 = TYPE_RIGHTPARENS) ∨
  (t 0 = TYPE_NUMBER ∧ t 1 = TYPE_RIGHTPARENS ∧ t 2 = TYPE_COMMA ∧ t 3 = TYPE_LEFTPARENS ∧
    t 4 = TYPE_NUMBER) ∨
  (t 0 = TYPE_BAREWORD ∧ t 1 = TYPE_RIGHTPARENS ∧ t 2 = TYPE_OPERATOR ∧
    t 3 = TYPE_LEFTPARENS ∧ t 4 = TYPE_BAREWORD)

def foldFive (f : Folding) : Except Fault Folding :=
  if LIBINJECTION_SQLI_MAX_TOKENS ≤ f.pos ∧ fiveTokens f.sf.types = true then
    if LIBINJECTION_SQLI_MAX_TOKENS < f.pos then do
      let st ← getToken f.sf LIBINJECTION_SQLI_MAX_TOKENS
      let f ← f.put 1 st
      .ok { f with pos := 2, left := 0 }
    else .ok { f with pos := 1, left := 0 }
  else .ok f

/-- The rules for two tokens after the one for phrases. -/
def foldPair (f : Folding) (a b : stoken_t) : Except Fault Folded :=
  if a.type = TYPE_SEMICOLON ∧ b.type = TYPE_FUNCTION ∧
      (readAt b.val 0 = chr 'I' ∨ readAt b.val 0 = chr 'i') ∧
      (readAt b.val 1 = chr 'F' ∨ readAt b.val 1 = chr 'f') then
    .again <$> f.put (f.left + 1) { b with type := TYPE_TSQL }
  else if (a.type = TYPE_BAREWORD ∨ a.type = TYPE_VARIABLE) ∧ b.type = TYPE_LEFTPARENS ∧
      functionWords.any (isWord · a) then
    .again <$> f.put f.left { a with type := TYPE_FUNCTION }
  else if a.type = TYPE_KEYWORD ∧ (isWord "IN" a ∨ isWord "NOT IN" a) then
    .again <$> f.put f.left { a with
      type := if b.type = TYPE_LEFTPARENS then TYPE_OPERATOR else TYPE_BAREWORD }
  else if a.type = TYPE_OPERATOR ∧ (isWord "LIKE" a ∨ isWord "NOT LIKE" a) then
    if b.type = TYPE_LEFTPARENS then
      .onward <$> f.put f.left { a with type := TYPE_FUNCTION }
    else .ok (.onward f)
  else if a.type = TYPE_SQLTYPE ∧ b.type ∈ [TYPE_BAREWORD, TYPE_NUMBER, TYPE_SQLTYPE,
      TYPE_LEFTPARENS, TYPE_FUNCTION, TYPE_VARIABLE, TYPE_STRING] then do
    let f ← f.put f.left b
    .again <$> f.shrink 1 0 1
  else if a.type = TYPE_COLLATE ∧ b.type = TYPE_BAREWORD then
    if strchr b.val (chr '_') then do
      let f ← f.put (f.left + 1) { b with type := TYPE_SQLTYPE }
      .ok (.onward { f with left := 0 })
    else .ok (.onward f)
  else if a.type = TYPE_BACKSLASH then
    if st_is_arithmetic_op b then do
      let f ← f.put f.left { a with type := TYPE_NUMBER }
      .ok (.again { f with left := 0 })
    else do
      let f ← f.put f.left b
      .again <$> f.shrink 1 0 1
  else if a.type = TYPE_LEFTPARENS ∧ b.type = TYPE_LEFTPARENS then .again <$> f.shrink 1 0 1
  else if a.type = TYPE_RIGHTPARENS ∧ b.type = TYPE_RIGHTPARENS then .again <$> f.shrink 1 0 1
  else if a.type = TYPE_LEFTBRACE ∧ b.type = TYPE_BAREWORD then
    if b.len = 0 then do
      let sf ← setToken f.sf (f.left + 1) { b with type := TYPE_EVIL }
      .ok (.returns (f.left + 2) sf)
    else .again <$> f.shrink 2 0 2
  else if b.type = TYPE_RIGHTBRACE then .again <$> f.shrink 1 0 1
  else .ok (.onward f)

/-- The rules for the two tokens at `left`. -/
def foldTwo (lookup : ptr_lookup_fn) (f : Folding) : Except Fault Folded := do
  let a ← getToken f.sf f.left
  let b ← getToken f.sf (f.left + 1)
  if a.type = TYPE_STRING ∧ b.type = TYPE_STRING then .again <$> f.shrink 1 f.left 1
  else if a.type = TYPE_SEMICOLON ∧ b.type = TYPE_SEMICOLON then .again <$> f.shrink 1 f.left 1
  else if (a.type = TYPE_OPERATOR ∨ a.type = TYPE_LOGIC_OPERATOR) ∧
      (st_is_unary_op b ∨ b.type = TYPE_SQLTYPE) then
    .again <$> f.shrink 1 0 1
  else if a.type = TYPE_LEFTPARENS ∧ st_is_unary_op b then .again <$> f.shrink 1 (f.left - 1) 1
  else
    match ← syntax_merge_words lookup a b with
    | some a => do
      let f ← f.put f.left a
      .again <$> f.shrink 1 (f.left - 1) 1
    | none => foldPair f a b

/-- The rules for the three tokens at `left`, and the step to the right if none applies. -/
def foldThree (f : Folding) : Except Fault Folding := do
  let a ← getToken f.sf f.left
  let b ← getToken f.sf (f.left + 1)
  let c ← getToken f.sf (f.left + 2)
  if a.type = TYPE_NUMBER ∧ b.type = TYPE_OPERATOR ∧ c.type = TYPE_NUMBER then f.shrink 2 0 0
  else if a.type = TYPE_OPERATOR ∧ b.type ≠ TYPE_LEFTPARENS ∧ c.type = TYPE_OPERATOR then
    f.shrink 2 0 0
  else if a.type = TYPE_LOGIC_OPERATOR ∧ c.type = TYPE_LOGIC_OPERATOR then f.shrink 2 0 0
  else if a.type = TYPE_VARIABLE ∧ b.type = TYPE_OPERATOR ∧
      c.type ∈ [TYPE_VARIABLE, TYPE_NUMBER, TYPE_BAREWORD] then f.shrink 2 0 0
  else if a.type ∈ [TYPE_BAREWORD, TYPE_NUMBER] ∧ b.type = TYPE_OPERATOR ∧
      c.type ∈ [TYPE_NUMBER, TYPE_BAREWORD] then f.shrink 2 0 0
  else if a.type ∈ [TYPE_BAREWORD, TYPE_NUMBER, TYPE_VARIABLE, TYPE_STRING] ∧
      b.type = TYPE_OPERATOR ∧ streq b.val (ascii "::") ∧ c.type = TYPE_SQLTYPE then
    f.shrink 2 0 2
  else if a.type ∈ [TYPE_BAREWORD, TYPE_NUMBER, TYPE_STRING, TYPE_VARIABLE] ∧
      b.type = TYPE_COMMA ∧
      c.type ∈ [TYPE_NUMBER, TYPE_BAREWORD, TYPE_STRING, TYPE_VARIABLE] then f.shrink 2 0 0
  else if a.type ∈ [TYPE_EXPRESSION, TYPE_GROUP, TYPE_COMMA] ∧ st_is_unary_op b ∧
      c.type = TYPE_LEFTPARENS then do
    let f ← f.put (f.left + 1) c
    f.shrink 1 0 0
  else if a.type ∈ [TYPE_KEYWORD, TYPE_EXPRESSION, TYPE_GROUP] ∧ st_is_unary_op b ∧
      c.type ∈ [TYPE_NUMBER, TYPE_BAREWORD, TYPE_VARIABLE, TYPE_STRING, TYPE_FUNCTION] then do
    let f ← f.put (f.left + 1) c
    f.shrink 1 0 0
  else if a.type = TYPE_COMMA ∧ st_is_unary_op b ∧
      c.type ∈ [TYPE_NUMBER, TYPE_BAREWORD, TYPE_VARIABLE, TYPE_STRING] then do
    let f ← f.put (f.left + 1) c
    if f.pos < 3 then .error .assertion else f.shrink 3 0 0
  else if a.type = TYPE_COMMA ∧ st_is_unary_op b ∧ c.type = TYPE_FUNCTION then do
    let f ← f.put (f.left + 1) c
    f.shrink 1 0 0
  else if a.type = TYPE_BAREWORD ∧ b.type = TYPE_DOT ∧ c.type = TYPE_BAREWORD then
    if f.pos < 3 then .error .assertion else f.shrink 2 0 0
  else if a.type = TYPE_EXPRESSION ∧ b.type = TYPE_DOT ∧ c.type = TYPE_BAREWORD then do
    let f ← f.put (f.left + 1) c
    f.shrink 1 0 0
  else if a.type = TYPE_FUNCTION ∧ b.type = TYPE_LEFTPARENS ∧ c.type ≠ TYPE_RIGHTPARENS ∧
      isWord "USER" a then do
    let f ← f.put f.left { a with type := TYPE_BAREWORD }
    .ok { f with left := f.left + 1 }
  else .ok { f with left := f.left + 1 }

/-- The last comment is added back if there is room, and a sixth token is dropped. -/
def foldEnd (f : Folding) : Except Fault (ℕ × sfilter) :=
  if f.pos < LIBINJECTION_SQLI_MAX_TOKENS ∧ f.last_comment.type = TYPE_COMMENT then do
    let sf ← setToken f.sf f.pos f.last_comment
    .ok (f.pos + 1, sf)
  else .ok (min f.pos LIBINJECTION_SQLI_MAX_TOKENS, f.sf)

/-- One round of the main loop. -/
def foldRound (lookup : ptr_lookup_fn) (f : Folding) :
    Except Fault ((ℕ × sfilter) ⊕ Folding) := do
  let f ← foldFive f
  if f.more = false ∨ LIBINJECTION_SQLI_MAX_TOKENS ≤ f.left then .inl <$> foldEnd f
  else
    let f ← fetch lookup 2 f
    let held ← sizeSub f.pos f.left
    if held < 2 then .ok (.inr { f with left := f.pos })
    else
      match ← foldTwo lookup f with
      | .returns n sf => .ok (.inl (n, sf))
      | .again f => .ok (.inr f)
      | .onward f => do
        let f ← fetch lookup 3 f
        let held ← sizeSub f.pos f.left
        if held < 3 then .ok (.inr { f with left := f.pos })
        else .inr <$> foldThree f

/-- Initial comments, left parentheses, types and unary operators are skipped. -/
def skipRound (lookup : ptr_lookup_fn) (sf : sfilter) :
    Except Fault ((Bool × sfilter) ⊕ sfilter) := do
  let (more, sf) ← libinjection_sqli_tokenize lookup sf
  let type := sf.cur.type
  if more = true ∧ (type = TYPE_COMMENT ∨ type = TYPE_LEFTPARENS ∨ type = TYPE_SQLTYPE ∨
      st_is_unary_op sf.cur) then .ok (.inr sf)
  else .ok (.inl (more, sf))

/-- Rounds of the main loop that suffice for an input of `slen` bytes. -/
def foldRounds (slen : ℕ) : ℕ := 3332 * (slen + 2)

def libinjection_sqli_fold (lookup : ptr_lookup_fn) (sf : sfilter) :
    Except Fault (ℕ × sfilter) := do
  let sf ← pointCurrent sf 0
  let (more, sf) ← rounds .diverges (skipRound lookup) (sf.slen + 2) sf
  if more then
    rounds .diverges (foldRound lookup) (foldRounds sf.slen) ⟨sf, st_clear, 1, 0, more⟩
  else .ok (0, sf)

end OctopusWaf.Libinjection
