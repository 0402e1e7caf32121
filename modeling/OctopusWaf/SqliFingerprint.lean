import OctopusWaf.KeywordSearch
import OctopusWaf.SqliFold

/-! The fingerprint of an input in one quoting context, the two tests on it, and
`libinjection_is_sqli`, which goes through the contexts. -/
namespace OctopusWaf.Libinjection
open CMachine CString

/-- An open and empty back tick at the end is taken for a comment. -/
def backtickComment (sf : sfilter) (tlen : ℕ) : Except Fault sfilter :=
  if 2 < tlen then do
    let st ← getToken sf (tlen - 1)
    if st.type = TYPE_BAREWORD ∧ st.str_open = CHAR_TICK ∧ st.len = 0 ∧
        st.str_close = CHAR_NULL then
      setToken sf (tlen - 1) { st with type := TYPE_COMMENT }
    else .ok sf
  else .ok sf

/-- The types of the first tokens and a terminator are written to the eight cells. -/
def writeFingerprint (sf : sfilter) (tlen : ℕ) : Except Fault sfilter := do
  let types ← (List.range tlen).mapM fun i => stoken_t.type <$> getToken sf i
  if tlen < 8 then
    .ok { sf with fingerprint := types ++ CHAR_NULL :: sf.fingerprint.drop (tlen + 1) }
  else .error .outside

/-- A token that cannot be parsed with certainty replaces all the others. -/
def evilFingerprint (sf : sfilter) : Except Fault sfilter := do
  let t0 ← getToken sf 0
  let t1 ← getToken sf 1
  let sf ← setToken sf 0 { t0 with
    type := TYPE_EVIL, val := TYPE_EVIL :: List.replicate (LIBINJECTION_SQLI_TOKEN_SIZE - 1) 0 }
  let sf ← setToken sf 1 { t1 with type := CHAR_NULL }
  .ok { sf with
    fingerprint := TYPE_EVIL :: List.replicate LIBINJECTION_SQLI_MAX_TOKENS 0 ++
      sf.fingerprint.drop (LIBINJECTION_SQLI_MAX_TOKENS + 1) }

def libinjection_sqli_fingerprint (lookup : ptr_lookup_fn) (sf : sfilter) (flags : ℕ) :
    Except Fault sfilter := do
  let (tlen, sf) ← libinjection_sqli_fold lookup (libinjection_sqli_reset sf flags)
  let sf ← backtickComment sf tlen
  let sf ← writeFingerprint sf tlen
  if strchr sf.fingerprint TYPE_EVIL then evilFingerprint sf else .ok sf

/-- The fingerprint as a string. -/
def sfilter.print (sf : sfilter) : List UInt8 := cstr sf.fingerprint

/-- The key of a fingerprint in the keyword table, written to eight cells. -/
def libinjection_sqli_blacklist (sql_keywords : KeywordTable) (sf : sfilter) :
    Except Fault Bool :=
  let len := sf.print.length
  if len < 1 then .ok false
  else if len + 2 ≤ 8 then
    .ok (is_keyword sql_keywords (chr '0' :: sf.print.map upcase) = TYPE_FINGERPRINT)
  else .error .outside

/-- A number and then a comment, with nothing folded: what follows the number. -/
def numberComment (s : List UInt8) (len : ℕ) : Except Fault Bool := do
  let ch ← readInput s len
  if charInt ch ≤ 32 then .ok true
  else
    let comment ← andAlso (ch = chr '/') do
      let d ← readInput s (len + 1)
      .ok (d = chr '*')
    if comment then .ok true
    else andAlso (ch = chr '-') do
      let d ← readInput s (len + 1)
      .ok (d = chr '-')

/-- `case 2` of the switch. -/
def whitelistTwo (sf : sfilter) : Except Fault Bool := do
  let t0 ← getToken sf 0
  let t1 ← getToken sf 1
  if readAt sf.fingerprint 1 = TYPE_UNION then .ok (sf.stats_tokens ≠ 2)
  else if readAt t1.val 0 = chr '#' then .ok false
  else if t0.type = TYPE_BAREWORD ∧ t1.type = TYPE_COMMENT ∧ readAt t1.val 0 ≠ chr '/' then
    .ok false
  else if t0.type = TYPE_NUMBER ∧ t1.type = TYPE_COMMENT ∧ readAt t1.val 0 = chr '/' then
    .ok true
  else if t0.type = TYPE_NUMBER ∧ t1.type = TYPE_COMMENT then
    if 2 < sf.stats_tokens then .ok true else numberComment sf.s t0.len
  else if 2 < t1.len ∧ readAt t1.val 0 = chr '-' then .ok false
  else .ok true

/-- `case 3` of the switch. -/
def whitelistThree (sf : sfilter) : Except Fault Bool := do
  let t0 ← getToken sf 0
  let t1 ← getToken sf 1
  let t2 ← getToken sf 2
  if streq sf.fingerprint (ascii "sos") ∨ streq sf.fingerprint (ascii "s&s") then
    .ok (t0.str_open = CHAR_NULL ∧ t2.str_close = CHAR_NULL ∧ t0.str_close = t2.str_open)
  else if ["s&n", "n&1", "1&1", "1&v", "1&s"].any fun p => streq sf.fingerprint (ascii p) then
    .ok (sf.stats_tokens ≠ 3)
  else if t1.type = TYPE_KEYWORD then
    .ok (¬ (t1.len < 5 ∨ cstrcasecmp (ascii "INTO") (t1.text 4) ≠ 0))
  else .ok true

def libinjection_sqli_not_whitelist (sf : sfilter) : Except Fault Bool := do
  let tlen := sf.print.length
  let sp_password ← andAlso (1 < tlen ∧ readAt sf.fingerprint (tlen - 1) = TYPE_COMMENT) do
    let found ← my_memmem sf.s (ascii "sp_password")
    .ok found.isSome
  if sp_password then .ok true
  else if tlen = 2 then whitelistTwo sf
  else if tlen = 3 then whitelistThree sf
  else .ok true

def libinjection_sqli_check_fingerprint (sql_keywords : KeywordTable) (sf : sfilter) :
    Except Fault Bool := do
  if ← libinjection_sqli_blacklist sql_keywords sf then libinjection_sqli_not_whitelist sf
  else .ok false

/-- The fingerprint in one context, and whether it is one of an injection. -/
def checkContext (sql_keywords : KeywordTable) (sf : sfilter) (flags : ℕ) :
    Except Fault (Bool × sfilter) := do
  let sf ← libinjection_sqli_fingerprint (is_keyword sql_keywords) sf flags
  let hit ← libinjection_sqli_check_fingerprint sql_keywords sf
  .ok (hit, sf)

def reparse_as_mysql (sf : sfilter) : Bool :=
  sf.stats_comment_ddx ≠ 0 ∨ sf.stats_comment_hash ≠ 0

/-- A context in ANSI mode and, where comments are read otherwise there, in MySQL mode. -/
def checkReparsed (sql_keywords : KeywordTable) (sf : sfilter) (quote : ℕ) :
    Except Fault (Bool × sfilter) := do
  let (hit, sf) ← checkContext sql_keywords sf (quote ||| FLAG_SQL_ANSI)
  if hit then .ok (true, sf)
  else if reparse_as_mysql sf then checkContext sql_keywords sf (quote ||| FLAG_SQL_MYSQL)
  else .ok (false, sf)

/-- As if the input had started with a single quote, if there is one in it. -/
def checkSingle (sql_keywords : KeywordTable) (sf : sfilter) : Except Fault (Bool × sfilter) :=
  if (memchr sf.s CHAR_SINGLE).isSome then checkReparsed sql_keywords sf FLAG_QUOTE_SINGLE
  else .ok (false, sf)

/-- The same with a double quote, which MySQL only takes for one. -/
def checkDouble (sql_keywords : KeywordTable) (sf : sfilter) : Except Fault (Bool × sfilter) :=
  if (memchr sf.s CHAR_DOUBLE).isSome then
    checkContext sql_keywords sf (FLAG_QUOTE_DOUBLE ||| FLAG_SQL_MYSQL)
  else .ok (false, sf)

def libinjection_is_sqli (sql_keywords : KeywordTable) (sf : sfilter) :
    Except Fault (Bool × sfilter) := do
  if sf.slen = 0 then .ok (false, sf)
  else
    let (hit, sf) ← checkReparsed sql_keywords sf FLAG_QUOTE_NONE
    if hit then .ok (true, sf)
    else
      let (hit, sf) ← checkSingle sql_keywords sf
      if hit then .ok (true, sf) else checkDouble sql_keywords sf

/-- The verdict, and the fingerprint that is copied out. -/
def libinjection_sqli (sql_keywords : KeywordTable) (input : List UInt8) :
    Except Fault (Bool × List UInt8) := do
  let (issqli, state) ← libinjection_is_sqli sql_keywords (libinjection_sqli_init input 0)
  .ok (issqli, if issqli then state.print else [])

end OctopusWaf.Libinjection
