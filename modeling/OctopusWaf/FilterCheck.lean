import OctopusWaf.Blocklist
import OctopusWaf.Utils

/-! `filter_check` with what it calls: `is_request`, `log_make` and `split_and_check`. -/
namespace OctopusWaf
open CMachine CString

def is_request (ptr : List UInt8) : Bool :=
  if readAt ptr 0 = 32 then false
  else if readAt ptr 1 = 32 then false
  else if strnlen ptr 12 < 10 then false
  else memcmpEq ptr (ascii "GET") 3 || memcmpEq ptr (ascii "POST") 4 ||
    memcmpEq ptr (ascii "PUT") 3 || memcmpEq ptr (ascii "DELETE") 6

/-- What `fprintf` appends to the log file. -/
def write_log (str : List UInt8) : List UInt8 := str ++ ascii "\n"

/-- `data` is printed up to its terminator, the record cut at `len_log - 1` bytes. -/
def log_make (mode addr_ip data : List UInt8) (len_data : ℕ) : List UInt8 :=
  let len_log := len_data + addr_ip.length + (25 + mode.length)
  write_log ((ascii "Mode: " ++ mode ++ ascii "\nIP addr: " ++ addr_ip ++ ascii "\nData: " ++
    cstr data ++ ascii "\n").take (len_log - 1))

/-- Tokenises the buffer in place and leaves it so. -/
def split_and_check (input : List UInt8) (lambda : List UInt8 → Bool) :
    Except Trap (Bool × List UInt8) :=
  scanTokens newline (fun ptr => .ok (lambda ptr)) input

/-- What one call of `filter_check` finds outside its arguments: the memory after the
unterminated copy of the input and after the decoded text, and the address text, null
where `bufferevent_get_addr` returns none. -/
structure Seen where
  afterData : List UInt8
  afterTmpbuf : List UInt8
  addr_ip : Option (List UInt8)
  deriving DecidableEq

/-- An address, and zero bytes wherever memory is read past a buffer. -/
def seenAt (addr_ip : List UInt8) : Seen := ⟨[], [], some addr_ip⟩

/-- The verdict with the two things a call leaves behind. -/
structure Inspection where
  test : Bool
  block_addr_list : List UInt8
  log : List UInt8
  deriving DecidableEq

/-- The decoded buffer, read from its start into whatever follows it. Writes past the
allocated size land there too. -/
def tmpbuf (input : List UInt8) (seen : Seen) : List UInt8 :=
  let data := input ++ seen.afterData
  (urldecode data (strnlen data 6128)).written ++ seen.afterTmpbuf

/-- `if (param.logfile) log_make(...)` for one detector. -/
def logHit (param : Choice) (hit : Bool) (mode : List UInt8) (addr_ip : Option (List UInt8))
    (data : List UInt8) (len : ℕ) : Except Trap (List UInt8) :=
  if hit = true ∧ param.logfile.isSome = true then
    match addr_ip with
    | none => .error .nullPointer
    | some addr_ip => .ok (log_make mode addr_ip data len)
  else .ok []

/-- The detectors as `param` enables them: the match list, libinjection line by line with
the buffer as it leaves it, and the regular expressions. -/
def algorithmTest (ar : IntArith) (e : Engines) (param : Choice) (buf : List UInt8)
    (len_tmp : ℕ) : Except Trap Bool :=
  if param.option_algorithm ≠ 0 then matchlist ar e param buf len_tmp param.option_algorithm
  else .ok false

def sqliTest (e : Engines) (param : Choice) (buf : List UInt8) :
    Except Trap (Bool × List UInt8) :=
  if param.libinjection_sqli then split_and_check buf (libinjection_test_sqli e)
  else .ok (false, buf)

def regexTest (ar : IntArith) (e : Engines) (param : Choice) (buf : List UInt8)
    (len_tmp : ℕ) : Except Trap Bool :=
  if param.pcre then matchlist ar e param buf len_tmp 4 else .ok false

def filter_check (ar : IntArith) (e : Engines) (param : Choice) (input : List UInt8)
    (seen : Seen) : Except Trap Inspection :=
  let data := input ++ seen.afterData
  let len := input.length
  let buf := tmpbuf input seen
  let len_tmp := strnlen buf 6128
  if is_request buf then do
    let (byAddress, block_addr_list) ← blocklist_ip param.block_addr_list seen.addr_ip
    let log₁ ← logHit param byAddress (ascii "Block per address") seen.addr_ip (ascii " ") 1
    let byMatch ← algorithmTest ar e param buf len_tmp
    let log₂ ← logHit param byMatch (ascii "Algorithm match") seen.addr_ip data len
    let (bySqli, left) ← sqliTest e param buf
    let log₃ ← logHit param bySqli (ascii "Libinejction SQLi match") seen.addr_ip data len
    -- the expressions are run over what the tokeniser has left, up to the old length
    let byRegex ← regexTest ar e param left len_tmp
    let log₄ ← logHit param byRegex (ascii "Lib PCRE match per regex") seen.addr_ip data len
    .ok ⟨byAddress || byMatch || bySqli || byRegex, block_addr_list, log₁ ++ log₂ ++ log₃ ++ log₄⟩
  else .ok ⟨false, param.block_addr_list, []⟩

/-- The value `filter_check` returns. -/
def verdict (ar : IntArith) (e : Engines) (param : Choice) (input : List UInt8) (seen : Seen) :
    Except Trap Bool :=
  Inspection.test <$> filter_check ar e param input seen

/-- The detectors after the block list, as they run one after the other. -/
def detect (ar : IntArith) (e : Engines) (param : Choice) (buf : List UInt8) :
    Except Trap Bool := do
  let byMatch ← algorithmTest ar e param buf (strnlen buf 6128)
  let (bySqli, left) ← sqliTest e param buf
  let byRegex ← regexTest ar e param left (strnlen buf 6128)
  .ok (byMatch || bySqli || byRegex)

/-- A record needs the address, and is written only where a log file is set. -/
def Loggable (param : Choice) (seen : Seen) : Prop :=
  seen.addr_ip = none → param.logfile = none

theorem loggable_some {param : Choice} {seen : Seen} {addr : List UInt8}
    (haddr : seen.addr_ip = some addr) : Loggable param seen := by
  intro hnone
  simp [haddr] at hnone

theorem logHit_loggable {param : Choice} {seen : Seen} (h : Loggable param seen) (hit : Bool)
    (mode data : List UInt8) (len : ℕ) :
    ∃ log, logHit param hit mode seen.addr_ip data len = .ok log := by
  unfold logHit
  cases haddr : seen.addr_ip with
  | none => simp [h haddr]
  | some addr =>
    split_ifs
    · exact ⟨_, rfl⟩
    · exact ⟨_, rfl⟩

/-- A hit that cannot be recorded stops the program. -/
theorem logHit_not_loggable {param : Choice} {seen : Seen} (h : ¬ Loggable param seen)
    (hit : Bool) (mode data : List UInt8) (len : ℕ) :
    logHit param hit mode seen.addr_ip data len =
      if hit = true then .error .nullPointer else .ok [] := by
  obtain ⟨haddr, hlog⟩ := Classical.not_imp.mp h
  simp [logHit, haddr, Option.isSome_iff_ne_none, hlog]

theorem no_hit_of_not_loggable {param : Choice} {seen : Seen} {hit : Bool}
    {mode data log : List UInt8} {len : ℕ} (h : ¬ Loggable param seen)
    (hl : logHit param hit mode seen.addr_ip data len = .ok log) : hit = false := by
  rw [logHit_not_loggable h] at hl
  cases hit with
  | true => contradiction
  | false => rfl

theorem filter_check_rejected (ar : IntArith) (e : Engines) (param : Choice)
    (input : List UInt8) {seen : Seen} (hreq : is_request (tmpbuf input seen) = false) :
    filter_check ar e param input seen = .ok ⟨false, param.block_addr_list, []⟩ := by
  unfold filter_check
  simp [hreq]

end OctopusWaf
