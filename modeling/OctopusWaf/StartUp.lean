import OctopusWaf.PeerAddress

/-! From the command line to the listening socket: `parser_opts`, `load_all_rules`,
`start_octopus_server` and `main`. What the C library, libevent and OpenSSL answer is part of the
system the program is started on. -/
namespace OctopusWaf
open CString

/-- An option as `getopt_long` reports it. -/
inductive Opt where
  | host (optarg : List UInt8)
  | redirect (optarg : List UInt8)
  | log (optarg : List UInt8)
  | debug
  | algorithm (optarg : List UInt8)
  | sqli
  | pcre
  | unknown (optopt : UInt8)
  deriving DecidableEq

/-- How a start ends that comes to no listener. -/
inductive Stop where
  | die (msg : String)
  | nullPointer
  deriving DecidableEq

/-- The fields of `struct choice`, those that only the start reads beside the others. -/
structure Config where
  hostarg : Option (List UInt8)
  redirectarg : Option (List UInt8)
  debug : Bool
  choice : Choice
  deriving DecidableEq

/-- `param` is a global variable. -/
def Config.zeroed : Config := ⟨none, none, false, matchOnly [] 0⟩

structure System where
  getopt_long : List (List UInt8) → List Opt
  read_lines : String → Except String (List UInt8)
  signal : Bool
  evutil_parse_sockaddr_port : List UInt8 → Option SockAddr
  event_base_new : Bool
  RAND_poll : Bool
  /-- The bytes of the pointer `sin` itself. -/
  sinPointer : Vector UInt8 8

def xstrndup (s : List UInt8) (n : ℕ) : List UInt8 := (cstr s).take n

/-- The name that `-m` gives is compared with its first ten characters. -/
def selectAlgorithm (options_match : ℕ) (optarg : List UInt8) : ℕ :=
  let algorithm := (cstr optarg).take 10
  let options_match := if strnstr algorithm (ascii "dfa") 3 then 1 else options_match
  let options_match := if strnstr algorithm (ascii "horspool") 8 then 2 else options_match
  if strnstr algorithm (ascii "karp-rabin") 10 then 3 else options_match

/-- One turn of the option loop; `options_match` is kept from turn to turn. -/
def parseOption : ℕ × Config → Opt → Except Stop (ℕ × Config)
  | (k, param), .host optarg =>
    if strnlen optarg 256 > 6 then .ok (k, { param with hostarg := some (xstrndup optarg 256) })
    else .error (.die "Error at param host")
  | (k, param), .redirect optarg =>
    if strnlen optarg 256 > 6 then
      .ok (k, { param with redirectarg := some (xstrndup optarg 256) })
    else .error (.die "Error at param host to redirect")
  | (k, param), .log optarg =>
    if strnlen optarg 127 > 1 then
      .ok (k, { param with
        choice := { param.choice with logfile := some (xstrndup optarg 256) } })
    else .error (.die "Error at param log")
  | (k, param), .debug => .ok (k, { param with debug := true })
  | (k, param), .algorithm optarg =>
    if strnlen optarg 12 ≤ 11 then
      let options_match := selectAlgorithm k optarg
      if options_match = 0 then .error (.die "need match argv example --match dfa")
      else .ok (options_match, { param with
        choice := { param.choice with option_algorithm := options_match } })
    else .error (.die "Error at param algorithm to match")
  | (k, param), .sqli =>
    .ok (k, { param with choice := { param.choice with libinjection_sqli := true } })
  | (k, param), .pcre => .ok (k, { param with choice := { param.choice with pcre := true } })
  | (k, param), .unknown optopt =>
    if optopt = 104 ∨ optopt = 114 ∨ optopt = 109 then
      .error (.die "Try again using other argument...")
    else .ok (k, param)

def parser_opts (sys : System) (argv : List (List UInt8)) : Except Stop Config :=
  if argv.length < 6 then .error (.die "Need more argvs")
  else Prod.snd <$> (sys.getopt_long argv).foldlM parseOption (0, Config.zeroed)

def load_all_rules (sys : System) (param : Config) : Except Stop Config := do
  let regex_rules ← (sys.read_lines "config/regex_rules.txt").mapError .die
  let match_rules ← (sys.read_lines "config/match_list_request.txt").mapError .die
  let block_addr_list ← (sys.read_lines "config/blocklist_ip.txt").mapError .die
  .ok { param with choice := { param.choice with regex_rules, match_rules, block_addr_list } }

/-- The number at the start of a text, as `strtol` reads it. -/
def strtol (s : List UInt8) : ℤ :=
  let body := s.dropWhile fun c => c = 32 ∨ 9 ≤ c ∧ c ≤ 13
  let value (t : List UInt8) : ℤ :=
    (t.takeWhile isdigit).foldl (fun n c => 10 * n + (c.toNat - 48)) 0
  match body with
  | 45 :: t => max (-2 ^ 63) (-value t)
  | 43 :: t => min (2 ^ 63 - 1) (value t)
  | t => min (2 ^ 63 - 1) (value t)

/-- `unsigned short p = atoi(s)`: the conversions from `long` keep the low sixteen bits. -/
def portNumber (s : List UInt8) : ℕ := (strtol s % 2 ^ 16).toNat

/-- The bytes of memory from index `i` on replaced. -/
def overwrite (s : List UInt8) (i : ℕ) (b : List UInt8) : List UInt8 :=
  s.take i ++ (b ++ s.drop (i + b.length))

def sockaddr_storage_size : ℕ := 128

/-- `htonl(0x7f000001)` in memory. -/
def loopback : List UInt8 := [127, 0, 0, 1]

/-- What follows a host argument that `evutil_parse_sockaddr_port` rejects: a port is stored in
network order and the loopback address beside it, where a family is set. -/
def fallBackAddress (sys : System) (listen_on_addr : List UInt8) : List UInt8 :=
  let sin_family := (readAt listen_on_addr 0).toNat + 256 * (readAt listen_on_addr 1).toNat
  if sin_family = AF_INET then
    overwrite listen_on_addr 2 ([readAt listen_on_addr 3, readAt listen_on_addr 2] ++ loopback)
  else if sin_family = AF_INET6 then
    -- `sin6` is the address of the pointer `sin`, so the port comes from the pointer
    overwrite listen_on_addr 2 ([sys.sinPointer.get 3, sys.sinPointer.get 2] ++ loopback)
  else listen_on_addr

/-- What `evconnlistener_new_bind` is called with. -/
structure Listener where
  listen_on_addr : List UInt8
  socklen : ℕ
  deriving DecidableEq

/-- The first half of `start_octopus_server`. A parser that rejects its text leaves the
structure as it was. -/
def listenAddress (sys : System) (param : Config) : Except Stop Listener :=
  let zeroed := List.replicate sockaddr_storage_size 0
  match param.hostarg with
  | none => .error .nullPointer
  | some hostarg =>
    match sys.evutil_parse_sockaddr_port hostarg with
    | some addr => .ok ⟨overwrite zeroed 0 addr.image, addr.image.length⟩
    | none =>
      if portNumber hostarg < 1 then .error (.die "Port is not ok")
      else .ok ⟨fallBackAddress sys zeroed, 16⟩

def connectAddress (sys : System) (param : Config) : Except Stop SockAddr :=
  match param.redirectarg with
  | none => .error .nullPointer
  | some redirectarg =>
    match sys.evutil_parse_sockaddr_port redirectarg with
    | some addr => .ok addr
    | none => .error (.die "Port is not ok in argv")

/-- Up to the call of `evconnlistener_new_bind`. -/
def start_octopus_server (sys : System) (param : Config) : Except Stop Listener := do
  if sys.signal = false then .error (.die "Program closes")
  else do
    let listener ← listenAddress sys param
    let _ ← connectAddress sys param
    if sys.event_base_new = false then .error (.die "Try again...")
    else if sys.RAND_poll = false then .error (.die "Try again...")
    else .ok listener

def main (sys : System) (argv : List (List UInt8)) : Except Stop Listener := do
  let param ← parser_opts sys argv
  let param ← load_all_rules sys param
  start_octopus_server sys param

/-- The option passes the check made for it, after `options_match` was set to `k`. -/
def Opt.Accepted (k : ℕ) : Opt → Prop
  | .host optarg | .redirect optarg => 6 < strnlen optarg 256
  | .log optarg => 1 < strnlen optarg 127
  | .algorithm optarg => strnlen optarg 12 ≤ 11 ∧ selectAlgorithm k optarg ≠ 0
  | .unknown optopt => ¬ (optopt = 104 ∨ optopt = 114 ∨ optopt = 109)
  | .debug | .sqli | .pcre => True

/-- The value of `options_match` for the options after this one. -/
def Opt.next (k : ℕ) : Opt → ℕ
  | .algorithm optarg => selectAlgorithm k optarg
  | _ => k

def Accepted : ℕ → List Opt → Prop
  | _, [] => True
  | k, o :: opts => o.Accepted k ∧ Accepted (o.next k) opts

def Opt.host? : Opt → Option (List UInt8)
  | .host optarg => some (xstrndup optarg 256)
  | _ => none

def Opt.redirect? : Opt → Option (List UInt8)
  | .redirect optarg => some (xstrndup optarg 256)
  | _ => none

/-- What the last option gives that gives something. -/
def lastGiven (f : Opt → Option (List UInt8)) (init : Option (List UInt8)) (opts : List Opt) :
    Option (List UInt8) :=
  opts.foldl (fun current o => (f o).or current) init

theorem parseOption_accepted {k : ℕ} {o : Opt} (h : o.Accepted k) (param : Config) :
    ∃ param', parseOption (k, param) o = .ok (o.next k, param') ∧
      param'.hostarg = o.host?.or param.hostarg ∧
      param'.redirectarg = o.redirect?.or param.redirectarg := by
  cases o with
  | host optarg => exact ⟨_, if_pos h, rfl, rfl⟩
  | redirect optarg => exact ⟨_, if_pos h, rfl, rfl⟩
  | log optarg => exact ⟨_, if_pos h, rfl, rfl⟩
  | debug => exact ⟨_, rfl, rfl, rfl⟩
  | algorithm optarg => exact ⟨_, (if_pos h.1).trans (if_neg h.2), rfl, rfl⟩
  | sqli => exact ⟨_, rfl, rfl, rfl⟩
  | pcre => exact ⟨_, rfl, rfl, rfl⟩
  | unknown optopt => exact ⟨_, if_neg h, rfl, rfl⟩

theorem parseOption_refused {k : ℕ} {o : Opt} (h : ¬ o.Accepted k) (param : Config) :
    ∃ msg, parseOption (k, param) o = .error (.die msg) := by
  cases o with
  | host optarg => exact ⟨_, if_neg h⟩
  | redirect optarg => exact ⟨_, if_neg h⟩
  | log optarg => exact ⟨_, if_neg h⟩
  | debug => exact absurd trivial h
  | algorithm optarg =>
    by_cases hlen : strnlen optarg 12 ≤ 11
    · have hzero : selectAlgorithm k optarg = 0 := by
        by_contra hne
        exact h ⟨hlen, hne⟩
      exact ⟨_, (if_pos hlen).trans (if_pos hzero)⟩
    · exact ⟨_, if_neg hlen⟩
  | sqli => exact absurd trivial h
  | pcre => exact absurd trivial h
  | unknown optopt => exact ⟨_, if_pos (not_not.mp h)⟩

/-- The option loop stops at the first option that is refused, and otherwise leaves the
arguments given last. -/
theorem parseOptions_spec (opts : List Opt) (k : ℕ) (param : Config) :
    (Accepted k opts ∧ ∃ k' param', opts.foldlM parseOption (k, param) = .ok (k', param') ∧
      param'.hostarg = lastGiven Opt.host? param.hostarg opts ∧
      param'.redirectarg = lastGiven Opt.redirect? param.redirectarg opts) ∨
    (¬ Accepted k opts ∧ ∃ msg, opts.foldlM parseOption (k, param) = .error (.die msg)) := by
  induction opts generalizing k param with
  | nil => exact .inl ⟨trivial, k, param, rfl, rfl, rfl⟩
  | cons o opts ih =>
    by_cases ho : o.Accepted k
    · obtain ⟨param₁, hstep, hhost, hredirect⟩ := parseOption_accepted ho param
      rw [List.foldlM_cons, hstep]
      rcases ih (o.next k) param₁ with ⟨hrest, k', param', hrun, hhosts, hredirects⟩ |
        ⟨hrest, msg, hrun⟩
      · refine .inl ⟨⟨ho, hrest⟩, k', param', hrun, ?_, ?_⟩
        · rw [hhosts, hhost]
          rfl
        · rw [hredirects, hredirect]
          rfl
      · exact .inr ⟨fun h => hrest h.2, msg, hrun⟩
    · obtain ⟨msg, hstep⟩ := parseOption_refused ho param
      rw [List.foldlM_cons, hstep]
      exact .inr ⟨fun h => ho h.1, msg, rfl⟩

section Start

variable (sys : System)

def hostGiven (argv : List (List UInt8)) : Option (List UInt8) :=
  lastGiven Opt.host? none (sys.getopt_long argv)

def redirectGiven (argv : List (List UInt8)) : Option (List UInt8) :=
  lastGiven Opt.redirect? none (sys.getopt_long argv)

/-- The command line is long enough and every option on it passes its check. -/
def OptionsPass (argv : List (List UInt8)) : Prop :=
  6 ≤ argv.length ∧ Accepted 0 (sys.getopt_long argv)

theorem parser_opts_pass {argv : List (List UInt8)} (h : OptionsPass sys argv) :
    ∃ param, parser_opts sys argv = .ok param ∧ param.hostarg = hostGiven sys argv ∧
      param.redirectarg = redirectGiven sys argv := by
  rcases parseOptions_spec (sys.getopt_long argv) 0 Config.zeroed with
    ⟨-, k', param, hrun, hhost, hredirect⟩ | ⟨hrefused, -⟩
  · refine ⟨param, ?_, hhost, hredirect⟩
    rw [parser_opts, if_neg (by have := h.1; omega), hrun]
    rfl
  · exact absurd h.2 hrefused

theorem parser_opts_refused {argv : List (List UInt8)} (h : ¬ OptionsPass sys argv) :
    ∃ msg, parser_opts sys argv = .error (.die msg) := by
  unfold parser_opts
  split_ifs with hlen
  · exact ⟨_, rfl⟩
  · rcases parseOptions_spec (sys.getopt_long argv) 0 Config.zeroed with
      ⟨haccepted, -⟩ | ⟨-, msg, hrun⟩
    · exact absurd ⟨by omega, haccepted⟩ h
    · exact ⟨msg, by rw [hrun]; rfl⟩

/-- The three files of the configuration directory can be read. -/
def RulesLoad : Prop := ∀ file ∈ ["config/regex_rules.txt", "config/match_list_request.txt",
  "config/blocklist_ip.txt"], ∃ text, sys.read_lines file = .ok text

/-- Loading the rules leaves the arguments alone, or stops the program. -/
theorem load_all_rules_spec (param : Config) :
    (RulesLoad sys ∧ ∃ param', load_all_rules sys param = .ok param' ∧
      param'.hostarg = param.hostarg ∧ param'.redirectarg = param.redirectarg) ∨
    (¬ RulesLoad sys ∧ ∃ msg, load_all_rules sys param = .error (.die msg)) := by
  unfold load_all_rules RulesLoad
  simp only [List.forall_mem_cons, List.not_mem_nil, false_implies, implies_true, and_true]
  cases hregex : sys.read_lines "config/regex_rules.txt" with
  | error msg => exact .inr ⟨by simp, msg, rfl⟩
  | ok regex_rules =>
    cases hmatch : sys.read_lines "config/match_list_request.txt" with
    | error msg => exact .inr ⟨by simp, msg, rfl⟩
    | ok match_rules =>
      cases hblock : sys.read_lines "config/blocklist_ip.txt" with
      | error msg => exact .inr ⟨by simp, msg, rfl⟩
      | ok block_addr_list => exact .inl ⟨by simp, _, rfl, rfl, rfl⟩

variable {sys}

/-- The port in network order. -/
def portBytes (p : ℕ) : Vector UInt8 2 := #v[UInt8.ofNat (p / 256), UInt8.ofNat p]

variable (sys) in
/-- The address is the one the host argument was parsed to, or the loopback address with the
port number it gives if the parser rejects it. -/
def Listener.Configured (listener : Listener) (host : List UInt8) : Prop :=
  ∃ addr : SockAddr, listener.listen_on_addr.take listener.socklen = addr.image ∧
    (sys.evutil_parse_sockaddr_port host = some addr ∨
      sys.evutil_parse_sockaddr_port host = none ∧
        addr = .inet (portBytes (portNumber host)) #v[127, 0, 0, 1])

theorem listenAddress_parsed {param : Config} {host : List UInt8} {addr : SockAddr}
    (hhost : param.hostarg = some host) (hparse : sys.evutil_parse_sockaddr_port host = some addr) :
    ∃ listener, listenAddress sys param = .ok listener ∧ listener.Configured sys host := by
  refine ⟨⟨overwrite (List.replicate sockaddr_storage_size 0) 0 addr.image, addr.image.length⟩,
    by simp only [listenAddress, hhost, hparse], addr, ?_, .inl hparse⟩
  simp [overwrite]

theorem listenAddress_rejected {param : Config} {host : List UInt8}
    (hhost : param.hostarg = some host) (hparse : sys.evutil_parse_sockaddr_port host = none) :
    listenAddress sys param = if portNumber host < 1 then .error (.die "Port is not ok")
      else .ok ⟨List.replicate sockaddr_storage_size 0, 16⟩ := by
  have hzero : fallBackAddress sys (List.replicate sockaddr_storage_size 0) =
      List.replicate sockaddr_storage_size 0 := rfl
  simp only [listenAddress, hhost, hparse, hzero]

/-- The address of all zero bytes is none that could have been meant. -/
theorem not_configured_zeroed (host : List UInt8) :
    ¬ (⟨List.replicate sockaddr_storage_size 0, 16⟩ : Listener).Configured sys host := by
  rintro ⟨addr, himage, -⟩
  have hhead := congrArg (fun l => l.head?) himage
  cases addr <;> simp [SockAddr.image, sockaddr_storage_size] at hhead

section Server

variable {param : Config} {listener : Listener}

theorem start_without_redirect (hsignal : sys.signal = true)
    (hlisten : listenAddress sys param = .ok listener) (hredirect : param.redirectarg = none) :
    start_octopus_server sys param = .error .nullPointer := by
  simp [start_octopus_server, hsignal, hlisten, connectAddress, hredirect, bind, Except.bind]

/-- With a listening address, only the redirection and the libraries stand in the way. -/
theorem start_with_redirect (hsignal : sys.signal = true)
    (hlisten : listenAddress sys param = .ok listener) {redirect : List UInt8}
    (hredirect : param.redirectarg = some redirect) :
    start_octopus_server sys param =
      if sys.evutil_parse_sockaddr_port redirect = none then
        .error (.die "Port is not ok in argv")
      else if sys.event_base_new = false ∨ sys.RAND_poll = false then
        .error (.die "Try again...")
      else .ok listener := by
  cases hparse : sys.evutil_parse_sockaddr_port redirect with
  | none =>
    simp [start_octopus_server, hsignal, hlisten, connectAddress, hredirect, hparse, bind,
      Except.bind]
  | some addr =>
    cases hbase : sys.event_base_new <;> cases hrand : sys.RAND_poll <;>
      simp [start_octopus_server, hsignal, hlisten, connectAddress, hredirect, hparse, hbase,
        hrand, bind, Except.bind]

theorem start_of_error {stop : Stop} (hsignal : sys.signal = true)
    (hlisten : listenAddress sys param = .error stop) :
    start_octopus_server sys param = .error stop := by
  simp [start_octopus_server, hsignal, hlisten, bind, Except.bind]

variable (sys param) in
/-- The server stops with a message, or has both arguments and listens where they say. -/
def ServerComplete : Prop :=
  (∃ msg, start_octopus_server sys param = .error (.die msg)) ∨
    ∃ listener host redirect, param.hostarg = some host ∧ param.redirectarg = some redirect ∧
      start_octopus_server sys param = .ok listener ∧ listener.Configured sys host

/-- Nothing past the parsing of `redirect` gets in the way of the listener. -/
def Redirects (sys : System) (redirect : List UInt8) : Prop :=
  sys.evutil_parse_sockaddr_port redirect ≠ none ∧ sys.event_base_new = true ∧
    sys.RAND_poll = true

theorem start_with_redirect_cases (hsignal : sys.signal = true)
    (hlisten : listenAddress sys param = .ok listener) {redirect : List UInt8}
    (hredirect : param.redirectarg = some redirect) :
    Redirects sys redirect ∧ start_octopus_server sys param = .ok listener ∨
      ¬ Redirects sys redirect ∧ ∃ msg, start_octopus_server sys param = .error (.die msg) := by
  rw [start_with_redirect hsignal hlisten hredirect]
  unfold Redirects
  split_ifs with hparse hlibrary
  · exact .inr ⟨fun h => h.1 hparse, _, rfl⟩
  · refine .inr ⟨fun h => ?_, _, rfl⟩
    simp [h.2.1, h.2.2] at hlibrary
  · refine .inl ⟨⟨hparse, ?_⟩, rfl⟩
    simpa using hlibrary

theorem server_complete_parsed (hsignal : sys.signal = true) {host : List UInt8}
    {addr : SockAddr} (hhost : param.hostarg = some host)
    (hparse : sys.evutil_parse_sockaddr_port host = some addr) :
    ServerComplete sys param ↔ param.redirectarg ≠ none := by
  obtain ⟨listener, hlisten, hconfigured⟩ := listenAddress_parsed hhost hparse
  cases hredirect : param.redirectarg with
  | none =>
    have hstart := start_without_redirect hsignal hlisten hredirect
    simp [ServerComplete, hstart]
  | some redirect =>
    refine iff_of_true ?_ (by simp)
    rcases start_with_redirect_cases hsignal hlisten hredirect with ⟨-, hstart⟩ | ⟨-, hstop⟩
    · exact .inr ⟨listener, host, redirect, hhost, hredirect, hstart, hconfigured⟩
    · exact .inl hstop

theorem server_complete_rejected (hsignal : sys.signal = true) {host : List UInt8}
    (hhost : param.hostarg = some host)
    (hparse : sys.evutil_parse_sockaddr_port host = none) :
    ServerComplete sys param ↔ portNumber host < 1 ∨
      ∃ redirect, param.redirectarg = some redirect ∧ ¬ Redirects sys redirect := by
  have hlisten := listenAddress_rejected hhost hparse
  by_cases hport : portNumber host < 1
  · rw [if_pos hport] at hlisten
    exact iff_of_true (.inl ⟨_, start_of_error hsignal hlisten⟩) (.inl hport)
  · rw [if_neg hport] at hlisten
    rw [or_iff_right hport]
    cases hredirect : param.redirectarg with
    | none =>
      have hstart := start_without_redirect hsignal hlisten hredirect
      simp [ServerComplete, hstart]
    | some redirect =>
      simp only [Option.some.injEq, exists_eq_left']
      rcases start_with_redirect_cases hsignal hlisten hredirect with
        ⟨hall, hstart⟩ | ⟨hnot, hstop⟩
      · -- the listener would be opened on an address that nobody gave
        refine iff_of_false ?_ (fun h => h hall)
        rintro (⟨msg, hstop⟩ | ⟨listener, host', -, -, -, hok, hconfigured⟩)
        · rw [hstart] at hstop
          contradiction
        · rw [hstart] at hok
          obtain rfl := Except.ok.inj hok
          exact not_configured_zeroed host' hconfigured
      · exact iff_of_true (.inl hstop) hnot

variable (sys) in
/-- What a start with these arguments needs in order to be complete. -/
def ServerCondition (host redirect : Option (List UInt8)) : Prop :=
  sys.signal = false ∨ ∃ hostarg, host = some hostarg ∧
    (sys.evutil_parse_sockaddr_port hostarg ≠ none ∧ redirect ≠ none ∨
      sys.evutil_parse_sockaddr_port hostarg = none ∧ (portNumber hostarg < 1 ∨
        ∃ redirectarg, redirect = some redirectarg ∧ ¬ Redirects sys redirectarg))

theorem server_complete_iff :
    ServerComplete sys param ↔ ServerCondition sys param.hostarg param.redirectarg := by
  unfold ServerCondition
  by_cases hsignal : sys.signal = false
  · have hstop : start_octopus_server sys param = .error (.die "Program closes") := by
      simp [start_octopus_server, hsignal]
    exact iff_of_true (.inl ⟨_, hstop⟩) (.inl hsignal)
  · rw [or_iff_right hsignal]
    have hsignal' : sys.signal = true := by simpa using hsignal
    cases hhost : param.hostarg with
    | none =>
      have hlisten : listenAddress sys param = .error .nullPointer := by
        simp only [listenAddress, hhost]
      simp [ServerComplete, start_of_error hsignal' hlisten, hhost]
    | some host =>
      simp only [Option.some.injEq, exists_eq_left']
      cases hparse : sys.evutil_parse_sockaddr_port host with
      | none => simpa using server_complete_rejected hsignal' hhost hparse
      | some addr => simpa using server_complete_parsed hsignal' hhost hparse

end Server

variable (sys) in
/-- The program stops with a message before it listens, or both arguments are set and it listens
where they say. -/
def StartComplete (argv : List (List UInt8)) : Prop :=
  (∃ msg, main sys argv = .error (.die msg)) ∨
    ∃ param listener host redirect, parser_opts sys argv = .ok param ∧
      param.hostarg = some host ∧ param.redirectarg = some redirect ∧
      main sys argv = .ok listener ∧ listener.Configured sys host

end Start

/-- A start is complete exactly if the options or the rule files stop it, or else both arguments
are given and the host argument is an address. If it is none, the port number it begins with has
to be zero, or the redirection has to stop the program. -/
theorem start_complete_iff (sys : System) (argv : List (List UInt8)) :
    StartComplete sys argv ↔ ¬ OptionsPass sys argv ∨ ¬ RulesLoad sys ∨
      ServerCondition sys (hostGiven sys argv) (redirectGiven sys argv) := by
  by_cases hpass : OptionsPass sys argv
  · obtain ⟨param, hparsed, hhost, hredirect⟩ := parser_opts_pass sys hpass
    rw [or_iff_right (not_not.mpr hpass)]
    rcases load_all_rules_spec sys param with
      ⟨hload, param', hloaded, hhost', hredirect'⟩ | ⟨hload, msg, hloaded⟩
    · have hmain : main sys argv = start_octopus_server sys param' := by
        simp only [main, hparsed, hloaded, bind, Except.bind]
      rw [or_iff_right (not_not.mpr hload), ← hhost, ← hredirect, ← hhost', ← hredirect',
        ← server_complete_iff]
      simp [StartComplete, ServerComplete, hmain, hparsed, hhost', hredirect']
    · have hmain : main sys argv = .error (.die msg) := by
        simp only [main, hparsed, hloaded, bind, Except.bind]
      exact iff_of_true (.inl ⟨msg, hmain⟩) (.inl hload)
  · obtain ⟨msg, hstop⟩ := parser_opts_refused sys hpass
    have hmain : main sys argv = .error (.die msg) := by
      simp only [main, hstop, bind, Except.bind]
    exact iff_of_true (.inl ⟨msg, hmain⟩) (.inl hpass)

/-- A system on which the rule files can be read and only `127.0.0.1:80` is an address. -/
def plainSystem (opts : List Opt) : System where
  getopt_long _ := opts
  read_lines _ := .ok (ascii "127.0.0.3\n")
  signal := true
  evutil_parse_sockaddr_port text :=
    if text = ascii "127.0.0.1:80" then some (.inet #v[0, 80] #v[127, 0, 0, 1]) else none
  event_base_new := true
  RAND_poll := true
  sinPointer := Vector.replicate 8 0

/-- Without a host argument a null pointer is parsed; a host argument that is no address, but
begins with a number, is bound to an address without a family. -/
theorem start_incomplete :
    main (plainSystem (List.replicate 5 .debug))
        (ascii "OctopusWAF" :: List.replicate 5 (ascii "--debug")) = .error .nullPointer ∧
      main (plainSystem [.host (ascii "8090abc"), .redirect (ascii "127.0.0.1:80"), .debug])
          [ascii "OctopusWAF", ascii "-h", ascii "8090abc", ascii "-r", ascii "127.0.0.1:80",
            ascii "--debug"] =
        .ok ⟨List.replicate 128 0, 16⟩ := by
  decide +kernel

end OctopusWaf
