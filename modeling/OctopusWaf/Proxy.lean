import OctopusWaf.FilterCheck
import OctopusWaf.Library.Execution

/-! The callbacks of `proxy.c` over a heap of bufferevents, and the event loop that calls
them. Buffers keep their bytes, flags and watermarks as libevent does; the fields after
`output` only record what happened and no callback reads them. -/
namespace OctopusWaf
open CMachine CString

def MAX_OUTPUT : ℕ := 512 * 1024

inductive Side where
  | client | upstream
  deriving DecidableEq, Repr

def Side.other : Side → Side
  | .client => .upstream
  | .upstream => .client

/-- A bufferevent, named by the accepted connection it was made for and its side of it. -/
structure BevId where
  conn : ℕ
  side : Side
  deriving DecidableEq, Repr

/-- The bufferevent made together with this one. -/
def BevId.peer (b : BevId) : BevId := ⟨b.conn, b.side.other⟩

@[simp] theorem BevId.peer_peer (b : BevId) : b.peer.peer = b := by
  obtain ⟨c, s⟩ := b
  cases s <;> rfl

@[simp] theorem BevId.peer_ne (b : BevId) : b.peer ≠ b := by
  obtain ⟨c, s⟩ := b
  cases s <;> simp [BevId.peer, Side.other]

@[simp] theorem BevId.ne_peer (b : BevId) : b ≠ b.peer := b.peer_ne.symm

inductive WriteCb where
  | drained_writecb | close_on_finished_writecb
  deriving DecidableEq, Repr

/-- What an output buffer was given: bytes moved from the other side, or a block page. -/
inductive Chunk where
  | relayed (bytes : List UInt8)
  | page
  deriving DecidableEq

def blockPage : List UInt8 := ascii
  ("HTTP/1.1 404 Not Found\r\n" ++ "Content-type: text/html\r\n" ++ "\r\n" ++ "<html>\r\n" ++
    " <body>\r\n" ++ "  <h1>Blocked</h1>\r\n" ++
    "  <p>The requested URL was not found on this server.</p>\r\n" ++ " </body>\r\n" ++
    "</html>\r\n")

def Chunk.bytes : Chunk → List UInt8
  | .relayed bytes => bytes
  | .page => blockPage

/-- The relayed part of a queue, without the block pages. -/
def Chunk.relayedBytes : Chunk → List UInt8
  | .relayed bytes => bytes
  | .page => []

structure Bev where
  live : Bool
  readcb : Bool
  writecb : Option WriteCb
  cbarg : Option BevId
  reading : Bool
  wmLow : ℕ
  wmHigh : ℕ
  input : List UInt8
  output : List UInt8
  -- everything that ever arrived, was moved on, was queued for output and was written
  arrived : List UInt8
  taken : List UInt8
  queued : List Chunk
  written : List UInt8
  -- the last bytes `readcb` judged with its verdict, and what it saw when it last blocked
  judged : Option (List UInt8 × Bool)
  blocked : Option Seen
  -- data has arrived since `readcb` last ran; an EOF or error event was delivered
  pending : Bool
  reported : Bool

/-- A bufferevent as it comes from `bufferevent_socket_new`. -/
def Bev.fresh : Bev where
  live := true
  readcb := false
  writecb := none
  cbarg := none
  reading := false
  wmLow := 0
  wmHigh := 0
  input := []
  output := []
  arrived := []
  taken := []
  queued := []
  written := []
  judged := none
  blocked := none
  pending := false
  reported := false

structure World where
  bevs : BevId → Bev
  next : ℕ
  param : Choice
  log : List UInt8

def World.initial (param : Choice) : World where
  bevs _ := { Bev.fresh with live := false }
  next := 0
  param := param
  log := []

/-- A callback is cut short by the program's end or by the use of a freed bufferevent. -/
inductive Fault where
  | stopped (trap : Trap)
  | freed (b : BevId)
  deriving DecidableEq, Repr

/-- The record behind a bufferevent pointer. -/
def World.get (w : World) (b : BevId) : Except Fault Bev :=
  if (w.bevs b).live then .ok (w.bevs b) else .error (.freed b)

def World.modify (w : World) (b : BevId) (f : Bev → Bev) : Except Fault World :=
  if (w.bevs b).live then .ok { w with bevs := Function.update w.bevs b (f (w.bevs b)) }
  else .error (.freed b)

def Bev.setcb (x : Bev) (readcb : Bool) (writecb : Option WriteCb) (cbarg : Option BevId) : Bev :=
  { x with readcb := readcb, writecb := writecb, cbarg := cbarg }

def Bev.setwatermark (x : Bev) (low high : ℕ) : Bev := { x with wmLow := low, wmHigh := high }

def Bev.setReading (x : Bev) (on : Bool) : Bev := { x with reading := on }

def Bev.free (x : Bev) : Bev := { x with live := false }

/-- Append to the output buffer. -/
def Bev.queue (x : Bev) (c : Chunk) : Bev :=
  { x with output := x.output ++ c.bytes, queued := x.queued ++ [c] }

/-- The whole input leaves for the other side. -/
def Bev.give (x : Bev) : Bev := { x with input := [], taken := x.taken ++ x.input }

/-- Record a verdict on the pending input. -/
def Bev.judge (x : Bev) (test : Bool) (seen : Seen) : Bev :=
  { x with judged := some (x.input, test), blocked := if test then some seen else x.blocked }

def bufferevent_setcb (w : World) (b : BevId) (readcb : Bool) (writecb : Option WriteCb)
    (cbarg : Option BevId) : Except Fault World :=
  w.modify b fun x => x.setcb readcb writecb cbarg

def bufferevent_setwatermark (w : World) (b : BevId) (low high : ℕ) : Except Fault World :=
  w.modify b fun x => x.setwatermark low high

def bufferevent_enable (w : World) (b : BevId) : Except Fault World :=
  w.modify b fun x => x.setReading true

def bufferevent_disable (w : World) (b : BevId) : Except Fault World :=
  w.modify b fun x => x.setReading false

def bufferevent_free (w : World) (b : BevId) : Except Fault World := w.modify b Bev.free

def evbuffer_add_buffer (w : World) (dst src : BevId) : Except Fault World := do
  let x ← w.get src
  let w ← w.modify dst fun y => y.queue (.relayed x.input)
  w.modify src Bev.give

def block_msg (w : World) (bev : BevId) : Except Fault World := do
  let w ← w.modify bev fun x => x.queue .page
  let w ← bufferevent_setwatermark w bev (MAX_OUTPUT / 2) MAX_OUTPUT
  bufferevent_disable w bev

/-- What an inspection leaves behind in the process. -/
def World.inspected (w : World) (r : Inspection) : World :=
  { w with param.block_addr_list := r.block_addr_list, log := w.log ++ r.log }

def stopOnTrap {α : Type} : Except Trap α → Except Fault α
  | .ok a => .ok a
  | .error t => .error (.stopped t)

def readcb (ar : IntArith) (e : Engines) (w : World) (bev : BevId) (ctx : Option BevId)
    (seen : Seen) : Except Fault World := do
  let x ← w.get bev
  match ctx with
  | none => w.modify bev fun x => { x with input := [] }
  | some partner =>
    let r ← stopOnTrap (filter_check ar e w.param x.input seen)
    let w := w.inspected r
    let w ← w.modify bev fun x => x.judge r.test seen
    if r.test then block_msg w bev
    else
      let w ← evbuffer_add_buffer w partner bev
      let dst ← w.get partner
      if dst.output.length ≥ MAX_OUTPUT then
        let w ← bufferevent_setcb w partner true (some .drained_writecb) (some bev)
        let w ← bufferevent_setwatermark w partner (MAX_OUTPUT / 2) MAX_OUTPUT
        bufferevent_disable w bev
      else .ok w

def drained_writecb (w : World) (bev : BevId) (ctx : Option BevId) : Except Fault World := do
  let w ← bufferevent_setcb w bev true none ctx
  let w ← bufferevent_setwatermark w bev 0 0
  match ctx with
  | some partner => bufferevent_enable w partner
  | none => .ok w

def close_on_finished_writecb (w : World) (bev : BevId) : Except Fault World := do
  let x ← w.get bev
  if x.output.length = 0 then bufferevent_free w bev else .ok w

def BEV_EVENT_EOF : ℕ := 0x10
def BEV_EVENT_ERROR : ℕ := 0x20

/-- `what & (BEV_EVENT_EOF|BEV_EVENT_ERROR)`. -/
def closes (what : ℕ) : Bool := what &&& (BEV_EVENT_EOF ||| BEV_EVENT_ERROR) ≠ 0

def eventcb (ar : IntArith) (e : Engines) (w : World) (bev : BevId) (what : ℕ)
    (ctx : Option BevId) (seen : Seen) : Except Fault World := do
  if closes what then
    match ctx with
    | none => bufferevent_free w bev
    | some partner =>
      let w ← readcb ar e w bev ctx seen
      let dst ← w.get partner
      let w ←
        if dst.output.length ≠ 0 then do
          let w ← bufferevent_setcb w partner false (some .close_on_finished_writecb) none
          bufferevent_disable w partner
        else bufferevent_free w partner
      bufferevent_free w bev
  else .ok w

/-- `ssl_ctx` is a static of each translation unit and never set in this one, so only
plain sockets are made. -/
def accept_cb (w : World) (connected : Bool) : Except Fault World := do
  let b_in : BevId := ⟨w.next, .client⟩
  let b_out : BevId := ⟨w.next, .upstream⟩
  let w := { w with
    bevs := fun b => if b.conn = w.next then Bev.fresh else w.bevs b
    next := w.next + 1 }
  if connected then
    let w ← bufferevent_setcb w b_in true none (some b_out)
    let w ← bufferevent_setcb w b_out true none (some b_in)
    let w ← bufferevent_enable w b_in
    bufferevent_enable w b_out
  else
    let w ← bufferevent_free w b_out
    bufferevent_free w b_in

/-- What the event loop does next: accept a connection, move bytes from or to a socket,
or run a callback with the functions and argument last installed. -/
inductive Action where
  | accept (connected : Bool)
  | arrive (b : BevId) (bytes : List UInt8)
  | send (b : BevId) (n : ℕ)
  | read (b : BevId) (seen : Seen)
  | writable (b : BevId)
  | event (b : BevId) (what : ℕ) (seen : Seen)
  deriving DecidableEq

/-- Bytes read from the socket. -/
def Bev.arrive (x : Bev) (bytes : List UInt8) : Bev :=
  { x with input := x.input ++ bytes, arrived := x.arrived ++ bytes, pending := true }

/-- Up to `n` bytes written to the socket. -/
def Bev.send (x : Bev) (n : ℕ) : Bev :=
  { x with output := x.output.drop n, written := x.written ++ x.output.take n }

def Bev.startRead (x : Bev) : Bev := { x with pending := false }

def Bev.report (x : Bev) (closed : Bool) : Bev := { x with reported := x.reported || closed }

def step (ar : IntArith) (e : Engines) (w : World) : Action → Except Fault World
  | .accept connected => accept_cb w connected
  | .arrive b bytes => w.modify b fun x => x.arrive bytes
  | .send b n => w.modify b fun x => x.send n
  | .read b seen => do
    let w ← w.modify b Bev.startRead
    let x ← w.get b
    readcb ar e w b x.cbarg seen
  | .writable b => do
    let x ← w.get b
    match x.writecb with
    | none => .ok w
    | some .drained_writecb => drained_writecb w b x.cbarg
    | some .close_on_finished_writecb => close_on_finished_writecb w b
  | .event b what seen => do
    let w ← w.modify b fun x => x.report (closes what)
    let x ← w.get b
    eventcb ar e w b what x.cbarg seen

/-- A freed bufferevent gets no callback, and a callback runs only where one is installed. -/
def Enabled (w : World) : Action → Prop
  | .accept _ => True
  | .arrive b bytes => (w.bevs b).live = true ∧ bytes ≠ []
  | .send b _ => (w.bevs b).live = true
  | .read b _ => (w.bevs b).live = true ∧ (w.bevs b).readcb = true
  | .writable b => (w.bevs b).live = true ∧ (w.bevs b).writecb.isSome = true
  | .event b _ _ => (w.bevs b).live = true

/-- The event loop reads a socket only where reading is enabled, and calls `readcb` only
for data that has arrived. -/
def EventLoop (w : World) (a : Action) : Prop :=
  Enabled w a ∧ match a with
    | .arrive b _ => (w.bevs b).reading = true
    | .read b _ => (w.bevs b).pending = true
    | _ => True

instance (w : World) : (a : Action) → Decidable (Enabled w a)
  | .accept _ => inferInstanceAs (Decidable True)
  | .arrive _ _ | .read _ _ | .writable _ => inferInstanceAs (Decidable (_ ∧ _))
  | .send _ _ | .event _ _ _ => inferInstanceAs (Decidable (_ = _))

instance (w : World) : (a : Action) → Decidable (EventLoop w a)
  | .arrive _ _ | .read _ _ => inferInstanceAs (Decidable (_ ∧ _ = _))
  | .accept _ | .send _ _ | .writable _ | .event _ _ _ => inferInstanceAs (Decidable (_ ∧ True))

/-- The bufferevent whose input an action has inspected, and what the inspection sees. -/
def inspects (w : World) : Action → Option (BevId × Seen)
  | .read b seen => some (b, seen)
  | .event b what seen =>
    if closes what = true ∧ (w.bevs b).cbarg ≠ none then some (b, seen) else none
  | _ => none

/-- The client side of the first connection accepted. -/
def firstClient : BevId := ⟨0, .client⟩

/-- A request from it that the client closes its side after. -/
def requestAndClose (request addr : List UInt8) : List Action :=
  [.accept true, .arrive firstClient request, .read firstClient (seenAt addr),
    .event firstClient BEV_EVENT_EOF (seenAt addr)]

end OctopusWaf
