import OctopusWaf.Proxy

/-! What each callback does to the two bufferevents of a connection. Everything proved
about runs later rests on `step_effect` and never unfolds a callback again. -/
namespace OctopusWaf
open CMachine CString

/-- Both ends of one connection replaced. -/
def World.put (w : World) (b : BevId) (x y : Bev) : World :=
  { w with bevs := Function.update (Function.update w.bevs b x) b.peer y }

section Put

variable (w : World) (b : BevId) (x y : Bev)

theorem put_self : w.put b (w.bevs b) (w.bevs b.peer) = w := by
  simp [World.put]

@[simp] theorem put_bevs_self : (w.put b x y).bevs b = x := by simp [World.put]

@[simp] theorem put_bevs_peer : (w.put b x y).bevs b.peer = y := by simp [World.put]

theorem put_bevs_of_ne {i : BevId} (hi : i ≠ b) (hp : i ≠ b.peer) :
    (w.put b x y).bevs i = w.bevs i := by
  simp [World.put, hi, hp]

theorem put_comm : w.put b.peer y x = w.put b x y := by
  simp only [World.put, World.mk.injEq, BevId.peer_peer, and_true]
  exact Function.update_comm b.peer_ne y x w.bevs

@[simp] theorem put_param : (w.put b x y).param = w.param := rfl

theorem put_inspected (r : Inspection) :
    (w.put b x y).inspected r = (w.inspected r).put b x y := rfl

variable {x y}

@[simp] theorem get_put_self (hx : x.live = true) : (w.put b x y).get b = .ok x := by
  simp [World.get, hx]

@[simp] theorem get_put_peer (hy : y.live = true) : (w.put b x y).get b.peer = .ok y := by
  simp [World.get, hy]

@[simp] theorem modify_put_self (hx : x.live = true) (f : Bev → Bev) :
    (w.put b x y).modify b f = .ok (w.put b (f x) y) := by
  simp only [World.modify, put_bevs_self, hx, if_true]
  congr 1
  simp only [World.put, World.mk.injEq, and_true]
  rw [Function.update_comm b.peer_ne, Function.update_idem]

@[simp] theorem modify_put_peer (hy : y.live = true) (f : Bev → Bev) :
    (w.put b x y).modify b.peer f = .ok (w.put b x (f y)) := by
  simp only [World.modify, put_bevs_peer, hy, if_true]
  simp [World.put]

end Put

section Live

variable (x : Bev)

@[simp] theorem setcb_live (r : Bool) (c : Option WriteCb) (a : Option BevId) :
    (x.setcb r c a).live = x.live := rfl

@[simp] theorem setwatermark_live (low high : ℕ) : (x.setwatermark low high).live = x.live := rfl

@[simp] theorem setReading_live (on : Bool) : (x.setReading on).live = x.live := rfl

@[simp] theorem queue_live (c : Chunk) : (x.queue c).live = x.live := rfl

@[simp] theorem give_live : x.give.live = x.live := rfl

@[simp] theorem judge_live (test : Bool) (seen : Seen) : (x.judge test seen).live = x.live := rfl

@[simp] theorem judge_input (test : Bool) (seen : Seen) :
    (x.judge test seen).input = x.input := rfl

@[simp] theorem startRead_live : x.startRead.live = x.live := rfl

@[simp] theorem report_live (closed : Bool) : (x.report closed).live = x.live := rfl

end Live

/-- `block_msg` on a bufferevent. -/
def Bev.block (x : Bev) : Bev :=
  ((x.queue .page).setwatermark (MAX_OUTPUT / 2) MAX_OUTPUT).setReading false

/-- Reading of `b` waits until this side has drained. -/
def Bev.arm (y : Bev) (b : BevId) : Bev :=
  (y.setcb true (some .drained_writecb) (some b)).setwatermark (MAX_OUTPUT / 2) MAX_OUTPUT

/-- Whether the bytes fill this output buffer. -/
def Bev.fullWith (y : Bev) (bytes : List UInt8) : Bool := (y.output ++ bytes).length ≥ MAX_OUTPUT

/-- `readcb` on a bufferevent with a partner, by the verdict. -/
def readSelf (x y : Bev) (test : Bool) (seen : Seen) : Bev :=
  if test then (x.judge test seen).block
  else if y.fullWith x.input then ((x.judge test seen).give).setReading false
  else (x.judge test seen).give

def readPartner (b : BevId) (x y : Bev) (test : Bool) : Bev :=
  if test then y
  else if y.fullWith x.input then (y.queue (.relayed x.input)).arm b
  else y.queue (.relayed x.input)

/-- The three ways `readcb` can go. -/
theorem read_outcome (b : BevId) (x y : Bev) (test : Bool) (seen : Seen) :
    (test = true ∧ readSelf x y test seen = (x.judge true seen).block ∧
      readPartner b x y test = y) ∨
    (test = false ∧ readSelf x y test seen = (x.judge false seen).give.setReading false ∧
      readPartner b x y test = (y.queue (.relayed x.input)).arm b) ∨
    (test = false ∧ readSelf x y test seen = (x.judge false seen).give ∧
      readPartner b x y test = y.queue (.relayed x.input)) := by
  cases test with
  | true => exact .inl ⟨rfl, rfl, rfl⟩
  | false =>
    by_cases hfull : y.fullWith x.input = true
    · exact .inr (.inl (by simp [readSelf, readPartner, hfull]))
    · exact .inr (.inr (by simp [readSelf, readPartner, hfull]))

@[simp] theorem readSelf_live (x y : Bev) (test : Bool) (seen : Seen) :
    (readSelf x y test seen).live = x.live := by
  unfold readSelf
  split_ifs <;> rfl

@[simp] theorem readPartner_live (b : BevId) (x y : Bev) (test : Bool) :
    (readPartner b x y test).live = y.live := by
  unfold readPartner
  split_ifs <;> rfl

/-- What passes leaves the input empty and goes to the end of the partner's queue. -/
theorem readSelf_pass (x y : Bev) (seen : Seen) : (readSelf x y false seen).input = [] ∧
    (readSelf x y false seen).blocked = x.blocked := by
  unfold readSelf
  rw [if_neg (by simp)]
  split_ifs <;> exact ⟨rfl, rfl⟩

theorem readPartner_pass (b : BevId) (x y : Bev) :
    (readPartner b x y false).queued = y.queued ++ [.relayed x.input] := by
  unfold readPartner
  rw [if_neg (by simp)]
  split_ifs <;> rfl

theorem stopOnTrap_ok {α : Type} {x : Except Trap α} {a : α} (h : stopOnTrap x = .ok a) :
    x = .ok a := by
  cases x with
  | error t => contradiction
  | ok b => rw [Except.ok.inj h]

theorem block_msg_put (w : World) (b : BevId) {x y : Bev} (hx : x.live = true) :
    block_msg (w.put b x y) b = .ok (w.put b x.block y) := by
  simp [block_msg, bufferevent_setwatermark, bufferevent_disable, hx, bind, Except.bind, Bev.block]

theorem evbuffer_add_buffer_put (w : World) (b : BevId) {x y : Bev} (hx : x.live = true)
    (hy : y.live = true) :
    evbuffer_add_buffer (w.put b x y) b.peer b =
      .ok (w.put b x.give (y.queue (.relayed x.input))) := by
  simp [evbuffer_add_buffer, hx, hy, bind, Except.bind]

theorem readcb_put (ar : IntArith) (e : Engines) (w : World) (b : BevId) {x y : Bev}
    (hx : x.live = true) (hy : y.live = true) (seen : Seen) :
    readcb ar e (w.put b x y) b (some b.peer) seen =
      (fun r => (w.inspected r).put b (readSelf x y r.test seen) (readPartner b x y r.test)) <$>
        stopOnTrap (filter_check ar e w.param x.input seen) := by
  unfold readcb
  simp only [get_put_self w b hx, put_param, bind, Except.bind]
  cases stopOnTrap (filter_check ar e w.param x.input seen) with
  | error t => rfl
  | ok r =>
    dsimp only
    rw [put_inspected, modify_put_self _ _ hx]
    dsimp only
    cases ht : r.test with
    | true =>
      rw [if_pos rfl, block_msg_put _ _ (by simpa using hx)]
      simp [readSelf, readPartner, ht, Functor.map, Except.map]
    | false =>
      rw [if_neg (by simp), evbuffer_add_buffer_put _ _ (by simpa using hx) hy]
      dsimp only
      rw [get_put_peer _ _ (by simpa using hy)]
      dsimp only
      by_cases hfull : y.fullWith x.input = true
      · have hlen : (y.queue (.relayed (x.judge false seen).input)).output.length ≥ MAX_OUTPUT :=
          of_decide_eq_true hfull
        rw [if_pos hlen]
        simp [bufferevent_setcb, bufferevent_setwatermark, bufferevent_disable, hx, hy, ht,
          readSelf, readPartner, hfull, Bev.arm, Functor.map, Except.map]
      · have hlen : ¬ (y.queue (.relayed (x.judge false seen).input)).output.length ≥ MAX_OUTPUT :=
          fun h => hfull (decide_eq_true h)
        rw [if_neg hlen]
        simp [readSelf, readPartner, ht, hfull, Functor.map, Except.map]

/-- The drain is disarmed and the other side reads again. -/
def Bev.disarm (x : Bev) (b : BevId) : Bev :=
  (x.setcb true none (some b.peer)).setwatermark 0 0

theorem drained_writecb_put (w : World) (b : BevId) {x y : Bev} (hx : x.live = true)
    (hy : y.live = true) :
    drained_writecb (w.put b x y) b (some b.peer) =
      .ok (w.put b (x.disarm b) (y.setReading true)) := by
  simp [drained_writecb, bufferevent_setcb, bufferevent_setwatermark, bufferevent_enable, hx, hy,
    bind, Except.bind, Bev.disarm]

/-- Freed once nothing is left to write. -/
def Bev.finish (x : Bev) : Bev := if x.output.length = 0 then x.free else x

theorem close_on_finished_writecb_put (w : World) (b : BevId) {x y : Bev} (hx : x.live = true) :
    close_on_finished_writecb (w.put b x y) b = .ok (w.put b x.finish y) := by
  unfold close_on_finished_writecb Bev.finish
  rw [get_put_self w b hx]
  by_cases hout : x.output.length = 0
  · simp [bind, Except.bind, hout, bufferevent_free, hx]
  · simp [bind, Except.bind, hout]

/-- What `eventcb` makes of the partner: freed, or left to write what it still has. -/
def Bev.abandon (y : Bev) : Bev :=
  if y.output.length ≠ 0 then
    (y.setcb false (some .close_on_finished_writecb) none).setReading false
  else y.free

theorem eventcb_put_alone (ar : IntArith) (e : Engines) (w : World) (b : BevId) {x y : Bev}
    (hx : x.live = true) {what : ℕ} (hw : closes what = true) (seen : Seen) :
    eventcb ar e (w.put b x y) b what none seen = .ok (w.put b x.free y) := by
  simp [eventcb, hw, bufferevent_free, hx]

theorem eventcb_put (ar : IntArith) (e : Engines) (w : World) (b : BevId) {x y : Bev}
    (hx : x.live = true) (hy : y.live = true) {what : ℕ} (hw : closes what = true)
    (seen : Seen) :
    eventcb ar e (w.put b x y) b what (some b.peer) seen =
      (fun r => (w.inspected r).put b (readSelf x y r.test seen).free
        (readPartner b x y r.test).abandon) <$>
        stopOnTrap (filter_check ar e w.param x.input seen) := by
  unfold eventcb
  rw [if_pos hw]
  dsimp only
  rw [readcb_put ar e w b hx hy]
  cases stopOnTrap (filter_check ar e w.param x.input seen) with
  | error t => rfl
  | ok r =>
    have hy' : (readPartner b x y r.test).live = true := by simpa using hy
    simp only [Functor.map, Except.map, bind, Except.bind, get_put_peer _ _ hy', Bev.abandon]
    by_cases hout : (readPartner b x y r.test).output.length ≠ 0
    · simp [hout, bufferevent_setcb, bufferevent_disable, bufferevent_free, hx, hy]
    · simp [hout, bufferevent_free, hx, hy]

/-- Both ends of a new connection. -/
def Bev.accepted (b : BevId) (connected : Bool) : Bev :=
  if connected then (Bev.fresh.setcb true none (some b.peer)).setReading true else Bev.fresh.free

/-- The state after `accept_cb`. -/
def World.accepted (w : World) (connected : Bool) : World :=
  { w with
    bevs := fun b => if b.conn = w.next then Bev.accepted b connected else w.bevs b
    next := w.next + 1 }

theorem accept_cb_eq (w : World) (connected : Bool) :
    accept_cb w connected = .ok (w.accepted connected) := by
  let b : BevId := ⟨w.next, .client⟩
  let fresh : World := { w with
    bevs := fun i => if i.conn = w.next then Bev.fresh else w.bevs i
    next := w.next + 1 }
  have hput : fresh = fresh.put b .fresh .fresh := (put_self fresh b).symm.trans (by
    simp [fresh, b, BevId.peer])
  have hends : w.accepted connected =
      fresh.put b (.accepted b connected) (.accepted b.peer connected) := by
    simp only [World.accepted, World.put, World.mk.injEq, and_true, fresh]
    funext i
    by_cases hb : i = b
    · simp [hb, b]
    by_cases hp : i = b.peer
    · rw [hp, Function.update_self]
      simp [b, BevId.peer]
    have hconn : i.conn ≠ w.next := by
      obtain ⟨c, s⟩ := i
      rintro rfl
      cases s with
      | client => exact hb rfl
      | upstream => exact hp rfl
    simp [hb, hp, hconn]
  have hlive : Bev.fresh.live = true := rfl
  rw [hends]
  change (if connected = true then do
      let w ← bufferevent_setcb fresh b true none (some b.peer)
      let w ← bufferevent_setcb w b.peer true none (some b)
      let w ← bufferevent_enable w b
      bufferevent_enable w b.peer
    else do
      let w ← bufferevent_free fresh b.peer
      bufferevent_free w b) = _
  conv_lhs => rw [hput]
  cases connected with
  | true =>
    simp [bufferevent_setcb, bufferevent_enable, hlive, bind, Except.bind, Bev.accepted]
  | false => simp [bufferevent_free, hlive, bind, Except.bind, Bev.accepted]

end OctopusWaf
