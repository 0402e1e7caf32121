import OctopusWaf.ProxyEffects

/-! The moves of the event loop as changes of two records. `Linked` is what makes every
callback find its partner; with it a step changes one bufferevent and its peer and nothing
else, and an invariant of such pairs needs to be checked move by move only. -/
namespace OctopusWaf
open CMachine CString Execution

/-- What callback arguments say about a bufferevent `x` named `b` and its peer `y`. -/
structure Linked (b : BevId) (x y : Bev) : Prop where
  arg : x.live = true → ∀ p, x.cbarg = some p → p = b.peer ∧ y.live = true ∧ y.cbarg = some b
  readcb_arg : x.live = true → x.readcb = true → x.cbarg ≠ none
  drained_arg : x.live = true → x.writecb = some .drained_writecb → x.cbarg ≠ none
  closing : x.live = true → x.writecb = some .close_on_finished_writecb → x.cbarg = none
  alone : x.live = true → x.cbarg = none → y.live = false ∧ y.reported = true

/-- A property of every bufferevent together with its peer. -/
def World.Pairwise (w : World) (P : BevId → Bev → Bev → Prop) : Prop :=
  ∀ b, P b (w.bevs b) (w.bevs b.peer)

/-- What one move at `b` does to `b` and its peer, with the inspection it ran. -/
inductive Move (ar : IntArith) (e : Engines) (param : Choice) (b : BevId) (x y : Bev) :
    Action → Option Inspection → Bev → Bev → Prop
  | arrive {bytes : List UInt8} (live : x.live = true) :
    Move ar e param b x y (.arrive b bytes) none (x.arrive bytes) y
  | send {n : ℕ} (live : x.live = true) : Move ar e param b x y (.send b n) none (x.send n) y
  | read {seen : Seen} {r : Inspection} (live : x.live = true) (partner_live : y.live = true)
      (arg : x.cbarg = some b.peer) (back : y.cbarg = some b)
      (inspect : filter_check ar e param x.input seen = .ok r) :
    Move ar e param b x y (.read b seen) (some r) (readSelf x.startRead y r.test seen)
      (readPartner b x y r.test)
  | drain (live : x.live = true) (partner_live : y.live = true) (arg : x.cbarg = some b.peer)
      (armed : x.writecb = some .drained_writecb) :
    Move ar e param b x y (.writable b) none (x.disarm b) (y.setReading true)
  | finish (live : x.live = true) (closing : x.writecb = some .close_on_finished_writecb) :
    Move ar e param b x y (.writable b) none x.finish y
  | notice {what : ℕ} {seen : Seen} (live : x.live = true) (hw : closes what = false) :
    Move ar e param b x y (.event b what seen) none x y
  | closeAlone {what : ℕ} {seen : Seen} (live : x.live = true) (hw : closes what = true)
      (arg : x.cbarg = none) :
    Move ar e param b x y (.event b what seen) none (x.report true).free y
  | close {what : ℕ} {seen : Seen} {r : Inspection} (live : x.live = true)
      (partner_live : y.live = true) (arg : x.cbarg = some b.peer) (back : y.cbarg = some b)
      (hw : closes what = true) (inspect : filter_check ar e param x.input seen = .ok r) :
    Move ar e param b x y (.event b what seen) (some r)
      (readSelf (x.report true) y r.test seen).free (readPartner b x y r.test).abandon

/-- The state with what an inspection, if one ran, has left behind. -/
def World.left (w : World) : Option Inspection → World
  | none => w
  | some r => w.inspected r

/-- What one step does to the whole state. -/
inductive Effect (ar : IntArith) (e : Engines) (w : World) : Action → World → Prop
  | accept (connected : Bool) : Effect ar e w (.accept connected) (w.accepted connected)
  | move {b : BevId} {a : Action} {r : Option Inspection} {x y : Bev}
      (h : Move ar e w.param b (w.bevs b) (w.bevs b.peer) a r x y) :
    Effect ar e w a ((w.left r).put b x y)

/-- A move that ran an inspection is one of an inspecting action. -/
theorem inspects_of_move {ar : IntArith} {e : Engines} {w : World} {b : BevId} {a : Action}
    {i : Inspection} {x y : Bev}
    (h : Move ar e w.param b (w.bevs b) (w.bevs b.peer) a (some i) x y) :
    ∃ seen, inspects w a = some (b, seen) ∧
      filter_check ar e w.param (w.bevs b).input seen = .ok i := by
  cases h with
  | @read seen r live partner_live arg back inspect => exact ⟨seen, rfl, inspect⟩
  | @close what seen r live partner_live arg back hw inspect =>
    exact ⟨seen, by simp [inspects, hw, arg], inspect⟩

theorem report_false (x : Bev) : x.report false = x := by
  simp [Bev.report]

section Step

variable {ar : IntArith} {e : Engines} {w : World}

theorem step_arrive {b : BevId} {bytes : List UInt8} (hx : (w.bevs b).live = true) :
    step ar e w (.arrive b bytes) =
      .ok (w.put b ((w.bevs b).arrive bytes) (w.bevs b.peer)) := by
  have h := modify_put_self w b (y := w.bevs b.peer) hx fun x => x.arrive bytes
  rwa [put_self] at h

theorem step_send {b : BevId} {n : ℕ} (hx : (w.bevs b).live = true) :
    step ar e w (.send b n) = .ok (w.put b ((w.bevs b).send n) (w.bevs b.peer)) := by
  have h := modify_put_self w b (y := w.bevs b.peer) hx fun x => x.send n
  rwa [put_self] at h

theorem step_read {b : BevId} {seen : Seen} (hx : (w.bevs b).live = true)
    (hy : (w.bevs b.peer).live = true) (harg : (w.bevs b).cbarg = some b.peer) :
    step ar e w (.read b seen) =
      (fun r => (w.inspected r).put b (readSelf (w.bevs b).startRead (w.bevs b.peer) r.test seen)
        (readPartner b (w.bevs b) (w.bevs b.peer) r.test)) <$>
        stopOnTrap (filter_check ar e w.param (w.bevs b).input seen) := by
  have hm := modify_put_self w b (y := w.bevs b.peer) hx Bev.startRead
  have hr := readcb_put ar e w b (x := (w.bevs b).startRead) hx hy seen
  rw [put_self] at hm
  simp only [step, hm, bind, Except.bind]
  rw [get_put_self _ _ (by simpa using hx)]
  have hc : (w.bevs b).startRead.cbarg = some b.peer := harg
  simp only [hc]
  exact hr

theorem step_drain {b : BevId} (hx : (w.bevs b).live = true) (hy : (w.bevs b.peer).live = true)
    (harg : (w.bevs b).cbarg = some b.peer)
    (harm : (w.bevs b).writecb = some .drained_writecb) :
    step ar e w (.writable b) =
      .ok (w.put b ((w.bevs b).disarm b) ((w.bevs b.peer).setReading true)) := by
  have hd := drained_writecb_put w b hx hy
  rw [put_self] at hd
  simpa [step, World.get, hx, harm, harg, bind, Except.bind] using hd

theorem step_finish {b : BevId} (hx : (w.bevs b).live = true)
    (hclose : (w.bevs b).writecb = some .close_on_finished_writecb) :
    step ar e w (.writable b) = .ok (w.put b (w.bevs b).finish (w.bevs b.peer)) := by
  have hd := close_on_finished_writecb_put w b (y := w.bevs b.peer) hx
  rw [put_self] at hd
  simpa [step, World.get, hx, hclose, bind, Except.bind] using hd

theorem step_notice {b : BevId} {what : ℕ} {seen : Seen} (hx : (w.bevs b).live = true)
    (hw : closes what = false) : step ar e w (.event b what seen) = .ok w := by
  have hm : (w.modify b fun x => x.report (closes what)) = .ok w := by
    simp only [World.modify, hx, if_true, hw, report_false, Function.update_eq_self]
  simp only [step, hm, bind, Except.bind, World.get, hx, if_true]
  simp [eventcb, hw]

theorem step_closeAlone {b : BevId} {what : ℕ} {seen : Seen} (hx : (w.bevs b).live = true)
    (hw : closes what = true) (harg : (w.bevs b).cbarg = none) :
    step ar e w (.event b what seen) =
      .ok (w.put b ((w.bevs b).report true).free (w.bevs b.peer)) := by
  have hm := modify_put_self w b (y := w.bevs b.peer) hx fun x => x.report (closes what)
  have hc : ((w.bevs b).report true).cbarg = none := harg
  rw [put_self, hw] at hm
  simp only [step, hw, hm, bind, Except.bind]
  rw [get_put_self _ _ (by simpa using hx)]
  simp only [hc]
  exact eventcb_put_alone ar e w b (by simpa using hx) hw seen

theorem step_close {b : BevId} {what : ℕ} {seen : Seen} (hx : (w.bevs b).live = true)
    (hy : (w.bevs b.peer).live = true) (hw : closes what = true)
    (harg : (w.bevs b).cbarg = some b.peer) :
    step ar e w (.event b what seen) =
      (fun r => (w.inspected r).put b
        (readSelf ((w.bevs b).report true) (w.bevs b.peer) r.test seen).free
        (readPartner b (w.bevs b) (w.bevs b.peer) r.test).abandon) <$>
        stopOnTrap (filter_check ar e w.param (w.bevs b).input seen) := by
  have hm := modify_put_self w b (y := w.bevs b.peer) hx fun x => x.report (closes what)
  have hc : ((w.bevs b).report true).cbarg = some b.peer := harg
  rw [put_self, hw] at hm
  simp only [step, hw, hm, bind, Except.bind]
  rw [get_put_self _ _ (by simpa using hx)]
  simp only [hc]
  exact eventcb_put ar e w b (x := (w.bevs b).report true) (by simpa using hx) hy hw seen

/-- Where arguments are linked an enabled step uses no freed bufferevent: it completes with
one of the listed effects, unless an inspection stops the program. -/
theorem step_effect (ar : IntArith) (e : Engines) {a : Action} (hl : w.Pairwise Linked) (hen : Enabled w a) :
    (∃ t, step ar e w a = .error (.stopped t)) ∨
      ∃ w', step ar e w a = .ok w' ∧ Effect ar e w a w' := by
  have hlink {b p : BevId} (hx : (w.bevs b).live = true) (hp : (w.bevs b).cbarg = some p) :
      (w.bevs b).cbarg = some b.peer ∧ (w.bevs b.peer).live = true ∧
        (w.bevs b.peer).cbarg = some b := by
    obtain ⟨rfl, hy, hback⟩ := (hl b).arg hx p hp
    exact ⟨hp, hy, hback⟩
  cases a with
  | accept connected => exact .inr ⟨_, accept_cb_eq w connected, .accept connected⟩
  | arrive b bytes => exact .inr ⟨_, step_arrive hen.1, .move (.arrive hen.1)⟩
  | send b n => exact .inr ⟨_, step_send hen, .move (.send hen)⟩
  | read b seen =>
    obtain ⟨hx, hcb⟩ := hen
    obtain ⟨p, hp⟩ := Option.ne_none_iff_exists'.mp ((hl b).readcb_arg hx hcb)
    obtain ⟨harg, hy, hback⟩ := hlink hx hp
    rw [step_read hx hy harg]
    cases hf : filter_check ar e w.param (w.bevs b).input seen with
    | error t => exact .inl ⟨t, rfl⟩
    | ok r => exact .inr ⟨_, rfl, .move (r := some r) (.read hx hy harg hback hf)⟩
  | writable b =>
    obtain ⟨hx, hcb⟩ := hen
    cases hw : (w.bevs b).writecb with
    | none => simp [hw] at hcb
    | some cb =>
      cases cb with
      | drained_writecb =>
        obtain ⟨p, hp⟩ := Option.ne_none_iff_exists'.mp ((hl b).drained_arg hx hw)
        obtain ⟨harg, hy, -⟩ := hlink hx hp
        exact .inr ⟨_, step_drain hx hy harg hw, .move (.drain hx hy harg hw)⟩
      | close_on_finished_writecb => exact .inr ⟨_, step_finish hx hw, .move (.finish hx hw)⟩
  | event b what seen =>
    have hx : (w.bevs b).live = true := hen
    by_cases hw : closes what = true
    · cases hp : (w.bevs b).cbarg with
      | none => exact .inr ⟨_, step_closeAlone hx hw hp, .move (.closeAlone hx hw hp)⟩
      | some p =>
        obtain ⟨harg, hy, hback⟩ := hlink hx hp
        rw [step_close hx hy hw harg]
        cases hf : filter_check ar e w.param (w.bevs b).input seen with
        | error t => exact .inl ⟨t, rfl⟩
        | ok r => exact .inr ⟨_, rfl, .move (r := some r) (.close hx hy harg hback hw hf)⟩
    · have hw : closes what = false := by simpa using hw
      refine .inr ⟨w, step_notice hx hw, ?_⟩
      have hm : Effect ar e w (.event b what seen) _ := .move (.notice hx hw)
      rwa [World.left, put_self] at hm

/-- A completed enabled step has one of the listed effects. -/
theorem effect_of_step {a : Action} {w' : World} (hl : w.Pairwise Linked) (hen : Enabled w a)
    (h : step ar e w a = .ok w') : Effect ar e w a w' := by
  rcases step_effect ar e hl hen with ⟨t, ht⟩ | ⟨u, hu, heff⟩
  · simp [ht] at h
  · rw [hu] at h
    obtain rfl := Except.ok.inj h
    exact heff

end Step

section Pairwise

variable {ar : IntArith} {e : Engines} {w w' : World} {P : BevId → Bev → Bev → Prop}

theorem pairwise_put (h : w.Pairwise P) {b : BevId} {x y : Bev} (hx : P b x y)
    (hy : P b.peer y x) : (w.put b x y).Pairwise P := by
  intro i
  by_cases hb : i = b
  · subst hb
    simpa using hx
  by_cases hp : i = b.peer
  · subst hp
    rw [put_bevs_peer, BevId.peer_peer, put_bevs_self]
    exact hy
  · have hb' : i.peer ≠ b := fun h => hp (by rw [← h, BevId.peer_peer])
    have hp' : i.peer ≠ b.peer := fun h => hb (by rw [← i.peer_peer, h, BevId.peer_peer])
    rw [put_bevs_of_ne w b x y hb hp, put_bevs_of_ne w b x y hb' hp']
    exact h i

theorem left_bevs (r : Option Inspection) : (w.left r).bevs = w.bevs := by
  cases r <;> rfl

/-- A pair property kept by every move, and true of both ends of a new connection, is kept
by every step. -/
theorem Effect.pairwise {a : Action} (heff : Effect ar e w a w')
    (hacc : ∀ b connected, P b (.accepted b connected) (.accepted b.peer connected))
    (hmove : ∀ b r x y, Move ar e w.param b (w.bevs b) (w.bevs b.peer) a r x y →
      P b x y ∧ P b.peer y x)
    (h : w.Pairwise P) : w'.Pairwise P := by
  cases heff with
  | accept connected =>
    intro i
    by_cases hi : i.conn = w.next
    · have hp : i.peer.conn = w.next := hi
      simpa [World.accepted, hi, hp] using hacc i connected
    · have hp : i.peer.conn ≠ w.next := hi
      simpa [World.accepted, hi, hp] using h i
  | @move b a r x y hm =>
    obtain ⟨hx, hy⟩ := hmove b r x y hm
    have hleft : (w.left r).Pairwise P := by
      intro i
      rw [left_bevs]
      exact h i
    exact pairwise_put hleft hx hy

/-- What a move at `b`, and one at its peer, keep of a record that is not new is kept by
every step. -/
theorem Effect.follow {a : Action} (heff : Effect ar e w a w') {Q : Bev → Prop} {b : BevId}
    (hb : b.conn < w.next) (h : Q (w.bevs b))
    (hself : ∀ r x y, Move ar e w.param b (w.bevs b) (w.bevs b.peer) a r x y → Q x)
    (hpeer : ∀ r x y, Move ar e w.param b.peer (w.bevs b.peer) (w.bevs b) a r x y → Q y) :
    Q (w'.bevs b) := by
  cases heff with
  | accept connected =>
    have hne : b.conn ≠ w.next := hb.ne
    simpa [World.accepted, hne] using h
  | @move i a r x y hm =>
    by_cases hi : b = i
    · subst hi
      rw [put_bevs_self]
      exact hself r x y hm
    by_cases hp : b = i.peer
    · subst hp
      rw [put_bevs_peer]
      rw [BevId.peer_peer] at hpeer
      exact hpeer r x y hm
    · rw [put_bevs_of_ne _ _ _ _ hi hp, left_bevs]
      exact h

end Pairwise

end OctopusWaf
