import OctopusWaf.ProxySteps

/-! Partner pointers. `Linked` holds of every pair in every reachable state, so a callback
argument is null or live and points back. -/
namespace OctopusWaf
open CMachine CString Execution

section Fields

variable (b : BevId) (x y : Bev) (test : Bool) (seen : Seen)

@[simp] theorem readSelf_cbarg : (readSelf x y test seen).cbarg = x.cbarg := by
  unfold readSelf
  split_ifs <;> rfl

@[simp] theorem readSelf_writecb : (readSelf x y test seen).writecb = x.writecb := by
  unfold readSelf
  split_ifs <;> rfl

theorem readPartner_cbarg (h : y.cbarg = some b) : (readPartner b x y test).cbarg = some b := by
  unfold readPartner
  split_ifs
  · exact h
  · rfl
  · exact h

theorem readPartner_writecb : (readPartner b x y test).writecb = y.writecb ∨
    (readPartner b x y test).writecb = some .drained_writecb := by
  unfold readPartner
  split_ifs
  · exact .inl rfl
  · exact .inr rfl
  · exact .inl rfl

end Fields

section Linked

variable {b : BevId} {x y x' y' : Bev}

theorem Linked.of_dead (h : x.live = false) : Linked b x y := by
  constructor <;> simp [h]

theorem Linked.of_mutual (hx : x.cbarg = some b.peer) (hy : y.live = true)
    (hback : y.cbarg = some b) (hw : x.writecb ≠ some .close_on_finished_writecb) :
    Linked b x y where
  arg _ p hp := ⟨Option.some.inj (hp.symm.trans hx), hy, hback⟩
  readcb_arg _ _ := by simp [hx]
  drained_arg _ _ := by simp [hx]
  closing _ h := absurd h hw
  alone _ h := by simp [hx] at h

/-- The fields of `x` that `Linked` is about. -/
def Bev.links (x : Bev) : Bool × Bool × Option WriteCb × Option BevId :=
  (x.live, x.readcb, x.writecb, x.cbarg)

/-- The fields of its peer. -/
def Bev.anchor (y : Bev) : Bool × Option BevId × Bool := (y.live, y.cbarg, y.reported)

theorem Linked.congr (h : Linked b x y) (hx : x'.links = x.links) (hy : y'.anchor = y.anchor) :
    Linked b x' y' := by
  simp only [Bev.links, Bev.anchor, Prod.mk.injEq] at hx hy
  obtain ⟨hlive, hr, hw, ha⟩ := hx
  obtain ⟨hlive', hb, hrep⟩ := hy
  constructor
  · simpa only [hlive, ha, hlive', hb] using h.arg
  · simpa only [hlive, hr, ha] using h.readcb_arg
  · simpa only [hlive, hw, ha] using h.drained_arg
  · simpa only [hlive, hw, ha] using h.closing
  · simpa only [hlive, ha, hlive', hrep] using h.alone

theorem Linked.not_closing (h : Linked b x y) (hx : x.live = true) {p : BevId}
    (harg : x.cbarg = some p) : x.writecb ≠ some .close_on_finished_writecb := by
  intro hw
  simp [h.closing hx hw] at harg

theorem linked_accepted (b : BevId) (connected : Bool) :
    Linked b (.accepted b connected) (.accepted b.peer connected) := by
  cases connected with
  | true =>
    apply Linked.of_mutual rfl rfl
    · simp [Bev.accepted, Bev.setcb, Bev.setReading]
    · simp [Bev.accepted, Bev.setcb, Bev.setReading]
  | false => exact .of_dead rfl

theorem linked_abandon (hx : x.live = false) (hr : x.reported = true) :
    Linked b y.abandon x := by
  unfold Bev.abandon
  split_ifs with hout
  · constructor <;> simp [Bev.setcb, Bev.setReading, hx, hr]
  · exact .of_dead rfl

/-- Every move keeps both ends linked. -/
theorem linked_move {ar : IntArith} {e : Engines} {param : Choice} {a : Action}
    {r : Option Inspection} (hx : Linked b x y) (hy : Linked b.peer y x)
    (h : Move ar e param b x y a r x' y') : Linked b x' y' ∧ Linked b.peer y' x' := by
  have hpp : b.peer.peer = b := b.peer_peer
  cases h with
  | arrive => exact ⟨hx.congr rfl rfl, hy.congr rfl rfl⟩
  | send => exact ⟨hx.congr rfl rfl, hy.congr rfl rfl⟩
  | @read seen r live partner_live arg back inspect =>
    have hself := hx.not_closing live arg
    have hother := hy.not_closing partner_live back
    have harg : (readSelf x.startRead y r.test seen).cbarg = some b.peer := by
      rw [readSelf_cbarg]
      exact arg
    constructor
    · apply Linked.of_mutual harg
      · simpa using partner_live
      · exact readPartner_cbarg b x y r.test back
      · rw [readSelf_writecb]
        exact hself
    · apply Linked.of_mutual
      · rw [hpp]
        exact readPartner_cbarg b x y r.test back
      · simpa using live
      · exact harg
      · rcases readPartner_writecb b x y r.test with hw | hw
        · rw [hw]
          exact hother
        · simp [hw]
  | drain live partner_live arg armed =>
    obtain ⟨-, -, back⟩ := hx.arg live _ arg
    have hother := hy.not_closing partner_live back
    constructor
    · exact .of_mutual rfl partner_live back (by simp [Bev.disarm, Bev.setcb, Bev.setwatermark])
    · exact .of_mutual (by rwa [hpp]) live rfl hother
  | finish live closing =>
    unfold Bev.finish
    split_ifs with hout
    · obtain ⟨hdead, -⟩ := hx.alone live (hx.closing live closing)
      exact ⟨.of_dead rfl, .of_dead hdead⟩
    · exact ⟨hx, hy⟩
  | notice => exact ⟨hx, hy⟩
  | closeAlone live hw arg =>
    obtain ⟨hdead, -⟩ := hx.alone live arg
    exact ⟨.of_dead rfl, .of_dead hdead⟩
  | close live partner_live arg back hw inspect =>
    refine ⟨.of_dead rfl, linked_abandon rfl ?_⟩
    unfold readSelf
    split_ifs <;> simp [Bev.report, Bev.judge, Bev.block, Bev.give, Bev.queue, Bev.setwatermark,
      Bev.setReading, Bev.free]

end Linked

/-- What is recorded of a bufferevent is never taken back. -/
structure Grows (x x' : Bev) : Prop where
  dead : x.live = false → x'.live = false
  blocked : x.blocked ≠ none → x'.blocked ≠ none
  reported : x.reported = true → x'.reported = true
  arrived : x.arrived <+: x'.arrived
  taken : x.taken <+: x'.taken
  queued : x.queued <+: x'.queued
  written : x.written <+: x'.written

section Grows

variable {b : BevId} {x y z x' y' : Bev}

theorem Grows.refl (x : Bev) : Grows x x where
  dead := id
  blocked := id
  reported := id
  arrived := List.prefix_rfl
  taken := List.prefix_rfl
  queued := List.prefix_rfl
  written := List.prefix_rfl

theorem Grows.trans (h : Grows x y) (h' : Grows y z) : Grows x z where
  dead := h'.dead ∘ h.dead
  blocked := h'.blocked ∘ h.blocked
  reported := h'.reported ∘ h.reported
  arrived := h.arrived.trans h'.arrived
  taken := h.taken.trans h'.taken
  queued := h.queued.trans h'.queued
  written := h.written.trans h'.written

theorem grows_readSelf (x y : Bev) (test : Bool) (seen : Seen) :
    Grows x (readSelf x y test seen) := by
  unfold readSelf
  split_ifs with ht
  · constructor <;> simp [ht, Bev.judge, Bev.block, Bev.queue, Bev.setwatermark, Bev.setReading]
  · constructor <;> simp [ht, Bev.judge, Bev.give, Bev.setReading]
  · constructor <;> simp [ht, Bev.judge, Bev.give]

theorem grows_readPartner (b : BevId) (x y : Bev) (test : Bool) :
    Grows y (readPartner b x y test) := by
  unfold readPartner
  split_ifs
  · exact .refl y
  · constructor <;> simp [Bev.queue, Bev.arm, Bev.setcb, Bev.setwatermark]
  · constructor <;> simp [Bev.queue]

theorem grows_startRead (x : Bev) : Grows x x.startRead := by
  constructor <;> simp [Bev.startRead]

theorem grows_report (x : Bev) : Grows x (x.report true) := by
  constructor <;> simp [Bev.report]

theorem grows_free (x : Bev) : Grows x x.free := by
  constructor <;> simp [Bev.free]

theorem grows_abandon (y : Bev) : Grows y y.abandon := by
  unfold Bev.abandon
  split_ifs
  · constructor <;> simp [Bev.setcb, Bev.setReading]
  · exact grows_free y

theorem grows_move {ar : IntArith} {e : Engines} {param : Choice} {a : Action}
    {r : Option Inspection} (h : Move ar e param b x y a r x' y') : Grows x x' ∧ Grows y y' := by
  cases h with
  | arrive => exact ⟨by constructor <;> simp [Bev.arrive], .refl y⟩
  | send => exact ⟨by constructor <;> simp [Bev.send], .refl y⟩
  | read =>
    exact ⟨(grows_startRead x).trans (grows_readSelf _ y _ _), grows_readPartner b x y _⟩
  | drain =>
    constructor
    · constructor <;> simp [Bev.disarm, Bev.setcb, Bev.setwatermark]
    · constructor <;> simp [Bev.setReading]
  | finish =>
    unfold Bev.finish
    split_ifs
    · exact ⟨grows_free x, .refl y⟩
    · exact ⟨.refl x, .refl y⟩
  | notice => exact ⟨.refl x, .refl y⟩
  | closeAlone => exact ⟨(grows_report x).trans (grows_free _), .refl y⟩
  | close =>
    exact ⟨((grows_report x).trans (grows_readSelf _ y _ _)).trans (grows_free _),
      (grows_readPartner b x y _).trans (grows_abandon _)⟩

end Grows

section Runs

variable {ar : IntArith} {e : Engines} {param : Choice} {w : World}

theorem linked_initial (param : Choice) : (World.initial param).Pairwise Linked :=
  fun _ => .of_dead rfl

theorem linked_step {a : Action} {w' : World} (hl : w.Pairwise Linked) (hen : Enabled w a)
    (h : step ar e w a = .ok w') : w'.Pairwise Linked := by
  apply (effect_of_step hl hen h).pairwise linked_accepted _ hl
  intro b r x y hm
  have hpeer := hl b.peer
  rw [BevId.peer_peer] at hpeer
  exact linked_move (hl b) hpeer hm

theorem linked_reachable (h : Reaches (step ar e) Enabled (.initial param) w) :
    w.Pairwise Linked :=
  h.invariant (linked_initial param) fun _ _ _ hl hen hs => linked_step hl hen hs

/-- A pair property that holds before birth, of both ends of a new connection, and across
every admitted move holds in every reachable state. -/
theorem pairwise_reachable {guard : World → Action → Prop} {P : BevId → Bev → Bev → Prop}
    (hguard : ∀ w a, guard w a → Enabled w a)
    (hunborn : ∀ b, P b { Bev.fresh with live := false } { Bev.fresh with live := false })
    (hacc : ∀ b connected, P b (.accepted b connected) (.accepted b.peer connected))
    (hmove : ∀ w a b r x y, guard w a → Linked b (w.bevs b) (w.bevs b.peer) →
      P b (w.bevs b) (w.bevs b.peer) → P b.peer (w.bevs b.peer) (w.bevs b) →
      Move ar e w.param b (w.bevs b) (w.bevs b.peer) a r x y → P b x y ∧ P b.peer y x)
    (h : Reaches (step ar e) guard (.initial param) w) : w.Pairwise P := by
  apply h.induct
  · exact hunborn
  · intro v a v' hr ih hg hs
    have hl := linked_reachable (hr.mono hguard)
    apply (effect_of_step hl (hguard v a hg) hs).pairwise hacc _ ih
    intro b r x y hm
    have hpeer := ih b.peer
    rw [BevId.peer_peer] at hpeer
    exact hmove v a b r x y hg (hl b) (ih b) hpeer hm

/-- The ids not given out yet have no bufferevent behind them. -/
theorem unborn_reachable (h : Reaches (step ar e) Enabled (.initial param) w) :
    ∀ b : BevId, w.next ≤ b.conn → w.bevs b = { Bev.fresh with live := false } := by
  apply h.induct
  · exact fun _ _ => rfl
  · intro v a v' hr ih hen hs
    cases effect_of_step (linked_reachable hr) hen hs with
    | accept connected =>
      intro b hb
      have hle : v.next + 1 ≤ b.conn := hb
      have hne : b.conn ≠ v.next := by omega
      simpa [World.accepted, hne] using ih b (by omega)
    | @move i a r x y hm =>
      intro b hb
      have hold : (v.bevs b) = { Bev.fresh with live := false } := ih b (by
        cases r <;> exact hb)
      have hlive : (v.bevs i).live = true := by cases hm <;> assumption
      have hconn : b.conn ≠ i.conn := by
        intro hc
        have hi := ih i (by rw [← hc]; cases r <;> exact hb)
        simp [hi] at hlive
      have hi : b ≠ i := fun h => hconn (by rw [h])
      have hp : b ≠ i.peer := fun h => hconn (by rw [h]; rfl)
      rw [put_bevs_of_ne _ _ _ _ hi hp, left_bevs]
      exact hold

theorem born_of_ne (h : Reaches (step ar e) Enabled (.initial param) w) {b : BevId}
    (hb : w.bevs b ≠ { Bev.fresh with live := false }) : b.conn < w.next := by
  by_contra hlt
  exact hb (unborn_reachable h b (by omega))

theorem born_of_blocked (h : Reaches (step ar e) Enabled (.initial param) w) {b : BevId}
    (hb : (w.bevs b).blocked ≠ none) : b.conn < w.next := by
  apply born_of_ne h
  intro hunborn
  rw [hunborn] at hb
  exact hb rfl

/-- The record of a bufferevent that exists only grows along a run. -/
theorem grows_run {w' : World} {b : BevId}
    (h₀ : Reaches (step ar e) Enabled (.initial param) w) (hb : b.conn < w.next)
    (h : Reaches (step ar e) Enabled w w') :
    b.conn < w'.next ∧ Grows (w.bevs b) (w'.bevs b) := by
  apply h.induct (I := fun v => b.conn < v.next ∧ Grows (w.bevs b) (v.bevs b)) ⟨hb, .refl _⟩
  intro v a v' hr ih hen hs
  have heff := effect_of_step (linked_reachable (h₀.trans hr)) hen hs
  constructor
  · cases heff with
    | accept connected => exact ih.1.trans (Nat.lt_succ_self _)
    | @move i a r x y hm => cases r <;> exact ih.1
  · apply heff.follow (Q := Grows (w.bevs b)) ih.1 ih.2
    · exact fun _ _ _ hm => ih.2.trans (grows_move hm).1
    · exact fun _ _ _ hm => ih.2.trans (grows_move hm).2

/-- In every reachable state the callback argument of a live bufferevent is null or names
a live bufferevent that points back, and no callback uses or frees a freed one. -/
theorem partner_pointers_never_dangle (h : Reaches (step ar e) Enabled (.initial param) w) :
    (∀ b, (w.bevs b).live = true → (w.bevs b).cbarg = none ∨
      ∃ p, (w.bevs b).cbarg = some p ∧ (w.bevs p).live = true ∧ (w.bevs p).cbarg = some b) ∧
    ∀ a, Enabled w a → ∀ b, step ar e w a ≠ .error (.freed b) := by
  have hl := linked_reachable h
  constructor
  · intro b hb
    cases hp : (w.bevs b).cbarg with
    | none => exact .inl rfl
    | some p =>
      obtain ⟨rfl, hlive, hback⟩ := (hl b).arg hb p hp
      exact .inr ⟨_, rfl, hlive, hback⟩
  · intro a hen b hfree
    rcases step_effect ar e hl hen with ⟨t, ht⟩ | ⟨w', ht, -⟩
    · simp [ht] at hfree
    · simp [ht] at hfree

/-- A client that closes after its request leaves the upstream side alone, with the request
still to be written. -/
theorem partner_pointers_never_dangle_after_close :
    ∃ w, Reaches (step .wrapping quietEngines) Enabled
        (.initial (matchOnly (ascii "<script>\n") 3)) w ∧
      (w.bevs firstClient).live = false ∧ (w.bevs firstClient.peer).live = true ∧
      (w.bevs firstClient.peer).cbarg = none ∧
      ∀ a, Enabled w a → ∀ b, step .wrapping quietEngines w a ≠ .error (.freed b) := by
  obtain ⟨w, hrun, hw⟩ := execute_any (step .wrapping quietEngines) Enabled
    (.initial (matchOnly (ascii "<script>\n") 3))
    (requestAndClose (ascii "GET /index.html") (ascii "10.0.0.9"))
    (fun w => decide ((w.bevs firstClient).live = false ∧
      (w.bevs firstClient.peer).live = true ∧ (w.bevs firstClient.peer).cbarg = none))
    (by decide +kernel)
  obtain ⟨hdead, hlive, harg⟩ := of_decide_eq_true hw
  exact ⟨w, hrun, hdead, hlive, harg, (partner_pointers_never_dangle hrun).2⟩

end Runs

end OctopusWaf
