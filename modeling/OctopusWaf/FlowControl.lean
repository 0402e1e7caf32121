import OctopusWaf.Partners

/-! Read flags, drains and blocks over whole runs of the event loop. -/
namespace OctopusWaf
open CMachine CString Execution

/-- When reading is off and why, for a bufferevent `x` named `b` and its peer `y`. -/
structure Flow (b : BevId) (x y : Bev) : Prop where
  blocked_off : x.blocked ≠ none → x.reading = false
  pending_on : x.live = true → x.cbarg = some b.peer → x.pending = true → x.reading = true
  off : x.live = true → x.cbarg = some b.peer → x.reading = false →
    x.blocked ≠ none ∨ y.writecb = some .drained_writecb
  armed : x.live = true → x.cbarg = some b.peer → y.writecb = some .drained_writecb →
    x.reading = false ∧ x.blocked = none ∧ y.wmLow = MAX_OUTPUT / 2

section Flow

variable {b : BevId} {x y x' y' : Bev}

theorem Flow.of_dead (h : x.live = false) (hoff : x.blocked ≠ none → x.reading = false) :
    Flow b x y := by
  refine ⟨hoff, ?_, ?_, ?_⟩ <;> simp [h]

/-- The fields of `x` that `Flow` is about. -/
def Bev.flags (x : Bev) : (Bool × Option BevId) × Bool × Bool × Option Seen :=
  ((x.live, x.cbarg), x.reading, x.pending, x.blocked)

/-- The fields of its peer. -/
def Bev.drain (y : Bev) : Option WriteCb × ℕ := (y.writecb, y.wmLow)

theorem Flow.congr (h : Flow b x y) (hx : x'.flags = x.flags) (hy : y'.drain = y.drain) :
    Flow b x' y' := by
  simp only [Bev.flags, Bev.drain, Prod.mk.injEq] at hx hy
  obtain ⟨⟨hlive, ha⟩, hr, hp, hb⟩ := hx
  obtain ⟨hw, hm⟩ := hy
  constructor
  · simpa only [hb, hr] using h.blocked_off
  · simpa only [hlive, ha, hp, hr] using h.pending_on
  · simpa only [hlive, ha, hr, hb, hw] using h.off
  · simpa only [hlive, ha, hr, hb, hw, hm] using h.armed

theorem flow_accepted (b : BevId) (connected : Bool) :
    Flow b (.accepted b connected) (.accepted b.peer connected) := by
  cases connected with
  | true =>
    constructor <;> simp [Bev.accepted, Bev.setcb, Bev.setReading, Bev.fresh]
  | false => exact .of_dead rfl (by simp [Bev.accepted, Bev.free, Bev.fresh])

/-- A read whose data has arrived: the bufferevent was reading, was not blocked, and its
peer had no drain armed for it. -/
theorem Flow.of_pending (h : Flow b x y) (live : x.live = true) (arg : x.cbarg = some b.peer)
    (hp : x.pending = true) :
    x.reading = true ∧ x.blocked = none ∧ y.writecb ≠ some .drained_writecb := by
  have hr := h.pending_on live arg hp
  refine ⟨hr, ?_, ?_⟩
  · by_contra hb
    simp [h.blocked_off hb] at hr
  · intro hw
    simp [(h.armed live arg hw).1] at hr

theorem flow_read {seen : Seen} (test : Bool) (hx : Flow b x y) (hy : Flow b.peer y x)
    (live : x.live = true) (arg : x.cbarg = some b.peer) (back : y.cbarg = some b)
    (hp : x.pending = true) :
    Flow b (readSelf x.startRead y test seen) (readPartner b x y test) ∧
      Flow b.peer (readPartner b x y test) (readSelf x.startRead y test seen) := by
  obtain ⟨hr, hb, hw⟩ := hx.of_pending live arg hp
  have hself : readPartner b x y test = readPartner b x.startRead y test := rfl
  rw [hself]
  rcases read_outcome b x.startRead y test seen with ⟨-, hs, hq⟩ | ⟨-, hs, hq⟩ | ⟨-, hs, hq⟩
  · -- blocked: reading goes off for good, and no drain is armed that would turn it on again
    rw [hs, hq]
    constructor
    · constructor <;> simp [Bev.judge, Bev.block, Bev.startRead, Bev.queue, Bev.setwatermark,
        Bev.setReading, hw]
    · constructor
      · exact hy.blocked_off
      · exact hy.pending_on
      · exact hy.off
      · exact fun h₁ h₂ h₃ => ⟨(hy.armed h₁ h₂ h₃).1, (hy.armed h₁ h₂ h₃).2.1, rfl⟩
  · -- choked: reading goes off and the drain of the peer is armed
    rw [hs, hq]
    constructor
    · constructor <;> simp [Bev.judge, Bev.give, Bev.startRead, Bev.queue, Bev.arm, Bev.setcb,
        Bev.setwatermark, Bev.setReading, hb]
    · have hflags : ((y.queue (.relayed x.startRead.input)).arm b).flags = y.flags := by
        simp [Bev.flags, Bev.queue, Bev.arm, Bev.setcb, Bev.setwatermark, back]
      exact hy.congr hflags rfl
  · rw [hs, hq]
    constructor
    · constructor <;> simp [Bev.judge, Bev.give, Bev.startRead, Bev.queue, hr, hb, hw]
    · exact hy.congr rfl rfl

/-- The drain lets the peer read again, which it had stopped for that alone. -/
theorem flow_drain (hx : Flow b x y) (hy : Flow b.peer y x) (partner_live : y.live = true)
    (arg : x.cbarg = some b.peer) (back : y.cbarg = some b)
    (armed : x.writecb = some .drained_writecb) :
    Flow b (x.disarm b) (y.setReading true) ∧ Flow b.peer (y.setReading true) (x.disarm b) := by
  have hback : y.cbarg = some b.peer.peer := by rw [BevId.peer_peer, back]
  obtain ⟨-, hb, -⟩ := hy.armed partner_live hback armed
  constructor
  · have hflags : (x.disarm b).flags = x.flags := by
      simp [Bev.flags, Bev.disarm, Bev.setcb, Bev.setwatermark, arg]
    exact hx.congr hflags rfl
  · constructor <;> simp [Bev.setReading, Bev.disarm, Bev.setcb, Bev.setwatermark, hb]

theorem Flow.free (h : Flow b x y) (y' : Bev) : Flow b x.free y' := .of_dead rfl h.blocked_off

/-- An abandoned partner has no partner any more. -/
theorem flow_abandon (hoff : y.blocked ≠ none → y.reading = false) : Flow b y.abandon x := by
  unfold Bev.abandon
  split_ifs
  · constructor <;> simp [Bev.setcb, Bev.setReading]
  · exact .of_dead rfl hoff

theorem blocked_off_readSelf {test : Bool} {seen : Seen}
    (h : x.blocked ≠ none → x.reading = false) :
    (readSelf x y test seen).blocked ≠ none → (readSelf x y test seen).reading = false := by
  unfold readSelf
  split_ifs with ht
  · exact fun _ => rfl
  · exact fun _ => rfl
  · simpa [Bev.judge, Bev.give, ht] using h

theorem blocked_off_readPartner {test : Bool} (h : y.blocked ≠ none → y.reading = false) :
    (readPartner b x y test).blocked ≠ none → (readPartner b x y test).reading = false := by
  unfold readPartner
  split_ifs <;> exact h

/-- Every move keeps `Flow`, where data arrives only while reading is on and is read only
after it has arrived. -/
theorem flow_move {ar : IntArith} {e : Engines} {param : Choice} {a : Action}
    {r : Option Inspection} (hl : Linked b x y) (hx : Flow b x y) (hy : Flow b.peer y x)
    (harrive : ∀ bytes, a = .arrive b bytes → x.reading = true)
    (hread : ∀ seen, a = .read b seen → x.pending = true)
    (h : Move ar e param b x y a r x' y') : Flow b x' y' ∧ Flow b.peer y' x' := by
  cases h with
  | @arrive bytes live =>
    have hr := harrive bytes rfl
    refine ⟨⟨hx.blocked_off, fun _ _ _ => hr, hx.off, hx.armed⟩, ?_⟩
    exact hy.congr rfl rfl
  | send => exact ⟨hx.congr rfl rfl, hy.congr rfl rfl⟩
  | @read seen r live partner_live arg back inspect =>
    exact flow_read r.test hx hy live arg back (hread seen rfl)
  | drain live partner_live arg armed =>
    exact flow_drain hx hy partner_live arg (hl.arg live _ arg).2.2 armed
  | finish live closing =>
    unfold Bev.finish
    split_ifs
    · obtain ⟨hdead, -⟩ := hl.alone live (hl.closing live closing)
      exact ⟨hx.free y, .of_dead hdead hy.blocked_off⟩
    · exact ⟨hx, hy⟩
  | notice => exact ⟨hx, hy⟩
  | closeAlone live hw arg =>
    obtain ⟨hdead, -⟩ := hl.alone live arg
    exact ⟨.of_dead rfl hx.blocked_off, .of_dead hdead hy.blocked_off⟩
  | @close what seen r live partner_live arg back hw inspect =>
    have hself : (readSelf (x.report true) y r.test seen).blocked ≠ none →
        (readSelf (x.report true) y r.test seen).reading = false :=
      blocked_off_readSelf hx.blocked_off
    exact ⟨.of_dead rfl hself, flow_abandon (blocked_off_readPartner hy.blocked_off)⟩

end Flow

section Runs

variable {ar : IntArith} {e : Engines} {param : Choice} {w w' : World}

theorem EventLoop.enabled {a : Action} (h : EventLoop w a) : Enabled w a := h.1

/-- The drain of `p` that turns reading of `b` on again is installed, below half of the limit. -/
def World.Armed (w : World) (p b : BevId) : Prop :=
  (w.bevs p).writecb = some .drained_writecb ∧ (w.bevs p).cbarg = some b ∧
    (w.bevs p).wmLow = MAX_OUTPUT / 2

theorem flow_reachable (h : Reaches (step ar e) EventLoop (.initial param) w) :
    w.Pairwise Flow := by
  apply pairwise_reachable (fun _ _ => EventLoop.enabled) _ flow_accepted _ h
  · exact fun _ => .of_dead rfl (by simp [Bev.fresh])
  · intro v a b r x y hg hl hx hy hm
    apply flow_move hl hx hy _ _ hm
    · intro bytes ha
      subst ha
      exact hg.2
    · intro seen ha
      subst ha
      exact hg.2

/-- An armed drain is enabled, runs, and turns reading on where it had been turned off. -/
theorem armed_fires {b : BevId} (h : Reaches (step ar e) EventLoop (.initial param) w)
    (hlive : (w.bevs b).live = true) (harg : (w.bevs b).cbarg = some b.peer)
    (harmed : w.Armed b.peer b) : EventLoop w (.writable b.peer) ∧ ∃ w',
      step ar e w (.writable b.peer) = .ok w' ∧ (w'.bevs b).reading = true ∧
        ¬ w'.Armed b.peer b := by
  obtain ⟨-, hpeer, hback⟩ :=
    (linked_reachable (h.mono fun _ _ => EventLoop.enabled) b).arg hlive b.peer harg
  obtain ⟨hcb, -, -⟩ := harmed
  have hself : (w.bevs b.peer.peer).live = true := by rwa [BevId.peer_peer]
  have hctx : (w.bevs b.peer).cbarg = some b.peer.peer := by rwa [BevId.peer_peer]
  refine ⟨⟨⟨hpeer, by rw [hcb]; rfl⟩, trivial⟩, _, step_drain hpeer hself hctx hcb, ?_, ?_⟩
  · rw [BevId.peer_peer, put_comm, put_bevs_self]
    rfl
  · rintro ⟨hwrite, -⟩
    rw [put_bevs_self] at hwrite
    exact Option.some_ne_none _ hwrite.symm

/-- Between callbacks a bufferevent with a partner has reading off exactly when it was
blocked or the drain that turns reading on again is armed, never for both reasons. An armed
drain can run, and after it reading is on and the drain is gone; and reading stays off on a
blocked one. -/
theorem reading_off_iff (h : Reaches (step ar e) EventLoop (.initial param) w) :
    (∀ b p, (w.bevs b).live = true → (w.bevs b).cbarg = some p →
      ((w.bevs b).reading = false ↔ (w.bevs b).blocked ≠ none ∨ w.Armed p b) ∧
      ¬ ((w.bevs b).blocked ≠ none ∧ w.Armed p b) ∧
      (w.Armed p b → EventLoop w (.writable p) ∧ ∃ w', step ar e w (.writable p) = .ok w' ∧
        (w'.bevs b).reading = true ∧ ¬ w'.Armed p b)) ∧
    ∀ b w', (w.bevs b).blocked ≠ none → Reaches (step ar e) EventLoop w w' →
      (w'.bevs b).reading = false := by
  have hen := h.mono fun _ _ => EventLoop.enabled
  have hflow := flow_reachable h
  constructor
  · intro b p hlive harg
    obtain ⟨rfl, -, hback⟩ := (linked_reachable hen b).arg hlive p harg
    have hf := hflow b
    refine ⟨⟨fun hoff => ?_, ?_⟩, ?_, armed_fires h hlive harg⟩
    · rcases hf.off hlive harg hoff with hb | hw
      · exact .inl hb
      · exact .inr ⟨hw, hback, (hf.armed hlive harg hw).2.2⟩
    · rintro (hb | harmed)
      · exact hf.blocked_off hb
      · exact (hf.armed hlive harg harmed.1).1
    · rintro ⟨hb, harmed⟩
      exact hb (hf.armed hlive harg harmed.1).2.1
  · intro b w' hb hrun
    have hgrows := (grows_run hen (born_of_blocked hen hb) (hrun.mono fun _ _ => EventLoop.enabled)).2
    exact (flow_reachable (h.trans hrun) b).blocked_off (hgrows.blocked hb)

/-- A blocked client: reading is off, no drain is armed for it, and it stays off. -/
theorem reading_off_iff_blocked :
    ∃ w, Reaches (step .wrapping quietEngines) EventLoop
        (.initial (matchOnly (ascii "<script>\n") 3)) w ∧
      (w.bevs firstClient).reading = false ∧ ¬ w.Armed firstClient.peer firstClient ∧
      ∀ w', Reaches (step .wrapping quietEngines) EventLoop w w' →
        (w'.bevs firstClient).reading = false := by
  obtain ⟨w, hrun, hw⟩ := execute_any (step .wrapping quietEngines) EventLoop
    (.initial (matchOnly (ascii "<script>\n") 3))
    ([.accept true, .arrive firstClient (ascii "GET /?q=<script>"),
      .read firstClient (seenAt (ascii "10.0.0.9"))])
    (fun w => decide ((w.bevs firstClient).live = true ∧
      (w.bevs firstClient).cbarg = some firstClient.peer ∧ (w.bevs firstClient).blocked ≠ none))
    (by decide +kernel)
  obtain ⟨hlive, harg, hb⟩ := of_decide_eq_true hw
  obtain ⟨hpairs, hstays⟩ := reading_off_iff hrun
  obtain ⟨hiff, hnot, -⟩ := hpairs firstClient firstClient.peer hlive harg
  exact ⟨w, hrun, hiff.mpr (.inl hb), fun ha => hnot ⟨hb, ha⟩, fun w' => hstays firstClient w' hb⟩

end Runs

end OctopusWaf
