import OctopusWaf.FlowControl
import OctopusWaf.StreamAccounting
import OctopusWaf.VerdictHistory

/-! A blocked request is looked at once more when its client closes. What keeps it back then
is that the second verdict agrees with the first. -/
namespace OctopusWaf
open CMachine CString Execution

/-- An attack whatever the block list loses after its first line. -/
def SureAttack (ar : IntArith) (e : Engines) (param : Choice) (input : List UInt8)
    (seen : Seen) : Prop :=
  is_request (tmpbuf input seen) = true ∧
    (seen.addr_ip.any (listedFirst param.block_addr_list) = true ∨
      detect ar e param (tmpbuf input seen) = .ok true)

/-- An attack from this address whatever stands behind the unterminated copy. -/
def AttackAnywhere (ar : IntArith) (e : Engines) (param : Choice) (input : List UInt8)
    (addr_ip : Option (List UInt8)) : Prop :=
  ∀ afterData afterTmpbuf, SureAttack ar e param input ⟨afterData, afterTmpbuf, addr_ip⟩

/-- A look at an input whose address is not listed on a later line of the block list alone. -/
def FirmLook (ar : IntArith) (e : Engines) (param : Choice) (input : List UInt8)
    (seen : Seen) : Prop :=
  seen.addr_ip.any (listed param.block_addr_list) = true →
    seen.addr_ip.any (listedFirst param.block_addr_list) = true ∨
      detect ar e param (tmpbuf input seen) ≠ .ok false

instance (ar : IntArith) (e : Engines) (param : Choice) (input : List UInt8) (seen : Seen) :
    Decidable (FirmLook ar e param input seen) := inferInstanceAs (Decidable (_ → _))

/-- Steps of the event loop that take firm looks at the input of `b` only, and a second one, at
a blocked input, only from the same address and where the memory behind the copy is the same
or does not matter. -/
def SteadyFor (ar : IntArith) (e : Engines) (b : BevId) (w : World) (a : Action) : Prop :=
  EventLoop w a ∧ ∀ i ∈ inspects w a, i.1 = b →
    FirmLook ar e w.param (w.bevs b).input i.2 ∧
    ∀ seen ∈ (w.bevs b).blocked, i.2.addr_ip = seen.addr_ip ∧
      (i.2 = seen ∨ AttackAnywhere ar e w.param (w.bevs b).input seen.addr_ip)

/-- As `SteadyFor`, the memory behind the copy being the same: this can be computed. -/
def SteadyAlike (ar : IntArith) (e : Engines) (b : BevId) (w : World) (a : Action) : Prop :=
  EventLoop w a ∧ ∀ i ∈ inspects w a, i.1 = b →
    FirmLook ar e w.param (w.bevs b).input i.2 ∧
    ∀ seen ∈ (w.bevs b).blocked, i.2 = seen

instance (ar : IntArith) (e : Engines) (b : BevId) (w : World) (a : Action) :
    Decidable (SteadyAlike ar e b w a) := inferInstanceAs (Decidable (_ ∧ _))

theorem SteadyAlike.steady {ar : IntArith} {e : Engines} {b : BevId} {w : World} {a : Action}
    (h : SteadyAlike ar e b w a) : SteadyFor ar e b w a := by
  refine ⟨h.1, fun i hi hb => ⟨(h.2 i hi hb).1, fun seen hseen => ?_⟩⟩
  have halike := (h.2 i hi hb).2 seen hseen
  exact ⟨by rw [halike], .inl halike⟩

section Verdict

variable {ar : IntArith} {e : Engines} {param : Choice} {input : List UInt8} {seen : Seen}

theorem SureAttack.hostile (h : SureAttack ar e param input seen) :
    Hostile ar e param input seen := by
  refine ⟨h.1, h.2.imp_left fun hany => ?_⟩
  cases haddr : seen.addr_ip with
  | none => simp [haddr] at hany
  | some addr => exact listedFirst_le (by simpa [haddr] using hany)

/-- What an inspection leaves of the block list has the same first line. -/
theorem listedFirst_left {r : Inspection} (h : filter_check ar e param input seen = .ok r) :
    (tokens newline r.block_addr_list).take 1 = (tokens newline param.block_addr_list).take 1 := by
  cases hreq : is_request (tmpbuf input seen) with
  | true =>
    obtain ⟨found, d, hblock, -⟩ := filter_check_ok hreq h
    rw [blocklist_ip_left hblock, List.take_take]
    rfl
  | false =>
    rw [filter_check_rejected ar e param input hreq] at h
    rw [← Except.ok.inj h]

/-- Later inspections, of any input, do not make an attack less sure. -/
theorem SureAttack.left {input' : List UInt8} {seen' : Seen} {r : Inspection}
    (h : SureAttack ar e param input seen) (hr : filter_check ar e param input' seen' = .ok r) :
    SureAttack ar e { param with block_addr_list := r.block_addr_list } input seen := by
  have hfirst : listedFirst r.block_addr_list = listedFirst param.block_addr_list := by
    funext addr
    rw [listedFirst, listedFirst, listedFirst_left hr]
  refine ⟨h.1, h.2.imp_left fun hany => ?_⟩
  rw [hfirst]
  exact hany

/-- A positive verdict that rests on more than a later line of the block list is sure. -/
theorem sureAttack_of_test {r : Inspection} (hr : filter_check ar e param input seen = .ok r)
    (ht : r.test = true) (hfirm : FirmLook ar e param input seen) :
    SureAttack ar e param input seen := by
  have hh := hostile_of_test hr ht
  refine ⟨hh.1, ?_⟩
  obtain ⟨found, d, -, hdetect, -⟩ := filter_check_ok hh.1 hr
  rcases hh.2 with hany | hd
  · refine (hfirm hany).imp_right fun hd => ?_
    cases d with
    | true => exact hdetect
    | false => exact absurd hdetect hd
  · exact .inr hd

end Verdict

section Sealed

variable {ar : IntArith} {e : Engines} {w w' : World} {b : BevId}

/-- The input a live bufferevent was blocked for is still there, and still an attack. -/
def Bev.Sealed (ar : IntArith) (e : Engines) (param : Choice) (x : Bev) : Prop :=
  x.live = true → ∀ seen ∈ x.blocked, SureAttack ar e param x.input seen

theorem Bev.Sealed.of_not_blocked {param : Choice} {x : Bev} (h : x.blocked = none) :
    x.Sealed ar e param := by
  intro _ seen hseen
  simp [h] at hseen

theorem Bev.Sealed.of_dead {param : Choice} {x : Bev} (h : x.live = false) :
    x.Sealed ar e param := by
  intro hlive
  simp [h] at hlive

theorem Bev.Sealed.congr {param : Choice} {x x' : Bev} (h : x.Sealed ar e param)
    (hlive : x'.live = true → x.live = true) (hi : x'.input = x.input)
    (hb : x'.blocked = x.blocked) : x'.Sealed ar e param := by
  intro hl
  rw [hi, hb]
  exact h (hlive hl)

/-- A move leaves the input side of the peer alone. -/
theorem peer_input {param : Choice} {x y x' y' : Bev} {a : Action} {r : Option Inspection}
    (h : Move ar e param b x y a r x' y') :
    (y'.live = true → y.live = true) ∧ y'.input = y.input ∧ y'.blocked = y.blocked ∧
      y'.taken = y.taken := by
  have hpartner (test : Bool) : (readPartner b x y test).input = y.input ∧
      (readPartner b x y test).blocked = y.blocked ∧
      (readPartner b x y test).taken = y.taken := by
    unfold readPartner
    split_ifs
    · exact ⟨rfl, rfl, rfl⟩
    · exact ⟨rfl, rfl, rfl⟩
    · exact ⟨rfl, rfl, rfl⟩
  cases h with
  | arrive => exact ⟨id, rfl, rfl, rfl⟩
  | send => exact ⟨id, rfl, rfl, rfl⟩
  | @read seen r live partner_live => exact ⟨fun _ => partner_live, hpartner r.test⟩
  | drain => exact ⟨id, rfl, rfl, rfl⟩
  | finish => exact ⟨id, rfl, rfl, rfl⟩
  | notice => exact ⟨id, rfl, rfl, rfl⟩
  | closeAlone => exact ⟨id, rfl, rfl, rfl⟩
  | @close what seen r live partner_live =>
    refine ⟨fun _ => partner_live, ?_⟩
    unfold Bev.abandon
    split_ifs
    · exact hpartner r.test
    · exact hpartner r.test

/-- No inspection that a move runs makes an attack less sure. -/
theorem sureAttack_of_move {i : BevId} {a : Action} {r : Option Inspection} {x y : Bev}
    {input : List UInt8} {seen : Seen}
    (hm : Move ar e w.param i (w.bevs i) (w.bevs i.peer) a r x y)
    (h : SureAttack ar e w.param input seen) : SureAttack ar e (w.left r).param input seen := by
  cases r with
  | none => exact h
  | some r =>
    obtain ⟨seen', -, hf⟩ := inspects_of_move hm
    exact h.left hf

theorem sealed_move {a : Action} {r : Option Inspection} {x y : Bev}
    (hflow : Flow b (w.bevs b) (w.bevs b.peer)) (hs : (w.bevs b).Sealed ar e w.param)
    (hg : SteadyFor ar e b w a)
    (hm : Move ar e w.param b (w.bevs b) (w.bevs b.peer) a r x y) :
    x.Sealed ar e (w.left r).param := by
  cases hm with
  | arrive live =>
    apply Bev.Sealed.of_not_blocked
    by_contra hb
    have hon : (w.bevs b).reading = true := hg.1.2
    simp [hflow.blocked_off hb] at hon
  | send => exact hs.congr id rfl rfl
  | @read seen r live partner_live arg back inspect =>
    have hb := (hflow.of_pending live arg hg.1.2).2.1
    rcases read_outcome b (w.bevs b).startRead (w.bevs b.peer) r.test seen with
      ⟨ht, hself, -⟩ | ⟨-, hself, -⟩ | ⟨-, hself, -⟩
    · -- the block itself: the guard makes the verdict sure before the list is cut
      rw [hself]
      intro _ seen' hseen
      obtain rfl : seen = seen' := Option.some.inj hseen
      have hfirm := (hg.2 (b, seen) rfl rfl).1
      exact (sureAttack_of_test inspect ht hfirm).left inspect
    · rw [hself]
      exact .of_not_blocked hb
    · rw [hself]
      exact .of_not_blocked hb
  | drain => exact hs.congr id rfl rfl
  | finish =>
    unfold Bev.finish
    split_ifs
    · exact .of_dead rfl
    · exact hs
  | notice => exact hs
  | closeAlone => exact .of_dead rfl
  | close => exact .of_dead rfl

theorem sealed_step {a : Action} (hl : w.Pairwise Linked) (hflow : w.Pairwise Flow)
    (hs : (w.bevs b).Sealed ar e w.param) (hg : SteadyFor ar e b w a)
    (h : step ar e w a = .ok w') : (w'.bevs b).Sealed ar e w'.param := by
  cases effect_of_step hl hg.1.enabled h with
  | accept connected =>
    by_cases hb : b.conn = w.next
    · apply Bev.Sealed.of_not_blocked
      cases connected <;> simp [World.accepted, hb, Bev.accepted, Bev.fresh, Bev.setcb,
        Bev.setReading, Bev.free]
    · simpa [World.accepted, hb] using hs
  | @move i a r x y hm =>
    have hold : (w.bevs b).Sealed ar e (w.left r).param := fun hlive seen hseen =>
      sureAttack_of_move hm (hs hlive seen hseen)
    by_cases hi : b = i
    · subst hi
      rw [put_bevs_self]
      exact sealed_move (hflow b) hs hg hm
    by_cases hp : b = i.peer
    · subst hp
      obtain ⟨hlive, hin, hblocked, -⟩ := peer_input hm
      rw [put_bevs_peer]
      exact hold.congr hlive hin hblocked
    · rw [put_bevs_of_ne _ _ _ _ hi hp, left_bevs]
      exact hold

/-- What was taken from a blocked bufferevent stays as it is: the last look blocks again. -/
theorem taken_move {a : Action} {r : Option Inspection} {x y : Bev}
    (hflow : Flow b (w.bevs b) (w.bevs b.peer)) (hs : (w.bevs b).Sealed ar e w.param)
    (hg : SteadyFor ar e b w a) (hb : (w.bevs b).blocked ≠ none)
    (hm : Move ar e w.param b (w.bevs b) (w.bevs b.peer) a r x y) :
    x.taken = (w.bevs b).taken := by
  cases hm with
  | arrive => rfl
  | send => rfl
  | read live partner_live arg =>
    exact absurd (hflow.of_pending live arg hg.1.2).2.1 hb
  | drain => rfl
  | finish =>
    unfold Bev.finish
    split_ifs <;> rfl
  | notice => rfl
  | closeAlone => rfl
  | @close what seen r live partner_live arg back hw inspect =>
    obtain ⟨seen', hseen'⟩ := Option.ne_none_iff_exists'.mp hb
    have hi : inspects w (.event b what seen) = some (b, seen) := by simp [inspects, hw, arg]
    obtain ⟨haddr, hmemory⟩ := (hg.2 (b, seen) hi rfl).2 seen' hseen'
    have hsure : SureAttack ar e w.param (w.bevs b).input seen := by
      rcases hmemory with halike | hany
      · obtain rfl : seen = seen' := halike
        exact hs live seen hseen'
      · have hattack := hany seen.afterData seen.afterTmpbuf
        rwa [← haddr] at hattack
    have ht := test_of_hostile inspect hsure.hostile
    rw [ht]
    rfl

end Sealed

section Runs

variable {ar : IntArith} {e : Engines} {param : Choice} {w w' : World} {b : BevId}

theorem SteadyFor.eventLoop {a : Action} (h : SteadyFor ar e b w a) : EventLoop w a := h.1

theorem sealed_reachable (h : Reaches (step ar e) (SteadyFor ar e b) (.initial param) w) :
    (w.bevs b).Sealed ar e w.param := by
  apply h.induct
  · exact .of_not_blocked rfl
  · intro v a v' hr ih hg hs
    have hloop := hr.mono fun _ _ => SteadyFor.eventLoop
    exact sealed_step (linked_reachable (hloop.mono fun _ _ => EventLoop.enabled))
      (flow_reachable hloop) ih hg hs

/-- Once the input of `b` was judged an attack, nothing of it is ever moved to the output
of its peer, however the connection ends. -/
theorem blocked_request_never_forwarded
    (h : Reaches (step ar e) (SteadyFor ar e b) (.initial param) w)
    (hb : (w.bevs b).blocked ≠ none)
    (hrun : Reaches (step ar e) (SteadyFor ar e b) w w') :
    (w'.bevs b.peer).queued.flatMap Chunk.relayedBytes =
      (w.bevs b.peer).queued.flatMap Chunk.relayedBytes := by
  have hen {v : World} (hv : Reaches (step ar e) (SteadyFor ar e b) (.initial param) v) :=
    (hv.mono fun _ _ => SteadyFor.eventLoop).mono fun _ _ => EventLoop.enabled
  have hborn := born_of_blocked (hen h) hb
  have htaken : (w'.bevs b).taken = (w.bevs b).taken := by
    apply hrun.induct (I := fun v => (v.bevs b).taken = (w.bevs b).taken) rfl
    intro v a v' hr ih hg hs
    have hreach := h.trans hr
    obtain ⟨hborn', hgrows⟩ := grows_run (hen h) hborn
      ((hr.mono fun _ _ => SteadyFor.eventLoop).mono fun _ _ => EventLoop.enabled)
    apply (effect_of_step (linked_reachable (hen hreach)) hg.1.enabled hs).follow
      (Q := fun x => x.taken = (w.bevs b).taken) hborn' ih
    · intro r x y hm
      rw [← ih]
      exact taken_move (flow_reachable (hreach.mono fun _ _ => SteadyFor.eventLoop) b)
        (sealed_reachable hreach) hg (hgrows.blocked hb) hm
    · intro r x y hm
      rw [← ih]
      exact (peer_input hm).2.2.2
  have hrelayed {v : World} (hv : Reaches (step ar e) (SteadyFor ar e b) (.initial param) v) :
      (v.bevs b.peer).queued.flatMap Chunk.relayedBytes = (v.bevs b).taken := by
    have hacc := (account_reachable (hen hv) b.peer).relayed
    rwa [BevId.peer_peer] at hacc
  rw [hrelayed (h.trans hrun), hrelayed h, htaken]

end Runs

/-- A request from `addr`, up to the verdict. -/
def requestOnly (request addr : List UInt8) : List Action :=
  [.accept true, .arrive firstClient request, .read firstClient (seenAt addr)]

/-- The client closes. -/
def hangUp (addr : List UInt8) : List Action :=
  [.event firstClient BEV_EVENT_EOF (seenAt addr)]

/-- A request with a rule in it is kept back when its client hangs up. -/
theorem blocked_request_never_forwarded_script :
    ∃ w w', Reaches (step .wrapping quietEngines) (SteadyFor .wrapping quietEngines firstClient)
        (.initial (matchOnly (ascii "<script>\n") 3)) w ∧
      (w.bevs firstClient).blocked ≠ none ∧
      Reaches (step .wrapping quietEngines) (SteadyFor .wrapping quietEngines firstClient) w w' ∧
      (w'.bevs firstClient).live = false ∧
      (w'.bevs firstClient.peer).queued.flatMap Chunk.relayedBytes = [] := by
  obtain ⟨w, hrun, hw⟩ := execute_any (step .wrapping quietEngines)
    (SteadyAlike .wrapping quietEngines firstClient) (.initial (matchOnly (ascii "<script>\n") 3))
    (requestOnly (ascii "GET /?q=<script>") (ascii "10.0.0.9"))
    (fun w => decide ((w.bevs firstClient).blocked ≠ none ∧
        (w.bevs firstClient.peer).queued.flatMap Chunk.relayedBytes = []) &&
      (execute (step .wrapping quietEngines) (SteadyAlike .wrapping quietEngines firstClient) w
        (hangUp (ascii "10.0.0.9"))).any fun w' => decide ((w'.bevs firstClient).live = false))
    (by decide +kernel)
  obtain ⟨hnow, hlater⟩ := Bool.and_eq_true_iff.mp hw
  obtain ⟨hb, hempty⟩ := of_decide_eq_true hnow
  obtain ⟨w', hrun', hdead⟩ := execute_any _ _ w _ _ hlater
  have hsteady := hrun.mono fun _ _ => SteadyAlike.steady
  have hsteady' := hrun'.mono fun _ _ => SteadyAlike.steady
  have hsame := blocked_request_never_forwarded hsteady hb hsteady'
  exact ⟨w, w', hsteady, hb, hsteady', of_decide_eq_true hdead, hsame.trans hempty⟩

/-- A client on the second line of the block list is blocked, and its request is sent on
when it hangs up: the first look has cut the list to its first line. -/
theorem blocked_request_forwarded_on_close :
    ∃ w w', Reaches (step .wrapping quietEngines) EventLoop (.initial twoAddresses) w ∧
      (w.bevs firstClient).blocked ≠ none ∧
      (w.bevs firstClient.peer).queued.flatMap Chunk.relayedBytes = [] ∧
      Reaches (step .wrapping quietEngines) EventLoop w w' ∧
      (w'.bevs firstClient.peer).queued.flatMap Chunk.relayedBytes = ascii "GET /index.html" := by
  obtain ⟨w, hrun, hw⟩ := execute_any (step .wrapping quietEngines) EventLoop
    (.initial twoAddresses) (requestOnly (ascii "GET /index.html") (ascii "10.0.0.2"))
    (fun w => decide ((w.bevs firstClient).blocked ≠ none ∧
        (w.bevs firstClient.peer).queued.flatMap Chunk.relayedBytes = []) &&
      (execute (step .wrapping quietEngines) EventLoop w (hangUp (ascii "10.0.0.2"))).any
        fun w' : World => decide ((w'.bevs firstClient.peer).queued.flatMap Chunk.relayedBytes =
          ascii "GET /index.html"))
    (by decide +kernel)
  obtain ⟨hnow, hlater⟩ := Bool.and_eq_true_iff.mp hw
  obtain ⟨hb, hempty⟩ := of_decide_eq_true hnow
  obtain ⟨w', hrun', hsent⟩ := execute_any _ _ w _ _ hlater
  exact ⟨w, w', hrun, hb, hempty, hrun', of_decide_eq_true hsent⟩

end OctopusWaf
