import OctopusWaf.Partners

/-! Where the bytes are. What arrived was moved on or still waits; what was queued was
written or still waits; what a side moved on stands in its peer's queue, in order. -/
namespace OctopusWaf
open CMachine CString Execution

/-- The balance of the buffers of `x`, and what its peer `y` has handed over. -/
structure Account (x y : Bev) : Prop where
  input : x.arrived = x.taken ++ x.input
  output : x.queued.flatMap Chunk.bytes = x.written ++ x.output
  relayed : x.queued.flatMap Chunk.relayedBytes = y.taken

/-- What a bufferevent may leave behind when it is freed. -/
structure Closing (x y : Bev) : Prop where
  gone : x.reported = true → x.live = false
  unreported : x.live = false → x.reported = false → x.output = []
  last : x.reported = true → y.reported = false → x.input = [] ∨ x.judged = some (x.input, true)

section Account

variable {b : BevId} {x y x' y' : Bev}

/-- What an account of a bufferevent is drawn from. -/
def Bev.ledger (x : Bev) : (List UInt8 × List UInt8 × List UInt8) × List Chunk × List UInt8 ×
    List UInt8 :=
  ((x.arrived, x.taken, x.input), x.queued, x.written, x.output)

theorem Account.congr (h : Account x y) (hx : x'.ledger = x.ledger) (hy : y'.taken = y.taken) :
    Account x' y' := by
  simp only [Bev.ledger, Prod.mk.injEq] at hx
  obtain ⟨⟨ha, ht, hi⟩, hq, hw, ho⟩ := hx
  refine ⟨?_, ?_, ?_⟩
  · rw [ha, ht, hi, h.input]
  · rw [hq, hw, ho, h.output]
  · rw [hq, hy, h.relayed]

theorem account_accepted (b : BevId) (connected : Bool) :
    Account (.accepted b connected) (.accepted b.peer connected) := by
  cases connected with
  | true => exact ⟨rfl, rfl, rfl⟩
  | false => exact ⟨rfl, rfl, rfl⟩

/-- Bytes are moved from one buffer to the other; a page adds to one queue only. -/
theorem account_read (b : BevId) (test : Bool) (seen : Seen) (hx : Account x y)
    (hy : Account y x) :
    Account (readSelf x y test seen) (readPartner b x y test) ∧
      Account (readPartner b x y test) (readSelf x y test seen) := by
  have hgive : Account (x.judge false seen).give (y.queue (.relayed x.input)) := by
    refine ⟨?_, hx.output, hx.relayed⟩
    simp [Bev.judge, Bev.give, hx.input]
  have hqueue : Account (y.queue (.relayed x.input)) (x.judge false seen).give := by
    refine ⟨hy.input, ?_, ?_⟩
    · simp [Bev.queue, hy.output, Chunk.bytes]
    · simp [Bev.queue, Bev.judge, Bev.give, hy.relayed, Chunk.relayedBytes]
  rcases read_outcome b x y test seen with ⟨-, hs, hq⟩ | ⟨-, hs, hq⟩ | ⟨-, hs, hq⟩
  · rw [hs, hq]
    constructor
    · refine ⟨hx.input, ?_, ?_⟩
      · simp [Bev.judge, Bev.block, Bev.queue, Bev.setwatermark, Bev.setReading, hx.output,
          Chunk.bytes]
      · simp [Bev.judge, Bev.block, Bev.queue, Bev.setwatermark, Bev.setReading, hx.relayed,
          Chunk.relayedBytes]
    · exact hy.congr rfl rfl
  · rw [hs, hq]
    constructor
    · exact hgive.congr rfl rfl
    · exact hqueue.congr rfl rfl
  · rw [hs, hq]
    exact ⟨hgive, hqueue⟩

theorem Account.abandon (h : Account y x) (hx : x'.taken = x.taken) : Account y.abandon x' := by
  unfold Bev.abandon
  split_ifs
  · exact h.congr rfl hx
  · exact h.congr rfl hx

@[simp] theorem abandon_taken (y : Bev) : y.abandon.taken = y.taken := by
  unfold Bev.abandon
  split_ifs <;> rfl

theorem account_move {ar : IntArith} {e : Engines} {param : Choice} {a : Action}
    {r : Option Inspection} (hx : Account x y) (hy : Account y x)
    (h : Move ar e param b x y a r x' y') : Account x' y' ∧ Account y' x' := by
  cases h with
  | @arrive bytes =>
    constructor
    · refine ⟨?_, hx.output, hx.relayed⟩
      simp [Bev.arrive, hx.input]
    · exact hy.congr rfl rfl
  | @send n =>
    constructor
    · refine ⟨hx.input, ?_, hx.relayed⟩
      simp [Bev.send, hx.output]
    · exact hy.congr rfl rfl
  | @read seen r =>
    have hx' : Account x.startRead y := hx.congr rfl rfl
    have hy' : Account y x.startRead := hy.congr rfl rfl
    exact account_read b r.test seen hx' hy'
  | drain =>
    exact ⟨hx.congr rfl rfl, hy.congr rfl rfl⟩
  | finish =>
    unfold Bev.finish
    split_ifs
    · exact ⟨hx.congr rfl rfl, hy.congr rfl rfl⟩
    · exact ⟨hx, hy⟩
  | notice => exact ⟨hx, hy⟩
  | closeAlone =>
    exact ⟨hx.congr rfl rfl, hy.congr rfl rfl⟩
  | @close what seen r =>
    have hx' : Account (x.report true) y := hx.congr rfl rfl
    have hy' : Account y (x.report true) := hy.congr rfl rfl
    obtain ⟨hs, hq⟩ := account_read b r.test seen hx' hy'
    exact ⟨hs.congr rfl (abandon_taken _), hq.abandon rfl⟩

end Account

section Closing

variable {b : BevId} {x y x' y' : Bev}

/-- Only whether the peer has reported matters of it. -/
theorem Closing.congr (h : Closing x y) (hp : y'.reported = y.reported) : Closing x y' where
  gone := h.gone
  unreported := h.unreported
  last := by simpa only [hp] using h.last

theorem closing_accepted (b : BevId) (connected : Bool) :
    Closing (.accepted b connected) (.accepted b.peer connected) := by
  cases connected <;> constructor <;> simp [Bev.accepted, Bev.fresh, Bev.setcb, Bev.setReading,
    Bev.free]

/-- A live bufferevent has reported nothing. -/
theorem Closing.silent (h : Closing x y) (live : x.live = true) : x.reported = false := by
  cases hr : x.reported with
  | false => rfl
  | true => simp [h.gone hr] at live

/-- Nothing is asked of a live bufferevent but that it has reported nothing. -/
theorem Closing.of_live (live : x.live = true) (hr : x.reported = false) : Closing x y := by
  constructor <;> simp [live, hr]

@[simp] theorem readSelf_reported (test : Bool) (seen : Seen) :
    (readSelf x y test seen).reported = x.reported := by
  unfold readSelf
  split_ifs <;> rfl

@[simp] theorem readPartner_reported (test : Bool) :
    (readPartner b x y test).reported = y.reported := by
  unfold readPartner
  split_ifs <;> rfl

/-- After `readcb` the input has been moved on, or was judged an attack. -/
theorem readSelf_input (test : Bool) (seen : Seen) :
    (readSelf x y test seen).input = [] ∨
      (readSelf x y test seen).judged = some ((readSelf x y test seen).input, true) := by
  unfold readSelf
  split_ifs with ht
  · exact .inr (by simp [ht, Bev.judge, Bev.block, Bev.queue, Bev.setwatermark, Bev.setReading])
  · exact .inl rfl
  · exact .inl rfl

theorem closing_abandon (live : y.live = true) (hr : y.reported = false) :
    Closing y.abandon x := by
  unfold Bev.abandon
  split_ifs with hout
  · exact .of_live live hr
  · have hempty : y.output = [] := by simpa using hout
    constructor <;> simp [Bev.free, hr, hempty]

theorem closing_move {ar : IntArith} {e : Engines} {param : Choice} {a : Action}
    {r : Option Inspection} (hl : Linked b x y) (hx : Closing x y) (hy : Closing y x)
    (h : Move ar e param b x y a r x' y') : Closing x' y' ∧ Closing y' x' := by
  cases h with
  | arrive live =>
    constructor
    · exact .of_live live (hx.silent live)
    · exact hy.congr rfl
  | send live =>
    constructor
    · exact .of_live live (hx.silent live)
    · exact hy.congr rfl
  | read live partner_live =>
    constructor
    · apply Closing.of_live
      · simpa using live
      · rw [readSelf_reported]
        exact hx.silent live
    · apply Closing.of_live
      · simpa using partner_live
      · simpa using hy.silent partner_live
  | drain live partner_live =>
    exact ⟨.of_live live (hx.silent live), .of_live partner_live (hy.silent partner_live)⟩
  | finish live =>
    unfold Bev.finish
    split_ifs with hout
    · have hempty : x.output = [] := List.length_eq_zero_iff.mp hout
      have hrep := hx.silent live
      constructor
      · constructor <;> simp [Bev.free, hrep, hempty]
      · exact hy.congr rfl
    · exact ⟨hx, hy⟩
  | notice => exact ⟨hx, hy⟩
  | closeAlone live hw arg =>
    obtain ⟨hdead, hrep⟩ := hl.alone live arg
    constructor
    · constructor <;> simp [Bev.report, Bev.free, hrep]
    · refine ⟨hy.gone, hy.unreported, ?_⟩
      simp [Bev.report, Bev.free]
  | @close what seen r live partner_live arg back hw inspect =>
    have hrep := hy.silent partner_live
    constructor
    · refine ⟨fun _ => rfl, ?_, fun _ _ => readSelf_input r.test seen⟩
      simp [Bev.free, Bev.report]
    · apply closing_abandon
      · simpa using partner_live
      · simpa using hrep

end Closing

section Runs

variable {ar : IntArith} {e : Engines} {param : Choice} {w : World}

theorem account_reachable (h : Reaches (step ar e) Enabled (.initial param) w) :
    w.Pairwise fun _ => Account := by
  apply pairwise_reachable (fun _ _ => id) _ account_accepted _ h
  · exact fun _ => ⟨rfl, rfl, rfl⟩
  · intro v a b r x y _ _ hx hy hm
    exact account_move hx hy hm

theorem closing_reachable (h : Reaches (step ar e) Enabled (.initial param) w) :
    w.Pairwise fun _ => Closing := by
  apply pairwise_reachable (fun _ _ => id) _ closing_accepted _ h
  · intro b
    constructor <;> simp [Bev.fresh]
  · intro v a b r x y _ hl hx hy hm
    exact closing_move hl hx hy hm

/-- What arrived at `b` was taken from its input or still stands there. Every byte `readcb`
takes from it stands, in every later state, in the queue of its peer, and a queue has been
written or is still in the output buffer. A bufferevent that reported nothing is freed with an
empty output buffer; where `b` reported, its peer did not, and the peer is freed, all of `b`'s
input that passes the filter was moved and written. -/
theorem no_byte_lost_at_close (h : Reaches (step ar e) Enabled (.initial param) w) (b : BevId) :
    (w.bevs b).arrived = (w.bevs b).taken ++ (w.bevs b).input ∧
    (∀ w', Reaches (step ar e) Enabled w w' →
      (w.bevs b).taken <+: (w'.bevs b.peer).queued.flatMap Chunk.relayedBytes ∧
      (w'.bevs b.peer).queued.flatMap Chunk.bytes =
        (w'.bevs b.peer).written ++ (w'.bevs b.peer).output) ∧
    ((w.bevs b).live = false → (w.bevs b).reported = false → (w.bevs b).output = []) ∧
    ((w.bevs b).reported = true → (w.bevs b.peer).live = false →
      (w.bevs b.peer).reported = false →
      ((w.bevs b).input = [] ∨ (w.bevs b).judged = some ((w.bevs b).input, true)) ∧
      (w.bevs b.peer).queued.flatMap Chunk.relayedBytes = (w.bevs b).taken ∧
      (w.bevs b.peer).queued.flatMap Chunk.bytes = (w.bevs b.peer).written) := by
  have hclosing := closing_reachable h
  refine ⟨(account_reachable h b).input, fun w' hrun => ?_, (hclosing b).unreported,
    fun hrep hdead hpeer => ?_⟩
  · have hpeer := account_reachable (h.trans hrun) b.peer
    rw [BevId.peer_peer] at hpeer
    refine ⟨?_, hpeer.output⟩
    rw [hpeer.relayed]
    by_cases hborn : b.conn < w.next
    · exact (grows_run h hborn hrun).2.taken
    · have hnew := unborn_reachable h b (by omega)
      simp [hnew, Bev.fresh]
  · have hout := (hclosing b.peer).unreported hdead hpeer
    have hacc := account_reachable h b.peer
    have hwritten := hacc.output
    rw [hout, List.append_nil] at hwritten
    rw [BevId.peer_peer] at hacc
    exact ⟨(hclosing b).last hrep hpeer, hacc.relayed, hwritten⟩

/-- The request of a client that has closed is written before the upstream side is freed. -/
theorem no_byte_lost_at_close_request :
    ∃ w, Reaches (step .wrapping quietEngines) Enabled
        (.initial (matchOnly (ascii "<script>\n") 3)) w ∧
      (w.bevs firstClient.peer).live = false ∧
      ascii "GET /index.html" <+: (w.bevs firstClient.peer).written := by
  obtain ⟨w, hrun, hw⟩ := execute_any (step .wrapping quietEngines) Enabled
    (.initial (matchOnly (ascii "<script>\n") 3))
    (requestAndClose (ascii "GET /index.html") (ascii "10.0.0.9") ++
      [.send firstClient.peer 15, .writable firstClient.peer])
    (fun w => decide ((w.bevs firstClient).reported = true ∧
      (w.bevs firstClient.peer).live = false ∧ (w.bevs firstClient.peer).reported = false ∧
      ascii "GET /index.html" <+: (w.bevs firstClient.peer).queued.flatMap Chunk.bytes))
    (by decide +kernel)
  obtain ⟨hrep, hdead, hpeer, hqueued⟩ := of_decide_eq_true hw
  obtain ⟨-, -, -, hlast⟩ := no_byte_lost_at_close hrun firstClient
  rw [(hlast hrep hdead hpeer).2.2] at hqueued
  exact ⟨w, hrun, hdead, hqueued⟩

end Runs

end OctopusWaf
