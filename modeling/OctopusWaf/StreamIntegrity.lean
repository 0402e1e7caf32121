import OctopusWaf.StreamAccounting
import OctopusWaf.VerdictHistory

/-! What reaches the two sockets of a connection. The upstream side is served by the same
`readcb`, so the streams are whole only while nothing in a response looks like an attack. -/
namespace OctopusWaf
open CMachine CString Execution

/-- An enabled step that finds nothing hostile in what the upstream has sent. -/
def UpstreamHarmless (ar : IntArith) (e : Engines) (w : World) (a : Action) : Prop :=
  Enabled w a ∧ ∀ i ∈ inspects w a, i.1.side = .upstream →
    ¬ Hostile ar e w.param (w.bevs i.1).input i.2

instance (ar : IntArith) (e : Engines) (w : World) (a : Action) :
    Decidable (UpstreamHarmless ar e w a) := inferInstanceAs (Decidable (_ ∧ _))

/-- No page was sent to the upstream, and it was never blocked. -/
def Unanswered (b : BevId) (x : Bev) : Prop :=
  b.side = .upstream → Chunk.page ∉ x.queued ∧ x.blocked = none

section Unanswered

variable {b : BevId} {x y x' y' : Bev}

/-- What passes the filter adds no page and blocks nothing. -/
theorem unanswered_readSelf {test : Bool} {seen : Seen} (h : Unanswered b x)
    (ht : b.side = .upstream → test = false) : Unanswered b (readSelf x y test seen) := by
  intro hs
  obtain ⟨hq, hb⟩ := h hs
  rcases read_outcome b x y test seen with ⟨hf, -⟩ | ⟨-, hself, -⟩ | ⟨-, hself, -⟩
  · simp [ht hs] at hf
  · rw [hself]
    exact ⟨hq, by simpa [Bev.judge, Bev.give, Bev.setReading] using hb⟩
  · rw [hself]
    exact ⟨hq, by simpa [Bev.judge, Bev.give] using hb⟩

theorem unanswered_readPartner {test : Bool} (h : Unanswered b.peer y) :
    Unanswered b.peer (readPartner b x y test) := by
  intro hs
  obtain ⟨hq, hb⟩ := h hs
  unfold readPartner
  split_ifs
  · exact ⟨hq, hb⟩
  · exact ⟨by simpa [Bev.queue, Bev.arm, Bev.setcb, Bev.setwatermark] using hq, hb⟩
  · exact ⟨by simpa [Bev.queue] using hq, hb⟩

theorem unanswered_abandon (h : Unanswered b y) : Unanswered b y.abandon := by
  unfold Bev.abandon
  split_ifs
  · exact h
  · exact h

theorem unanswered_move {ar : IntArith} {e : Engines} {param : Choice} {a : Action}
    {r : Option Inspection} (hx : Unanswered b x) (hy : Unanswered b.peer y)
    (hpass : ∀ i, r = some i → b.side = .upstream → i.test = false)
    (h : Move ar e param b x y a r x' y') : Unanswered b x' ∧ Unanswered b.peer y' := by
  cases h with
  | arrive => exact ⟨hx, hy⟩
  | send => exact ⟨hx, hy⟩
  | read => exact ⟨unanswered_readSelf hx (hpass _ rfl), unanswered_readPartner hy⟩
  | drain => exact ⟨hx, hy⟩
  | finish =>
    unfold Bev.finish
    split_ifs
    · exact ⟨hx, hy⟩
    · exact ⟨hx, hy⟩
  | notice => exact ⟨hx, hy⟩
  | closeAlone => exact ⟨hx, hy⟩
  | @close what seen r =>
    have hself : Unanswered b (readSelf (x.report true) y r.test seen) :=
      unanswered_readSelf hx (hpass r rfl)
    exact ⟨hself, unanswered_abandon (unanswered_readPartner hy)⟩

end Unanswered

section Runs

variable {ar : IntArith} {e : Engines} {param : Choice} {w : World}

theorem unanswered_reachable
    (h : Reaches (step ar e) (UpstreamHarmless ar e) (.initial param) w) :
    w.Pairwise fun b x _ => Unanswered b x := by
  refine pairwise_reachable (fun _ _ hg => hg.1) ?_ ?_ ?_ h
  · intro b _
    simp [Bev.fresh]
  · intro b connected _
    cases connected <;> simp [Bev.accepted, Bev.fresh, Bev.setcb, Bev.setReading, Bev.free]
  · intro v a b r x y hg _ hx hy hm
    apply unanswered_move hx hy _ hm
    intro i hi hside
    subst hi
    obtain ⟨seen, hseen, hf⟩ := inspects_of_move hm
    by_contra ht
    exact hg.2 (b, seen) hseen hside (hostile_of_test hf (by simpa using ht))

/-- An inspecting action moves the bufferevent it inspects, and empties its input unless the
test is positive. -/
theorem move_of_inspects {b i : BevId} {seen : Seen} {a : Action} {r : Option Inspection}
    {x y : Bev} (hm : Move ar e w.param b (w.bevs b) (w.bevs b.peer) a r x y)
    (hi : inspects w a = some (i, seen)) :
    b = i ∧ ∃ found, filter_check ar e w.param (w.bevs b).input seen = .ok found ∧
      (found.test = false → x.input = []) := by
  cases hm with
  | arrive => simp [inspects] at hi
  | send => simp [inspects] at hi
  | @read seen' r live partner_live arg back inspect =>
    obtain ⟨rfl, rfl⟩ := Prod.mk.inj (Option.some.inj hi)
    refine ⟨rfl, r, inspect, fun ht => ?_⟩
    rw [ht]
    exact (readSelf_pass _ _ _).1
  | drain => simp [inspects] at hi
  | finish => simp [inspects] at hi
  | notice live hw => simp [inspects, hw] at hi
  | closeAlone live hw arg => simp [inspects, arg] at hi
  | @close what seen' r live partner_live arg back hw inspect =>
    simp only [inspects, hw, arg] at hi
    obtain ⟨rfl, rfl⟩ := Prod.mk.inj (Option.some.inj hi)
    refine ⟨rfl, r, inspect, fun ht => ?_⟩
    rw [ht]
    exact (readSelf_pass _ _ _).1

theorem relayed_of_no_page {queued : List Chunk} (h : Chunk.page ∉ queued) :
    queued.flatMap Chunk.bytes = queued.flatMap Chunk.relayedBytes := by
  induction queued with
  | nil => simp
  | cons c queued ih =>
    simp only [List.mem_cons, not_or] at h
    rw [List.flatMap_cons, List.flatMap_cons, ih h.2]
    cases c with
    | relayed bytes => rfl
    | page => exact absurd rfl h.1

/-- While nothing the upstream sends is hostile, no byte of either stream is lost, changed or
moved out of order: what a side sent stands in the other side's output, block pages apart, but
for what still waits in its input. The upstream is sent no page and is not blocked, and all it
has sent is queued for the client when it is read. -/
theorem streams_whole_while_harmless
    (h : Reaches (step ar e) (UpstreamHarmless ar e) (.initial param) w) (c : ℕ) :
    (w.bevs ⟨c, .client⟩).arrived =
        (w.bevs ⟨c, .upstream⟩).written ++ (w.bevs ⟨c, .upstream⟩).output ++
          (w.bevs ⟨c, .client⟩).input ∧
      ((w.bevs ⟨c, .client⟩).queued.flatMap Chunk.bytes =
          (w.bevs ⟨c, .client⟩).written ++ (w.bevs ⟨c, .client⟩).output ∧
        (w.bevs ⟨c, .upstream⟩).arrived =
          (w.bevs ⟨c, .client⟩).queued.flatMap Chunk.relayedBytes ++
            (w.bevs ⟨c, .upstream⟩).input) ∧
      (Chunk.page ∉ (w.bevs ⟨c, .upstream⟩).queued ∧ (w.bevs ⟨c, .upstream⟩).blocked = none) ∧
      ∀ a seen w', UpstreamHarmless ar e w a → inspects w a = some (⟨c, .upstream⟩, seen) →
        step ar e w a = .ok w' → (w'.bevs ⟨c, .upstream⟩).input = [] ∧
          (w'.bevs ⟨c, .client⟩).queued.flatMap Chunk.relayedBytes =
            (w'.bevs ⟨c, .upstream⟩).arrived := by
  have hen := h.mono fun _ _ h => h.1
  have hup := account_reachable hen ⟨c, .upstream⟩
  have hcl := account_reachable hen ⟨c, .client⟩
  have hnone := unanswered_reachable h ⟨c, .upstream⟩ rfl
  refine ⟨?_, ⟨hcl.output, ?_⟩, hnone, ?_⟩
  · rw [← hup.output, relayed_of_no_page hnone.1, hup.relayed]
    exact hcl.input
  · rw [hcl.relayed]
    exact hup.input
  · intro a seen w' hg hi hs
    have hempty : (w'.bevs ⟨c, .upstream⟩).input = [] := by
      cases effect_of_step (linked_reachable hen) hg.1 hs with
      | accept connected => simp [inspects] at hi
      | @move b a r x y hm =>
        obtain ⟨rfl, i, hf, hx⟩ := move_of_inspects hm hi
        have ht : i.test = false := by
          by_contra ht
          exact hg.2 _ hi rfl (hostile_of_test hf (by simpa using ht))
        rw [put_bevs_self, hx ht]
    have hnext := hen.tail hg.1 hs
    have hmoved := (account_reachable hnext ⟨c, .upstream⟩).input
    rw [hempty, List.append_nil] at hmoved
    exact ⟨hempty, (account_reachable hnext ⟨c, .client⟩).relayed.trans hmoved.symm⟩

end Runs

/-- A request and a response that arrives in two pieces, the second one `body`. -/
def exchange (body : List UInt8) : List Action :=
  [.accept true, .arrive firstClient (ascii "GET /log.txt"),
    .read firstClient (seenAt (ascii "10.0.0.9")),
    .arrive firstClient.peer (ascii "HTTP/1.1 200 OK\r\n\r\n"),
    .read firstClient.peer (seenAt (ascii "10.0.0.80")),
    .arrive firstClient.peer body, .read firstClient.peer (seenAt (ascii "10.0.0.80"))]

/-- A body that begins with a method and has no rule in it goes through. -/
theorem streams_whole_while_harmless_log :
    ∃ w, Reaches (step .wrapping quietEngines) (UpstreamHarmless .wrapping quietEngines)
        (.initial (matchOnly (ascii "<script>\n") 3)) w ∧
      (w.bevs firstClient).output =
        ascii "HTTP/1.1 200 OK\r\n\r\n" ++ ascii "GET /index.html 200" ∧
      (w.bevs firstClient.peer).written ++ (w.bevs firstClient.peer).output <+:
        (w.bevs firstClient).arrived ∧
      Chunk.page ∉ (w.bevs firstClient.peer).queued := by
  obtain ⟨w, hrun, hw⟩ := execute_any (step .wrapping quietEngines)
    (UpstreamHarmless .wrapping quietEngines) (.initial (matchOnly (ascii "<script>\n") 3))
    (exchange (ascii "GET /index.html 200"))
    (fun w => decide ((w.bevs firstClient).output =
      ascii "HTTP/1.1 200 OK\r\n\r\n" ++ ascii "GET /index.html 200"))
    (by decide +kernel)
  obtain ⟨harrived, -, hnone, -⟩ := streams_whole_while_harmless hrun 0
  have hpre : (w.bevs firstClient.peer).written ++ (w.bevs firstClient.peer).output <+:
      (w.bevs firstClient).arrived := ⟨_, harrived.symm⟩
  exact ⟨w, hrun, of_decide_eq_true hw, hpre, hnone.1⟩

/-- A body that begins with a method and quotes a rule makes the proxy answer the upstream
with a block page and keep the body back. -/
theorem response_blocked_as_request :
    ∃ w, Reaches (step .wrapping quietEngines) EventLoop
        (.initial (matchOnly (ascii "<script>\n") 3)) w ∧
      Chunk.page ∈ (w.bevs firstClient.peer).queued ∧
      ¬ (w.bevs firstClient.peer).written ++ (w.bevs firstClient.peer).output <+:
        (w.bevs firstClient).arrived ∧
      (w.bevs firstClient.peer).reading = false ∧
      (w.bevs firstClient.peer).input = ascii "GET /?q=<script> 404" := by
  obtain ⟨w, hrun, hw⟩ := execute_any (step .wrapping quietEngines) EventLoop
    (.initial (matchOnly (ascii "<script>\n") 3)) (exchange (ascii "GET /?q=<script> 404"))
    (fun w => decide (Chunk.page ∈ (w.bevs firstClient.peer).queued ∧
      ¬ (w.bevs firstClient.peer).written ++ (w.bevs firstClient.peer).output <+:
        (w.bevs firstClient).arrived ∧
      (w.bevs firstClient.peer).reading = false ∧
      (w.bevs firstClient.peer).input = ascii "GET /?q=<script> 404"))
    (by decide +kernel)
  exact ⟨w, hrun, of_decide_eq_true hw⟩

end OctopusWaf
