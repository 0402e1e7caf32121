import OctopusWaf.Partners
import OctopusWaf.VerdictHistory

/-! A client stream that arrives in pieces. Nothing reassembles it: every read is judged on
its own, with the block list as the reads before it have left it. -/
namespace OctopusWaf
open CMachine CString Execution

/-- What may happen on the side that is written to: its socket takes bytes, or its write
callback runs. -/
inductive Relief where
  | sent (n : ℕ)
  | drained
  deriving DecidableEq

def Relief.action (b : BevId) : Relief → Action
  | .sent n => .send b n
  | .drained => .writable b

def relieve (ar : IntArith) (e : Engines) (w : World) (b : BevId) : List Relief → Except Fault World
  | [] => .ok w
  | r :: rs => do
    let w ← step ar e w (r.action b)
    relieve ar e w b rs

/-- A piece of a stream, what its inspection sees, and what the other side was relieved of
before it arrived. -/
structure Piece where
  reliefs : List Relief
  bytes : List UInt8
  seen : Seen
  deriving DecidableEq

def Piece.read (piece : Piece) : List UInt8 × Seen := (piece.bytes, piece.seen)

/-- One piece arrives and is read. -/
def serveOne (ar : IntArith) (e : Engines) (w : World) (b : BevId) (piece : Piece) :
    Except Fault World := do
  let w ← relieve ar e w b.peer piece.reliefs
  let w ← step ar e w (.arrive b piece.bytes)
  step ar e w (.read b piece.seen)

/-- The reads one after the other, up to the first that is blocked. -/
def serve (ar : IntArith) (e : Engines) (w : World) (b : BevId) :
    List Piece → Except Fault World
  | [] => .ok w
  | piece :: pieces => do
    let w ← serveOne ar e w b piece
    if (w.bevs b).blocked ≠ none then .ok w else serve ar e w b pieces

/-- All that was moved to the output buffer of the other side. -/
def World.moved (w : World) (b : BevId) : List UInt8 :=
  (w.bevs b.peer).queued.flatMap Chunk.relayedBytes

/-- A read that is an attack by itself, after the reads before it. -/
def JudgedAttack (ar : IntArith) (e : Engines) (param : Choice)
    (before : List (List UInt8 × Seen)) (read : List UInt8 × Seen) : Prop :=
  ∃ param', history ar e param before = .ok param' ∧
    verdict ar e param' read.1 read.2 = .ok true

/-- A connection between two reads, nothing of it blocked and all of it moved on. -/
structure Serving (b : BevId) (param : Choice) (moved : List UInt8) (w : World) : Prop where
  param_eq : w.param = param
  live : (w.bevs b).live = true
  peer_live : (w.bevs b.peer).live = true
  arg : (w.bevs b).cbarg = some b.peer
  back : (w.bevs b.peer).cbarg = some b
  emptied : (w.bevs b).input = []
  not_blocked : (w.bevs b).blocked = none
  not_closing : (w.bevs b.peer).writecb ≠ some .close_on_finished_writecb
  moved_eq : w.moved b = moved

section Serve

variable {ar : IntArith} {e : Engines} {param : Choice} {b : BevId} {w v : World}
  {moved : List UInt8}

theorem serving_accepted (param : Choice) :
    Serving firstClient param [] ((World.initial param).accepted true) where
  param_eq := rfl
  live := rfl
  peer_live := rfl
  arg := rfl
  back := rfl
  emptied := rfl
  not_blocked := rfl
  not_closing := (Option.some_ne_none _).symm
  moved_eq := rfl

theorem sent_ok {n : ℕ} (h : Serving b param moved w)
    (hs : step ar e w (.send b.peer n) = .ok v) : Serving b param moved v := by
  have hsend : step ar e w (.send b.peer n) = _ := step_send h.peer_live
  rw [BevId.peer_peer, put_comm] at hsend
  rw [hsend] at hs
  rw [← Except.ok.inj hs]
  constructor
  · exact h.param_eq
  · simpa using h.live
  · simpa [Bev.send] using h.peer_live
  · simpa using h.arg
  · simpa [Bev.send] using h.back
  · simpa using h.emptied
  · simpa using h.not_blocked
  · simpa [Bev.send] using h.not_closing
  · simpa [World.moved, Bev.send] using h.moved_eq

/-- Whether a drain is armed or not, its callback lets the reads go on. -/
theorem drained_ok (h : Serving b param moved w)
    (hs : step ar e w (.writable b.peer) = .ok v) : Serving b param moved v := by
  cases hcb : (w.bevs b.peer).writecb with
  | none =>
    have hidle : step ar e w (.writable b.peer) = .ok w := by
      simp [step, World.get, h.peer_live, hcb, bind, Except.bind]
    rw [hidle] at hs
    rwa [← Except.ok.inj hs]
  | some cb =>
    cases cb with
    | close_on_finished_writecb => exact absurd hcb h.not_closing
    | drained_writecb =>
      have hdrain : step ar e w (.writable b.peer) = _ :=
        step_drain h.peer_live (by simpa using h.live) (by simpa using h.back) hcb
      rw [hdrain, BevId.peer_peer, put_comm] at hs
      rw [← Except.ok.inj hs]
      constructor
      · exact h.param_eq
      · simpa using h.live
      · simpa [Bev.disarm] using h.peer_live
      · simpa [Bev.setReading] using h.arg
      · simp [Bev.disarm, Bev.setcb, Bev.setwatermark]
      · simpa [Bev.setReading] using h.emptied
      · simpa [Bev.setReading] using h.not_blocked
      · simp [Bev.disarm, Bev.setcb, Bev.setwatermark]
      · simpa [World.moved, Bev.disarm, Bev.setcb, Bev.setwatermark] using h.moved_eq

theorem relieve_ok {reliefs : List Relief} (h : Serving b param moved w)
    (hs : relieve ar e w b.peer reliefs = .ok v) : Serving b param moved v := by
  induction reliefs generalizing w with
  | nil => rwa [← Except.ok.inj hs]
  | cons r rs ih =>
    obtain ⟨w₁, hstep, hrest⟩ := bind_ok hs
    cases r with
    | sent n => exact ih (sent_ok h hstep) hrest
    | drained => exact ih (drained_ok h hstep) hrest

theorem readOne_ok {read : List UInt8 × Seen} (h : Serving b param moved w)
    (hs : (do
      let w ← step ar e w (.arrive b read.1)
      step ar e w (.read b read.2)) = .ok v) :
    ∃ r, filter_check ar e param read.1 read.2 = .ok r ∧
      (r.test = true → (v.bevs b).blocked ≠ none ∧ v.moved b = moved) ∧
      (r.test = false →
        Serving b { param with block_addr_list := r.block_addr_list } (moved ++ read.1) v) := by
  have harrive : step ar e w (.arrive b read.1) = _ := step_arrive h.live
  generalize hw : w.put b ((w.bevs b).arrive read.1) (w.bevs b.peer) = w₁ at harrive
  have hself : w₁.bevs b = (w.bevs b).arrive read.1 := by rw [← hw, put_bevs_self]
  have hpeer : w₁.bevs b.peer = w.bevs b.peer := by rw [← hw, put_bevs_peer]
  have hparam : w₁.param = param := by rw [← hw, put_param, h.param_eq]
  have hinput : (w₁.bevs b).input = read.1 := by
    rw [hself]
    simp [Bev.arrive, h.emptied]
  have hread : step ar e w₁ (.read b read.2) = _ :=
    step_read (by rw [hself]; exact h.live) (by rw [hpeer]; exact h.peer_live)
      (by rw [hself]; exact h.arg)
  rw [harrive] at hs
  change step ar e w₁ (.read b read.2) = .ok v at hs
  rw [hread, hparam, hinput] at hs
  obtain ⟨r, hf, rfl⟩ := map_ok hs
  refine ⟨r, stopOnTrap_ok hf, fun ht => ?_, fun ht => ?_⟩
  · rw [ht]
    constructor
    · rw [put_bevs_self]
      exact Option.some_ne_none _
    · rw [World.moved, put_bevs_peer, hpeer]
      exact h.moved_eq
  · rw [ht]
    obtain ⟨hempty, hblocked⟩ :=
      readSelf_pass (w₁.bevs b).startRead (w₁.bevs b.peer) read.2
    have hqueued := readPartner_pass b (w₁.bevs b) (w₁.bevs b.peer)
    constructor
    · change { w₁.param with block_addr_list := r.block_addr_list } = _
      rw [hparam]
    · rw [put_bevs_self, readSelf_live, startRead_live, hself]
      exact h.live
    · rw [put_bevs_peer, readPartner_live, hpeer]
      exact h.peer_live
    · rw [put_bevs_self, readSelf_cbarg, hself]
      exact h.arg
    · rw [put_bevs_peer]
      exact readPartner_cbarg b _ _ false (by rw [hpeer]; exact h.back)
    · rw [put_bevs_self, hempty]
    · rw [put_bevs_self, hblocked, hself]
      exact h.not_blocked
    · rw [put_bevs_peer]
      rcases readPartner_writecb b (w₁.bevs b) (w₁.bevs b.peer) false with hcb | hcb
      · rw [hcb, hpeer]
        exact h.not_closing
      · simp [hcb]
    · rw [World.moved, put_bevs_peer, hqueued, hinput, hpeer, ← h.moved_eq, World.moved]
      simp [Chunk.relayedBytes]

theorem serveOne_ok {piece : Piece} (h : Serving b param moved w)
    (hs : serveOne ar e w b piece = .ok v) :
    ∃ r, filter_check ar e param piece.bytes piece.seen = .ok r ∧
      (r.test = true → (v.bevs b).blocked ≠ none ∧ v.moved b = moved) ∧
      (r.test = false →
        Serving b { param with block_addr_list := r.block_addr_list } (moved ++ piece.bytes)
          v) := by
  obtain ⟨w₁, hrelieve, hread⟩ := bind_ok hs
  exact @readOne_ok _ _ _ _ _ _ _ piece.read (relieve_ok h hrelieve) hread

theorem judgedAttack_nil {read : List UInt8 × Seen} :
    JudgedAttack ar e param [] read ↔ verdict ar e param read.1 read.2 = .ok true := by
  simp [JudgedAttack, history]

theorem judgedAttack_cons {first read : List UInt8 × Seen} {before : List (List UInt8 × Seen)}
    {r : Inspection} (hr : filter_check ar e param first.1 first.2 = .ok r) :
    JudgedAttack ar e param (first :: before) read ↔
      JudgedAttack ar e { param with block_addr_list := r.block_addr_list } before read := by
  simp [JudgedAttack, history, hr, bind, Except.bind]

/-- After a piece that passed, an attack is among the later pieces. -/
theorem judgedAttack_later {first piece : Piece} {pieces before after : List Piece}
    {r : Inspection} (hr : filter_check ar e param first.bytes first.seen = .ok r)
    (ht : r.test = false) (hsplit : first :: pieces = before ++ piece :: after)
    (hj : JudgedAttack ar e param (before.map Piece.read) piece.read) :
    ∃ later, before = first :: later ∧ pieces = later ++ piece :: after ∧
      JudgedAttack ar e { param with block_addr_list := r.block_addr_list }
        (later.map Piece.read) piece.read := by
  cases before with
  | nil =>
    obtain ⟨rfl, -⟩ := List.cons.inj hsplit
    rw [List.map_nil, judgedAttack_nil, verdict, Piece.read, hr] at hj
    simp [ht] at hj
  | cons c later =>
    obtain ⟨rfl, hpieces⟩ := List.cons.inj hsplit
    rw [List.map_cons] at hj
    exact ⟨later, rfl, hpieces, (judgedAttack_cons hr).mp hj⟩

theorem serve_ok {pieces : List Piece} (h : Serving b param moved w)
    (hs : serve ar e w b pieces = .ok v) :
    ((v.bevs b).blocked ≠ none ↔ ∃ before piece after, pieces = before ++ piece :: after ∧
      JudgedAttack ar e param (before.map Piece.read) piece.read) ∧
    ((v.bevs b).blocked = none → v.moved b = moved ++ pieces.flatMap Piece.bytes) ∧
    ∀ before piece after, pieces = before ++ piece :: after →
      JudgedAttack ar e param (before.map Piece.read) piece.read →
        v.moved b <+: moved ++ before.flatMap Piece.bytes := by
  induction pieces generalizing param moved w with
  | nil =>
    obtain rfl := Except.ok.inj hs
    refine ⟨?_, fun _ => by simp [h.moved_eq], ?_⟩
    · simp [h.not_blocked]
    · intro before piece after hsplit
      simp at hsplit
  | cons first pieces ih =>
    obtain ⟨w₁, hone, hs⟩ := bind_ok hs
    obtain ⟨r, hr, hhit, hmiss⟩ := serveOne_ok h hone
    have hverdict : verdict ar e param first.bytes first.seen = .ok r.test := by
      rw [verdict, hr]
      rfl
    cases ht : r.test with
    | true =>
      obtain ⟨hblocked, hmoved⟩ := hhit ht
      rw [if_pos hblocked] at hs
      obtain rfl := Except.ok.inj hs
      refine ⟨?_, fun hnone => absurd hnone hblocked, ?_⟩
      · refine iff_of_true hblocked ⟨[], first, pieces, rfl, ?_⟩
        rw [List.map_nil, judgedAttack_nil, Piece.read, hverdict, ht]
      · intro before piece after _ _
        rw [hmoved]
        exact List.prefix_append _ _
    | false =>
      have hserving := hmiss ht
      rw [if_neg (by simp [hserving.not_blocked])] at hs
      obtain ⟨hiff, hall, hpre⟩ := ih hserving hs
      refine ⟨?_, fun hnone => ?_, ?_⟩
      · rw [hiff]
        constructor
        · rintro ⟨before, piece, after, rfl, hj⟩
          exact ⟨first :: before, piece, after, rfl, (judgedAttack_cons hr).mpr hj⟩
        · rintro ⟨before, piece, after, hsplit, hj⟩
          obtain ⟨later, -, hpieces, hj⟩ := judgedAttack_later hr ht hsplit hj
          exact ⟨later, piece, after, hpieces, hj⟩
      · rw [hall hnone, List.flatMap_cons, List.append_assoc]
      · intro before piece after hsplit hj
        obtain ⟨later, rfl, hpieces, hj⟩ := judgedAttack_later hr ht hsplit hj
        have hmoved := hpre later piece after hpieces hj
        rwa [List.flatMap_cons, ← List.append_assoc]

end Serve

/-- A connection that was just accepted. -/
def freshConnection (param : Choice) : World := (World.initial param).accepted true

/-- One stream on a fresh connection, as a single read and in pieces, whatever the other side
writes in between. The single read is blocked exactly if the stream as a whole is an attack;
the pieces are blocked, before all of them were moved, exactly if some piece is an attack by
itself, and then nothing of it or after it is moved; else all is. -/
theorem reads_judged_alone {ar : IntArith} {e : Engines} {param : Choice} {w₁ w : World}
    {whole : Piece} {pieces : List Piece} (hne : ∀ piece ∈ pieces, piece.bytes ≠ [])
    (hstream : pieces.flatMap Piece.bytes = whole.bytes)
    (hone : serve ar e (freshConnection param) firstClient [whole] = .ok w₁)
    (hcut : serve ar e (freshConnection param) firstClient pieces = .ok w) :
    ((w₁.bevs firstClient).blocked ≠ none ↔ JudgedAttack ar e param [] whole.read) ∧
    ((w.bevs firstClient).blocked ≠ none ∧ w.moved firstClient ≠ whole.bytes ↔
      ∃ before piece after, pieces = before ++ piece :: after ∧
        JudgedAttack ar e param (before.map Piece.read) piece.read) ∧
    (∀ before piece after, pieces = before ++ piece :: after →
      JudgedAttack ar e param (before.map Piece.read) piece.read →
        w.moved firstClient <+: before.flatMap Piece.bytes) ∧
    ((w.bevs firstClient).blocked = none → w.moved firstClient = whole.bytes) := by
  obtain ⟨hwhole, -, -⟩ := serve_ok (serving_accepted param) hone
  obtain ⟨hiff, hall, hpre⟩ := serve_ok (serving_accepted param) hcut
  simp only [List.nil_append] at hall hpre
  rw [hstream] at hall
  refine ⟨?_, ?_, hpre, hall⟩
  · rw [hwhole]
    constructor
    · rintro ⟨before, piece, after, hsplit, hj⟩
      obtain ⟨rfl, hrest⟩ | ⟨rest, -, hrest⟩ := List.cons_eq_append_iff.mp hsplit
      · obtain ⟨rfl, -⟩ := List.cons.inj hrest
        exact hj
      · simp at hrest
    · exact fun hj => ⟨[], whole, [], rfl, hj⟩
  · rw [← hiff]
    refine and_iff_left_of_imp fun hblocked hmoved => ?_
    obtain ⟨before, piece, after, rfl, hj⟩ := hiff.mp hblocked
    have hlen := (hpre before piece after rfl hj).length_le
    have hpiece := List.length_pos_of_ne_nil (hne piece (by simp))
    rw [hmoved, ← hstream] at hlen
    simp only [List.flatMap_append, List.flatMap_cons, List.length_append] at hlen
    omega

/-- A harmless piece, a short write, and a piece that is an attack by itself: the second is
blocked, and only the first is moved. As one read the stream is blocked too. -/
theorem reads_judged_alone_second :
    ∃ w₁ w, serve .wrapping quietEngines (freshConnection (matchOnly (ascii "<script>\n") 3))
        firstClient [⟨[], ascii "GET /index.htmlGET /?q=<script>", seenAt (ascii "10.0.0.9")⟩] =
          .ok w₁ ∧
      serve .wrapping quietEngines (freshConnection (matchOnly (ascii "<script>\n") 3))
        firstClient [⟨[], ascii "GET /index.html", seenAt (ascii "10.0.0.9")⟩,
          ⟨[.sent 5, .drained], ascii "GET /?q=<script>", seenAt (ascii "10.0.0.9")⟩] = .ok w ∧
      (w₁.bevs firstClient).blocked ≠ none ∧ (w.bevs firstClient).blocked ≠ none ∧
      w.moved firstClient <+: ascii "GET /index.html" := by
  have hrun₁ : (fun _ : World => true) <$>
      serve .wrapping quietEngines (freshConnection (matchOnly (ascii "<script>\n") 3))
        firstClient [⟨[], ascii "GET /index.htmlGET /?q=<script>", seenAt (ascii "10.0.0.9")⟩] =
          .ok true := by
    decide +kernel
  have hrun : (fun _ : World => true) <$>
      serve .wrapping quietEngines (freshConnection (matchOnly (ascii "<script>\n") 3))
        firstClient [⟨[], ascii "GET /index.html", seenAt (ascii "10.0.0.9")⟩,
          ⟨[.sent 5, .drained], ascii "GET /?q=<script>", seenAt (ascii "10.0.0.9")⟩] =
            .ok true := by
    decide +kernel
  obtain ⟨w₁, hw₁, -⟩ := map_ok hrun₁
  obtain ⟨w, hw, -⟩ := map_ok hrun
  have hattack : JudgedAttack .wrapping quietEngines (matchOnly (ascii "<script>\n") 3) []
      (ascii "GET /index.htmlGET /?q=<script>", seenAt (ascii "10.0.0.9")) :=
    ⟨matchOnly (ascii "<script>\n") 3, by decide +kernel, by decide +kernel⟩
  have hj : JudgedAttack .wrapping quietEngines (matchOnly (ascii "<script>\n") 3)
      [(ascii "GET /index.html", seenAt (ascii "10.0.0.9"))]
      (ascii "GET /?q=<script>", seenAt (ascii "10.0.0.9")) :=
    ⟨matchOnly (ascii "<script>\n") 3, by decide +kernel, by decide +kernel⟩
  obtain ⟨hwhole, hiff, hmoved, -⟩ :=
    reads_judged_alone (by decide +kernel) (by decide +kernel) hw₁ hw
  have hblocked := hiff.mpr ⟨[_], _, [], rfl, hj⟩
  exact ⟨w₁, w, hw₁, hw, hwhole.mpr hattack, hblocked.1, hmoved [_] _ [] rfl hj⟩

/-- A rule that straddles the cut is not seen: blocked as one read, moved on as two. -/
theorem segmentation_changes_outcome :
    (fun w => ((w.bevs firstClient).blocked.isSome, w.moved firstClient)) <$>
        serve .wrapping quietEngines (freshConnection (matchOnly (ascii "<script>\n") 3))
          firstClient [⟨[], ascii "GET /?q=<script>", seenAt (ascii "10.0.0.9")⟩] =
            .ok (true, []) ∧
      (fun w => ((w.bevs firstClient).blocked.isSome, w.moved firstClient)) <$>
        serve .wrapping quietEngines (freshConnection (matchOnly (ascii "<script>\n") 3))
          firstClient [⟨[], ascii "GET /?q=<scr", seenAt (ascii "10.0.0.9")⟩,
            ⟨[.sent 12], ascii "ipt>", seenAt (ascii "10.0.0.9")⟩] =
              .ok (false, ascii "GET /?q=<script>") := by
  decide +kernel

end OctopusWaf
