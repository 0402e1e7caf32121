import OctopusWaf.FilterCheck
import OctopusWaf.Library.Records

/-! The attack log as a whole. A record carries the request as it is, so what ends it can only
be told from the request if no record mark stands in there. -/
namespace OctopusWaf
open CMachine CString Records

/-- The modes `filter_check` passes. -/
def modes : List (List UInt8) :=
  [ascii "Block per address", ascii "Algorithm match", ascii "Libinejction SQLi match",
    ascii "Lib PCRE match per regex"]

/-- What a record says about a detection before the data, for the addresses `Ip` that the peers
can have. -/
@[ext] structure LogHeader (Ip : List UInt8 → Prop) where
  mode : List UInt8
  addr_ip : List UInt8
  mode_mem : mode ∈ modes
  addr_mem : Ip addr_ip

/-- A detection event; the data is a string, logged with its length. -/
@[ext] structure Event (Ip : List UInt8 → Prop) where
  header : LogHeader Ip
  data : List UInt8
  nonzero : ∀ c ∈ data, c ≠ 0

section Log

variable {Ip : List UInt8 → Prop}

/-- One call of `log_make`. -/
def Event.log (e : Event Ip) : List UInt8 :=
  log_make e.header.mode e.header.addr_ip e.data e.data.length

/-- The file after one call for each event. -/
def attackLog (events : List (Event Ip)) : List UInt8 := events.flatMap Event.log

variable (Ip) in
def headerText (h : LogHeader Ip) : List UInt8 :=
  ascii "Mode: " ++ h.mode ++ ascii "\nIP addr: " ++ h.addr_ip ++ ascii "\nData: "

def recordEnd : List UInt8 := ascii "\n\n"

variable (Ip) in
/-- The data contains the end of one record and the header of another. -/
def Forges (d : List UInt8) : Prop := ∃ h : LogHeader Ip, mark (headerText Ip) recordEnd h <:+: d

theorem mode_line {m : List UInt8} (hm : m ∈ modes) : ∀ c ∈ m, c ≠ 10 := by
  have hall : ∀ m ∈ modes, ∀ c ∈ m, c ≠ 10 := by simp [modes, ascii]
  exact hall m hm

/-- The header as three lines, each after a line break but the first. -/
theorem headerText_lines (h : LogHeader Ip) :
    headerText Ip h = (ascii "Mode: " ++ h.mode) ++
      10 :: ((ascii "IP addr: " ++ h.addr_ip) ++ 10 :: (ascii "Data: " ++ [])) := by
  have haddr : ascii "\nIP addr: " = 10 :: ascii "IP addr: " := rfl
  have hdata : ascii "\nData: " = 10 :: ascii "Data: " := rfl
  simp [headerText, haddr, hdata]

/-- A string logged with its length is written out whole. -/
theorem Event.log_eq (e : Event Ip) :
    e.log = frame (headerText Ip) recordEnd (e.header, e.data) := by
  have hend : recordEnd = ascii "\n" ++ ascii "\n" := rfl
  have hmode : (ascii "Mode: ").length = 6 := rfl
  have haddr : (ascii "\nIP addr: ").length = 10 := rfl
  have hdata : (ascii "\nData: ").length = 7 := rfl
  have hbreak : (ascii "\n").length = 1 := rfl
  rw [Event.log, log_make, write_log, cstr_eq_self e.nonzero, List.take_of_length_le]
  · simp only [frame, headerText, hend, List.append_assoc]
  · simp only [List.length_append, hmode, haddr, hdata, hbreak]
    omega

theorem attackLog_eq (events : List (Event Ip)) :
    attackLog events =
      stream (headerText Ip) recordEnd (events.map fun e => (e.header, e.data)) := by
  rw [attackLog, stream, List.flatMap_map]
  exact List.flatMap_congr fun e _ => e.log_eq

/-- A detector that hits adds one event, whose data is the string it is given. -/
theorem logHit_event {param : Choice} {hit : Bool} {mode addr text log : List UInt8}
    (hmode : mode ∈ modes) (haddr : Ip addr)
    (h : logHit param hit mode (some addr) text (cstr text).length = .ok log) :
    ∃ events : List (Event Ip), log = attackLog events ∧ ∀ e ∈ events, e.data = cstr text := by
  unfold logHit at h
  split_ifs at h
  · obtain rfl := Except.ok.inj h
    refine ⟨[⟨⟨mode, addr, hmode, haddr⟩, cstr text, cstr_no_zero text⟩], ?_, by simp⟩
    simp only [attackLog, List.flatMap_singleton, Event.log, log_make,
      cstr_eq_self (cstr_no_zero text)]
  · obtain rfl := Except.ok.inj h
    exact ⟨[], rfl, by simp⟩

theorem attackLog_append (es fs : List (Event Ip)) :
    attackLog (es ++ fs) = attackLog es ++ attackLog fs := List.flatMap_append

/-- What a completed inspection of a string appends is the log of events, each with the request
or the placeholder of an address block as its data. -/
theorem filter_check_log {ar : IntArith} {e : Engines} {param : Choice} {input addr : List UInt8}
    {seen : Seen} {insp : Inspection} (haddr : Ip addr) (hseen : seen.addr_ip = some addr)
    (hstring : cstr (input ++ seen.afterData) = input)
    (h : filter_check ar e param input seen = .ok insp) :
    ∃ events : List (Event Ip), insp.log = attackLog events ∧
      ∀ e ∈ events, e.data = input ∨ e.data = ascii " " := by
  cases hreq : is_request (tmpbuf input seen) with
  | false =>
    rw [filter_check_rejected ar e param input hreq] at h
    obtain rfl := Except.ok.inj h
    exact ⟨[], rfl, by simp⟩
  | true =>
    have hlen : (cstr (input ++ seen.afterData)).length = input.length := by rw [hstring]
    unfold filter_check at h
    simp only [hreq, if_true, hseen, ← hlen] at h
    obtain ⟨⟨byAddress, left⟩, -, h⟩ := bind_ok h
    obtain ⟨log₁, h₁, h⟩ := bind_ok h
    obtain ⟨byMatch, -, h⟩ := bind_ok h
    obtain ⟨log₂, h₂, h⟩ := bind_ok h
    obtain ⟨⟨bySqli, buf⟩, -, h⟩ := bind_ok h
    obtain ⟨log₃, h₃, h⟩ := bind_ok h
    obtain ⟨byRegex, -, h⟩ := bind_ok h
    obtain ⟨log₄, h₄, h⟩ := bind_ok h
    obtain rfl := Except.ok.inj h
    have hblock : ∃ events : List (Event Ip), log₁ = attackLog events ∧
        ∀ e ∈ events, e.data = ascii " " := logHit_event (by simp [modes]) haddr h₁
    have hdata {mode log : List UInt8} {hit : Bool} (hmode : mode ∈ modes)
        (hlog : logHit param hit mode (some addr) (input ++ seen.afterData)
          (cstr (input ++ seen.afterData)).length = .ok log) :
        ∃ events : List (Event Ip), log = attackLog events ∧ ∀ e ∈ events, e.data = input := by
      simpa only [hstring] using logHit_event hmode haddr hlog
    obtain ⟨es₁, rfl, hd₁⟩ := hblock
    obtain ⟨es₂, rfl, hd₂⟩ := hdata (by simp [modes]) h₂
    obtain ⟨es₃, rfl, hd₃⟩ := hdata (by simp [modes]) h₃
    obtain ⟨es₄, rfl, hd₄⟩ := hdata (by simp [modes]) h₄
    refine ⟨es₁ ++ es₂ ++ es₃ ++ es₄, by simp only [attackLog_append], fun e he => ?_⟩
    simp only [List.mem_append] at he
    rcases he with ((he | he) | he) | he
    · exact .inr (hd₁ e he)
    · exact .inl (hd₂ e he)
    · exact .inl (hd₃ e he)
    · exact .inl (hd₄ e he)

theorem line_of_append {u v : List UInt8} (hu : ∀ c ∈ u, c ≠ 10) (hv : ∀ c ∈ v, c ≠ 10) :
    ∀ c ∈ u ++ v, c ≠ 10 := by
  intro c hc
  rcases List.mem_append.mp hc with hc | hc
  · exact hu c hc
  · exact hv c hc

theorem LogHeader.first_line (h : LogHeader Ip) : ∀ c ∈ ascii "Mode: " ++ h.mode, c ≠ 10 :=
  line_of_append (by simp [ascii]) (mode_line h.mode_mem)

theorem LogHeader.second_line (hIp : ∀ a, Ip a → AddressText a) (h : LogHeader Ip) :
    ∀ c ∈ ascii "IP addr: " ++ h.addr_ip, c ≠ 10 :=
  line_of_append (by simp [ascii]) ((hIp _ h.addr_mem).ne_of_not_char (by decide))

theorem headerText_unique (hIp : ∀ a, Ip a → AddressText a) {h k : LogHeader Ip}
    {x y : List UInt8} (heq : headerText Ip h ++ x = headerText Ip k ++ y) : h = k := by
  simp only [headerText_lines, List.append_assoc (_ ++ _), List.cons_append] at heq
  obtain ⟨hmode, heq⟩ := line_unique h.first_line k.first_line heq
  obtain ⟨haddr, -⟩ := line_unique (h.second_line hIp) (k.second_line hIp) heq
  exact LogHeader.ext (List.append_cancel_left hmode) (List.append_cancel_left haddr)

/-- No line of a header is empty. -/
theorem headerText_spaced (hIp : ∀ a, Ip a → AddressText a) (h : LogHeader Ip) :
    Spaced 10 (10 :: headerText Ip h) := by
  have hne (u v : List UInt8) (hu : u ≠ []) : u ++ v ≠ [] := by simp [hu]
  rw [headerText_lines]
  exact .line h.first_line (hne _ _ (by simp [ascii])) <|
    .line (h.second_line hIp) (hne _ _ (by simp [ascii])) <|
      .line (by simp [ascii]) (by simp [ascii]) (spaced_nil 10)

theorem log_framing (hIp : ∀ a, Ip a → AddressText a) :
    Framing (headerText Ip) recordEnd where
  head_unique := headerText_unique hIp
  sep_ne := by simp [recordEnd, ascii]
  no_overlap := by
    intro h rest i hpos hi
    have hend : recordEnd = [10, 10] := rfl
    have hmark : mark (headerText Ip) recordEnd h ++ rest =
        10 :: (10 :: headerText Ip h ++ rest) := by
      simp [mark, hend]
    have hlen : (mark (headerText Ip) recordEnd h).length = (10 :: headerText Ip h).length + 1 := by
      simp [mark, hend]
    obtain ⟨j, rfl⟩ : ∃ j, i = j + 1 := ⟨i - 1, by omega⟩
    rw [hmark, hend, List.drop_succ_cons]
    exact (headerText_spaced hIp h).no_double (by omega) rest

/-- Data with a record mark in it makes one event look like two. -/
theorem Event.forged {e : Event Ip} (h : Forges Ip e.data) :
    ∃ first second : Event Ip, attackLog [first, second] = attackLog [e] := by
  obtain ⟨k, before, after, hdata⟩ := h
  have hbefore : ∀ c ∈ before, c ≠ 0 := fun c hc => e.nonzero c (by simp [← hdata, hc])
  have hafter : ∀ c ∈ after, c ≠ 0 := fun c hc => e.nonzero c (by simp [← hdata, hc])
  refine ⟨⟨e.header, before, hbefore⟩, ⟨k, after, hafter⟩, ?_⟩
  rw [List.append_assoc] at hdata
  have hsplit : stream (headerText Ip) recordEnd
      [(e.header, before ++ (mark (headerText Ip) recordEnd k ++ after))] =
        stream (headerText Ip) recordEnd [(e.header, before), (k, after)] := stream_split _ _ _ _
  simpa only [attackLog_eq, List.map_cons, List.map_nil, ← hdata] using hsplit.symm

/-- No record is cut, and the log tells two sequences of events apart as long as no data contains
the end of a record and the header of another. A sequence with an event whose data does is
logged as another sequence is. -/
theorem attack_log_unambiguous (hIp : ∀ a, Ip a → AddressText a) (es fs : List (Event Ip)) :
    (∀ e ∈ es, e.log = headerText Ip e.header ++ (e.data ++ recordEnd)) ∧
      ((∀ e ∈ es ++ fs, ¬ Forges Ip e.data) → es ≠ fs → attackLog es ≠ attackLog fs) ∧
      ∀ e ∈ es, Forges Ip e.data → ∃ gs, gs ≠ es ∧ attackLog gs = attackLog es := by
  refine ⟨fun e _ => e.log_eq, fun hclean hne heq => hne ?_, fun e he hforges => ?_⟩
  · have hunmarked {gs : List (Event Ip)} (hsub : gs ⊆ es ++ fs) :
        ∀ r ∈ gs.map fun e => (e.header, e.data), Unmarked (headerText Ip) recordEnd r.2 := by
      intro r hr h hin
      obtain ⟨e, he, rfl⟩ := List.mem_map.mp hr
      exact hclean e (hsub he) ⟨h, hin⟩
    rw [attackLog_eq, attackLog_eq] at heq
    have hrecords := (log_framing hIp).stream_injective (hunmarked (List.subset_append_left es fs))
      (hunmarked (List.subset_append_right es fs)) heq
    refine List.map_injective_iff.mpr ?_ hrecords
    intro e f hef
    exact Event.ext (congrArg Prod.fst hef) (congrArg Prod.snd hef)
  · obtain ⟨first, second, hlog⟩ := e.forged hforges
    obtain ⟨before, after, rfl⟩ := List.mem_iff_append.mp he
    refine ⟨before ++ first :: second :: after, fun heq => ?_, ?_⟩
    · have hlen := congrArg List.length heq
      simp only [List.length_append, List.length_cons] at hlen
      omega
    · simp only [attackLog, List.flatMap_append, List.flatMap_cons, List.flatMap_nil,
        List.append_nil] at hlog ⊢
      rw [← hlog, List.append_assoc first.log]

theorem not_forges_of_line {d : List UInt8} (h : ∀ c ∈ d, c ≠ 10) : ¬ Forges Ip d := by
  rintro ⟨k, hin⟩
  have hmem : 10 ∈ recordEnd := by simp [recordEnd, ascii]
  exact h 10 (hin.subset (List.mem_append_left _ hmem)) rfl

end Log

/-- An algorithm match for a request from `10.0.0.1`. -/
def matchEvent (data : List UInt8) (h : ∀ c ∈ data, c ≠ 0) : Event AddressText where
  header := ⟨ascii "Algorithm match", ascii "10.0.0.1", by simp [modes],
    ⟨by simp [ascii], by simp [ascii], by simp [ascii, isxdigit, isdigit]⟩⟩
  data := data
  nonzero := h

def firstRequest : Event AddressText := matchEvent (ascii "GET /a") (by simp [ascii])

def secondRequest : Event AddressText := matchEvent (ascii "GET /b") (by simp [ascii])

/-- A request with the record of another one in it. -/
def forgingRequest : Event AddressText :=
  matchEvent (ascii "GET /a\n\nMode: Algorithm match\nIP addr: 10.0.0.1\nData: GET /b")
    (by simp [ascii])

/-- The order of two requests shows in the log. -/
theorem attack_log_unambiguous_order :
    attackLog [firstRequest, secondRequest] ≠ attackLog [secondRequest, firstRequest] := by
  have hfirst : ¬ Forges AddressText firstRequest.data :=
    not_forges_of_line (by simp [firstRequest, matchEvent, ascii])
  have hsecond : ¬ Forges AddressText secondRequest.data :=
    not_forges_of_line (by simp [secondRequest, matchEvent, ascii])
  have hne : firstRequest.data ≠ secondRequest.data := by
    simp [firstRequest, secondRequest, matchEvent, ascii]
  refine (attack_log_unambiguous (fun _ h => h) _ _).2.1 ?_ fun heq =>
    hne (congrArg Event.data (List.cons.inj heq).1)
  simp [hfirst, hsecond]

/-- One request is logged as two requests are. -/
theorem attack_log_forged :
    [forgingRequest] ≠ [firstRequest, secondRequest] ∧
      attackLog [forgingRequest] = attackLog [firstRequest, secondRequest] :=
  ⟨fun heq => by simpa using congrArg List.length heq, by decide +kernel⟩

end OctopusWaf
