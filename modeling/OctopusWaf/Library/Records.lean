import Mathlib.Tactic

/-! Streams of records, each a header, a text of any kind and a separator. The records can be
read back from the stream as long as no text contains a separator with a header behind it. -/
namespace Records

variable {α κ : Type*} (head : κ → List α) (sep : List α)

/-- The record with header `k` and text `d`. -/
def frame (r : κ × List α) : List α := head r.1 ++ (r.2 ++ sep)

def stream (rs : List (κ × List α)) : List α := rs.flatMap (frame head sep)

/-- What ends one record and begins the next. -/
def mark (k : κ) : List α := sep ++ head k

/-- Headers are recognised from the front, and where a record ends and another begins, no
separator stands except at the beginning. -/
structure Framing : Prop where
  head_unique : ∀ {k l : κ} {x y : List α}, head k ++ x = head l ++ y → k = l
  sep_ne : sep ≠ []
  no_overlap : ∀ (k : κ) (rest : List α) {i : ℕ}, 0 < i → i < (mark head sep k).length →
    ¬ sep <+: (mark head sep k ++ rest).drop i

/-- No separator with a header behind it. -/
def Unmarked (d : List α) : Prop := ∀ k, ¬ mark head sep k <:+: d

variable {head sep}

@[simp] theorem stream_nil : stream head sep [] = [] := rfl

@[simp] theorem stream_cons (r : κ × List α) (rs : List (κ × List α)) :
    stream head sep (r :: rs) = head r.1 ++ (r.2 ++ (sep ++ stream head sep rs)) := by
  simp [stream, frame]

/-- A text with a separator and a header in it is two records. -/
theorem stream_split (k l : κ) (d e : List α) :
    stream head sep [(k, d ++ (mark head sep l ++ e))] = stream head sep [(k, d), (l, e)] := by
  simp [mark]

/-- Read from the front, a text cannot end before another one without a mark in the other. -/
theorem Framing.le_length (hf : Framing head sep) {d e L M : List α}
    (hL : L = [] ∨ ∃ k L', L = head k ++ L') (he : Unmarked head sep e)
    (h : d ++ (sep ++ L) = e ++ (sep ++ M)) : e.length ≤ d.length := by
  by_contra hlt
  obtain ⟨w, rfl⟩ : d <+: e :=
    List.prefix_of_prefix_length_le (List.prefix_append d _) (h ▸ List.prefix_append e _)
      (Nat.le_of_not_le hlt)
  rw [List.append_assoc, List.append_cancel_left_eq] at h
  have hw : 0 < w.length := by
    rw [List.length_append] at hlt
    omega
  rcases hL with rfl | ⟨k, L', rfl⟩
  · have hlen := congrArg List.length h
    simp only [List.length_append, List.length_nil] at hlen
    omega
  · rw [← List.append_assoc] at h
    by_cases hlong : (mark head sep k).length ≤ w.length
    · have hpre : mark head sep k <+: w :=
        List.prefix_of_prefix_length_le (List.prefix_append _ L') (h ▸ List.prefix_append w _) hlong
      exact he k (hpre.isInfix.trans (List.suffix_append d w).isInfix)
    · refine hf.no_overlap k L' hw (by omega) ⟨M, ?_⟩
      rw [mark, h, List.drop_left]

theorem stream_head (rs : List (κ × List α)) :
    stream head sep rs = [] ∨ ∃ k L', stream head sep rs = head k ++ L' := by
  cases rs with
  | nil => exact .inl rfl
  | cons r rs => exact .inr ⟨r.1, _, stream_cons r rs⟩

theorem Framing.stream_cons_ne_nil (hf : Framing head sep) (r : κ × List α)
    (rs : List (κ × List α)) : stream head sep (r :: rs) ≠ [] := by
  have hsep := hf.sep_ne
  simp [hsep]

/-- Records without marks in their texts are determined by their stream. -/
theorem Framing.stream_injective (hf : Framing head sep) {rs qs : List (κ × List α)}
    (hrs : ∀ r ∈ rs, Unmarked head sep r.2) (hqs : ∀ q ∈ qs, Unmarked head sep q.2)
    (h : stream head sep rs = stream head sep qs) : rs = qs := by
  induction rs generalizing qs with
  | nil =>
    cases qs with
    | nil => rfl
    | cons q qs => exact absurd h.symm (hf.stream_cons_ne_nil q qs)
  | cons r rs ih =>
    cases qs with
    | nil => exact absurd h (hf.stream_cons_ne_nil r rs)
    | cons q qs =>
      obtain ⟨hr, hrest⟩ := List.forall_mem_cons.mp hrs
      obtain ⟨hq, hqrest⟩ := List.forall_mem_cons.mp hqs
      rw [stream_cons, stream_cons] at h
      have hhead : r.1 = q.1 := hf.head_unique h
      rw [hhead, List.append_cancel_left_eq] at h
      have hlen : r.2.length = q.2.length :=
        le_antisymm (hf.le_length (stream_head qs) hr h.symm) (hf.le_length (stream_head rs) hq h)
      obtain ⟨htext, htail⟩ := List.append_inj h hlen
      rw [Prod.ext hhead htext, ih hrest hqrest (List.append_cancel_left htail)]

/-- A line is determined by what follows its end. -/
theorem line_unique {c : α} {u v x y : List α} (hu : ∀ d ∈ u, d ≠ c) (hv : ∀ d ∈ v, d ≠ c)
    (h : u ++ c :: x = v ++ c :: y) : u = v ∧ x = y := by
  induction u generalizing v with
  | nil =>
    cases v with
    | nil => exact ⟨rfl, (List.cons.inj h).2⟩
    | cons d v => exact absurd (List.cons.inj h).1.symm (hv d (by simp))
  | cons d u ih =>
    cases v with
    | nil => exact absurd (List.cons.inj h).1 (hu d (by simp))
    | cons e v =>
      obtain ⟨rfl, htail⟩ := List.cons.inj h
      obtain ⟨rfl, rfl⟩ := ih (fun a ha => hu a (by simp [ha])) (fun a ha => hv a (by simp [ha]))
        htail
      exact ⟨rfl, rfl⟩

/-- Every `c` in the text is followed by something else. -/
def Spaced (c : α) (t : List α) : Prop := ∀ i, t[i]? = some c → ∃ d, d ≠ c ∧ t[i + 1]? = some d

theorem spaced_nil (c : α) : Spaced c [] := by
  intro i h
  simp at h

/-- A line break `c` in front of a line that is not empty. -/
theorem Spaced.line {c : α} {u v : List α} (hu : ∀ d ∈ u, d ≠ c) (hne : u ≠ [])
    (hv : Spaced c v) : Spaced c (c :: (u ++ v)) := by
  intro i h
  cases i with
  | zero =>
    obtain ⟨d, u', rfl⟩ := List.exists_cons_of_ne_nil hne
    exact ⟨d, hu d (by simp), rfl⟩
  | succ i =>
    rw [List.getElem?_cons_succ] at h ⊢
    by_cases hi : i < u.length
    · rw [List.getElem?_append_left hi] at h
      exact absurd rfl (hu c (List.mem_of_getElem? h))
    · rw [List.getElem?_append_right (by omega)] at h ⊢
      obtain ⟨d, hd, hnext⟩ := hv _ h
      exact ⟨d, hd, by rw [← hnext]; congr 1; omega⟩

/-- A double `c` does not begin inside a spaced text, whatever follows it. -/
theorem Spaced.no_double {c : α} {t : List α} (ht : Spaced c t) {i : ℕ} (hi : i < t.length)
    (rest : List α) : ¬ [c, c] <+: (t ++ rest).drop i := by
  rintro ⟨tail, h⟩
  have hget (k : ℕ) : (t ++ rest)[i + k]? = ([c, c] ++ tail)[k]? := by
    rw [h, List.getElem?_drop]
  have hfirst := hget 0
  have hsecond := hget 1
  rw [Nat.add_zero, List.getElem?_append_left hi] at hfirst
  obtain ⟨d, hd, hnext⟩ := ht i hfirst
  have hlt : i + 1 < t.length := (List.getElem?_eq_some_iff.mp hnext).1
  rw [List.getElem?_append_left hlt, hnext] at hsecond
  exact hd (Option.some.inj hsecond)

end Records
