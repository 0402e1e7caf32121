import OctopusWaf.Library.BinarySearch
import OctopusWaf.SqliTokens

/-! The keyword table of libinjection and its binary search, which compares an upper case
word with a key in any case. -/
namespace OctopusWaf.Libinjection
open CMachine CString

structure keyword_t where
  word : List UInt8
  type : UInt8
  deriving DecidableEq, Repr

/-- What the comparison relies on in a word of the table: ASCII without lower case letters
and zero bytes. -/
def PlainWord (w : List UInt8) : Prop := ∀ c ∈ w, c ≠ 0 ∧ c < 128 ∧ upcase c = c

instance (w : List UInt8) : Decidable (PlainWord w) := List.decidableBAll _ w

/-- The array `sql_keywords` with what holds of its entries. -/
structure KeywordTable where
  entries : List keyword_t
  nonempty : entries ≠ []
  sorted : entries.Pairwise fun a b => a.word < b.word
  plain : ∀ k ∈ entries, PlainWord k.word
  typed : ∀ k ∈ entries, k.type ≠ TYPE_NONE

/-- `keywords[i]`. -/
def KeywordTable.get (keywords : KeywordTable) (i : ℕ) : keyword_t :=
  keywords.entries.getD i ⟨[], 0⟩

/-- The loop leaves with `left == right`, so that only the words are compared after it. -/
def bsearch_keyword_type (key : List UInt8) (keywords : KeywordTable) : UInt8 :=
  let numb := keywords.entries.length
  let left := firstNot (fun pos => cstrcasecmp (keywords.get pos).word key < 0) numb 0 (numb - 1)
  if cstrcasecmp (keywords.get left).word key = 0 then (keywords.get left).type else CHAR_NULL

def is_keyword (keywords : KeywordTable) (key : List UInt8) : UInt8 :=
  bsearch_keyword_type key keywords

theorem PlainWord.tail {c : UInt8} {w : List UInt8} (h : PlainWord (c :: w)) : PlainWord w :=
  fun d hd => h d (List.mem_cons_of_mem c hd)

theorem charInt_ascii {c : UInt8} (h : c < 128) : charInt c = c.toNat :=
  if_pos (UInt8.lt_iff_toNat_lt.mp h)

theorem charInt_lt {c d : UInt8} (hd : d < 128) (h : c < d) : charInt c < charInt d := by
  rw [charInt_ascii hd, charInt_ascii (UInt8.lt_trans h hd)]
  exact_mod_cast UInt8.lt_iff_toNat_lt.mp h

theorem charInt_pos {c : UInt8} (h0 : c ≠ 0) (h : c < 128) : 0 < charInt c := by
  have hc : c.toNat ≠ 0 := fun hz => h0 (UInt8.toNat_inj.mp hz)
  rw [charInt_ascii h]
  omega

@[simp] theorem cstrcasecmp_nil (a : List UInt8) :
    cstrcasecmp a [] = if readAt a 0 = 0 then 0 else 1 := rfl

theorem cstrcasecmp_nil_cons (cb : UInt8) (b : List UInt8) :
    cstrcasecmp [] (cb :: b) = if upcase cb = 0 then -1 else - charInt (upcase cb) := by
  have h0 : readAt [] 0 = 0 := rfl
  rw [cstrcasecmp, h0]
  by_cases h : upcase cb = 0
  · simp [h]
  · simp [h, Ne.symm h, charInt]

theorem cstrcasecmp_cons {c : UInt8} (hc : c ≠ 0) (a : List UInt8) (cb : UInt8)
    (b : List UInt8) : cstrcasecmp (c :: a) (cb :: b) =
      if c = upcase cb then cstrcasecmp a b else charInt c - charInt (upcase cb) := by
  rw [cstrcasecmp]
  simp only [readAt, List.getD_cons_zero, List.tail_cons, hc, if_false, ite_not, ne_eq]

/-- The comparison finds equality exactly where the key, in upper case, is the word. -/
theorem cstrcasecmp_eq_zero {a : List UInt8} (ha : PlainWord a) (b : List UInt8) :
    cstrcasecmp a b = 0 ↔ a = b.map upcase := by
  induction b generalizing a with
  | nil =>
    cases a with
    | nil => simp [readAt]
    | cons c a => simp [readAt, (ha c (by simp)).1]
  | cons cb b ih =>
    cases a with
    | nil =>
      rw [cstrcasecmp_nil_cons]
      split_ifs with h
      · simp
      · have hz : charInt (upcase cb) ≠ charInt 0 := fun h' => h (charInt_injective h')
        simpa [charInt] using hz
    | cons c a =>
      rw [cstrcasecmp_cons (ha c (by simp)).1, List.map_cons, List.cons.injEq]
      split_ifs with h
      · rw [ih ha.tail]
        simp [h]
      · have hz : charInt c ≠ charInt (upcase cb) := fun h' => h (charInt_injective h')
        simp [h, sub_eq_zero, hz]

/-- What stands before a word that is not above the key is below it. -/
theorem cstrcasecmp_mono {a a' : List UInt8} (ha : PlainWord a) (ha' : PlainWord a')
    (hlt : a < a') {b : List UInt8} (h : cstrcasecmp a' b ≤ 0) : cstrcasecmp a b < 0 := by
  induction b generalizing a a' with
  | nil =>
    cases a' with
    | nil => exact absurd hlt (List.not_lt_nil a)
    | cons c' a' =>
      have hc' : readAt (c' :: a') 0 ≠ 0 := (ha' c' (by simp)).1
      rw [cstrcasecmp_nil, if_neg hc'] at h
      omega
  | cons cb b ih =>
    cases a' with
    | nil => exact absurd hlt (List.not_lt_nil a)
    | cons c' a' =>
      have hc' := ha' c' (by simp)
      have hpos := charInt_pos hc'.1 hc'.2.1
      rw [cstrcasecmp_cons hc'.1] at h
      have hle : charInt c' ≤ charInt (upcase cb) := by
        split_ifs at h with heq
        · exact (congrArg charInt heq).le
        · omega
      cases a with
      | nil =>
        rw [cstrcasecmp_nil_cons]
        split_ifs <;> omega
      | cons c a =>
        have hc := ha c (by simp)
        rw [cstrcasecmp_cons hc.1]
        rcases List.cons_lt_cons_iff.mp hlt with hfirst | ⟨rfl, hrest⟩
        · have hcc := charInt_lt hc'.2.1 hfirst
          rw [if_neg fun heq => by rw [heq] at hcc; omega]
          omega
        · split_ifs at h ⊢ with heq
          · exact ih ha.tail ha'.tail hrest h
          · have hne : charInt c ≠ charInt (upcase cb) := fun h' => heq (charInt_injective h')
            omega

namespace KeywordTable

variable (keywords : KeywordTable)

theorem length_pos : 0 < keywords.entries.length := List.length_pos_of_ne_nil keywords.nonempty

variable {keywords}

theorem get_eq {i : ℕ} (h : i < keywords.entries.length) :
    keywords.get i = keywords.entries[i] := by
  rw [get, List.getD_eq_getElem?_getD, List.getElem?_eq_getElem h, Option.getD_some]

theorem get_mem {i : ℕ} (h : i < keywords.entries.length) :
    keywords.get i ∈ keywords.entries := by
  rw [get_eq h]
  exact List.getElem_mem h

theorem get_lt {i j : ℕ} (hij : i < j) (hj : j < keywords.entries.length) :
    (keywords.get i).word < (keywords.get j).word := by
  rw [get_eq (hij.trans hj), get_eq hj]
  exact List.pairwise_iff_getElem.mp keywords.sorted i j _ hj hij

/-- The words below the key come first. -/
theorem below_of_lt {i j : ℕ} (hij : i < j) (hj : j < keywords.entries.length)
    {key : List UInt8} (h : cstrcasecmp (keywords.get j).word key ≤ 0) :
    cstrcasecmp (keywords.get i).word key < 0 :=
  cstrcasecmp_mono (keywords.plain _ (get_mem (hij.trans hj)))
    (keywords.plain _ (get_mem hj)) (get_lt hij hj) h

theorem below_mono {i j : ℕ} (hij : i ≤ j) (hj : j < keywords.entries.length)
    {key : List UInt8} (h : cstrcasecmp (keywords.get j).word key < 0) :
    cstrcasecmp (keywords.get i).word key < 0 := by
  rcases hij.eq_or_lt with rfl | hlt
  · exact h
  · exact below_of_lt hlt hj h.le

end KeywordTable

/-- The test of the search; outside the table it may be taken to fail. -/
def KeywordTable.below (keywords : KeywordTable) (key : List UInt8) (pos : ℕ) : Bool :=
  pos < keywords.entries.length ∧ cstrcasecmp (keywords.get pos).word key < 0

/-- The search ends at the first word that is not below the key, or at the last word. -/
theorem bsearch_left {keywords : KeywordTable} {key : List UInt8} {left : ℕ}
    (hleft : left = firstNot (fun pos => cstrcasecmp (keywords.get pos).word key < 0)
      keywords.entries.length 0 (keywords.entries.length - 1)) :
    left < keywords.entries.length ∧
      (∀ i < left, cstrcasecmp (keywords.get i).word key < 0) ∧
      (left < keywords.entries.length - 1 → ¬ cstrcasecmp (keywords.get left).word key < 0) := by
  have hpos := keywords.length_pos
  have hcongr : firstNot (fun pos => cstrcasecmp (keywords.get pos).word key < 0)
      keywords.entries.length 0 (keywords.entries.length - 1) =
        firstNot (keywords.below key) keywords.entries.length 0 (keywords.entries.length - 1) :=
    firstNot_congr fun i _ hi => by
      simp [KeywordTable.below, show i < keywords.entries.length by omega]
  have hmono : ∀ i j, i ≤ j → keywords.below key j = true → keywords.below key i = true := by
    intro i j hij hj
    have hj' := of_decide_eq_true hj
    exact decide_eq_true ⟨by omega, KeywordTable.below_mono hij hj'.1 hj'.2⟩
  have hrange : keywords.entries.length - 1 - 0 ≤ keywords.entries.length := by omega
  obtain ⟨hlow, hhigh⟩ := firstNot_spec hrange (Nat.zero_le _) hmono
  have hbound := (@firstNot_bounds (keywords.below key) keywords.entries.length 0
    (keywords.entries.length - 1) (Nat.zero_le _)).2
  rw [hcongr] at hleft
  rw [← hleft] at hlow hhigh hbound
  refine ⟨by omega, fun i hi => (of_decide_eq_true (hlow i (by omega) hi)).2, fun hlt hneg => ?_⟩
  have hno := of_decide_eq_false (hhigh hlt)
  exact hno ⟨by omega, hneg⟩

/-- A word that is found is the one that is compared last. -/
theorem bsearch_found {keywords : KeywordTable} {key : List UInt8} {left i : ℕ}
    (hi : i < keywords.entries.length) (heq : cstrcasecmp (keywords.get i).word key = 0)
    (hlow : ∀ i < left, cstrcasecmp (keywords.get i).word key < 0)
    (hhigh : left < keywords.entries.length - 1 →
      ¬ cstrcasecmp (keywords.get left).word key < 0) : i = left := by
  rcases Nat.lt_trichotomy i left with hlt | hsame | hgt
  · have hneg := hlow i hlt
    omega
  · exact hsame
  · exact absurd (KeywordTable.below_of_lt hgt hi heq.le) (hhigh (by omega))

/-- A key that is a word of the table in any case has the type of that word. -/
theorem bsearch_hit {keywords : KeywordTable} {key : List UInt8} {k : keyword_t}
    (hk : k ∈ keywords.entries) (heq : k.word = key.map upcase) :
    bsearch_keyword_type key keywords = k.type := by
  obtain ⟨hlt, hlow, hhigh⟩ := @bsearch_left keywords key _ rfl
  unfold bsearch_keyword_type
  dsimp only
  generalize firstNot _ _ _ _ = left at hlt hlow hhigh ⊢
  obtain ⟨i, hi, rfl⟩ := List.getElem_of_mem hk
  rw [← KeywordTable.get_eq hi] at hk heq ⊢
  have hzero := (cstrcasecmp_eq_zero (keywords.plain _ hk) key).mpr heq
  obtain rfl := bsearch_found hi hzero hlow hhigh
  exact if_pos hzero

/-- Any other key has none. -/
theorem bsearch_miss {keywords : KeywordTable} {key : List UInt8}
    (hnone : ∀ k ∈ keywords.entries, k.word ≠ key.map upcase) :
    bsearch_keyword_type key keywords = CHAR_NULL := by
  obtain ⟨hlt, -, -⟩ := @bsearch_left keywords key _ rfl
  have hmem := KeywordTable.get_mem hlt
  exact if_neg fun heq => hnone _ hmem ((cstrcasecmp_eq_zero (keywords.plain _ hmem) key).mp heq)

/-- The search returns the type of the word that is the key in upper case, and nothing for
any other key. -/
theorem bsearch_keyword_type_exact (keywords : KeywordTable) (key : List UInt8) (type : UInt8) :
    bsearch_keyword_type key keywords = type ↔
      (∃ k ∈ keywords.entries, k.word = key.map upcase ∧ k.type = type) ∨
        (∀ k ∈ keywords.entries, k.word ≠ key.map upcase) ∧ type = CHAR_NULL := by
  by_cases hfound : ∃ k ∈ keywords.entries, k.word = key.map upcase
  · obtain ⟨k, hk, heq⟩ := hfound
    rw [bsearch_hit hk heq]
    constructor
    · exact fun h => .inl ⟨k, hk, heq, h⟩
    · intro h
      rcases h with hother | hnone
      · obtain ⟨k', hk', heq', rfl⟩ := hother
        exact (bsearch_hit hk heq).symm.trans (bsearch_hit hk' heq')
      · exact absurd heq (hnone.1 k hk)
  · have hnone : ∀ k ∈ keywords.entries, k.word ≠ key.map upcase :=
      fun k hk heq => hfound ⟨k, hk, heq⟩
    rw [bsearch_miss hnone]
    constructor
    · exact fun h => .inr ⟨hnone, h.symm⟩
    · intro h
      rcases h with hother | hzero
      · obtain ⟨k, hk, heq, -⟩ := hother
        exact absurd heq (hnone k hk)
      · exact hzero.2.symm

/-- Some entries of the table. -/
def fewKeywords : KeywordTable where
  entries := [⟨ascii "01C", chr 'F'⟩, ⟨ascii "0S&S", chr 'F'⟩, ⟨ascii "0SOS", chr 'F'⟩,
    ⟨ascii "AND", chr '&'⟩, ⟨ascii "SELECT", chr 'E'⟩, ⟨ascii "UNION", chr 'U'⟩]
  nonempty := by decide
  sorted := by decide +kernel
  plain := by decide +kernel
  typed := by decide +kernel

end OctopusWaf.Libinjection
