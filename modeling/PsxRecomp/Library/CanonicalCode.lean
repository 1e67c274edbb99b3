import Mathlib
import PsxRecomp.Library.BitString

/-! Canonical prefix codes: the codewords that a list of code lengths stands for, and the place of
each symbol in the order of the codewords. -/
namespace PsxRecomp.CanonicalCode
open BitString
set_option autoImplicit false

variable (lengths : List ℕ)

/-! ## Codewords -/

/-- How many codewords have a length; a length of zero means no codeword. -/
def used (l : ℕ) : ℕ := if l = 0 then 0 else lengths.count l

def firstCode : ℕ → ℕ
  | 0 => 0
  | l + 1 => 2 * (firstCode l + used lengths l)

def lengthOf (s : ℕ) : ℕ := lengths.getD s 0

/-- Symbols before this one with a codeword of its length. -/
def rank (s : ℕ) : ℕ := (lengths.take s).count (lengthOf lengths s)

def codeValue (s : ℕ) : ℕ := firstCode lengths (lengthOf lengths s) + rank lengths s

def codeword (s : ℕ) : List Bool := msb (codeValue lengths s) (lengthOf lengths s)

/-- The lengths leave room for their codewords (the Kraft sum). -/
def Feasible (m : ℕ) : Prop :=
  (∀ l ∈ lengths, l ≤ m) ∧ ∑ l ∈ Finset.range (m + 1), used lengths l * 2 ^ (m - l) ≤ 2 ^ m

instance (m : ℕ) : Decidable (Feasible lengths m) := inferInstanceAs (Decidable (_ ∧ _))

variable {lengths}

theorem used_pos {l : ℕ} (h : l ≠ 0) : used lengths l = lengths.count l := if_neg h

theorem used_zero : used lengths 0 = 0 := rfl

theorem firstCode_add_used (m : ℕ) {l : ℕ} (h : l ≤ m) :
    (firstCode lengths l + used lengths l) * 2 ^ (m - l) =
      ∑ i ∈ Finset.range (l + 1), used lengths i * 2 ^ (m - i) := by
  induction l with
  | zero => simp [firstCode]
  | succ l ih =>
    rw [Finset.sum_range_succ, ← ih (by omega), firstCode, Nat.add_mul]
    have hpow : 2 ^ (m - l) = 2 * 2 ^ (m - (l + 1)) := by
      rw [← Nat.pow_succ']
      congr 1
      omega
    rw [hpow]
    ring

/-- The codewords of one length fit in that many bits. -/
theorem Feasible.firstCode_le {m : ℕ} (h : Feasible lengths m) {l : ℕ} (hl : l ≤ m) :
    firstCode lengths l + used lengths l ≤ 2 ^ l := by
  have hsum : (firstCode lengths l + used lengths l) * 2 ^ (m - l) ≤ 2 ^ l * 2 ^ (m - l) := by
    rw [firstCode_add_used m hl, ← Nat.pow_add, Nat.add_sub_cancel' hl]
    refine le_trans ?_ h.2
    exact Finset.sum_le_sum_of_subset (Finset.range_subset_range.2 (by omega))
  exact Nat.le_of_mul_le_mul_right hsum (Nat.two_pow_pos _)

theorem Feasible.mono {m m' : ℕ} (h : Feasible lengths m) (hm : m ≤ m') : Feasible lengths m' := by
  refine ⟨fun l hl => (h.1 l hl).trans hm, ?_⟩
  have hzero : ∀ l ∈ Finset.range (m' + 1), l ∉ Finset.range (m + 1) →
      used lengths l * 2 ^ (m' - l) = 0 := by
    intro l _ hl
    have hcount : lengths.count l = 0 := by
      refine List.count_eq_zero.2 fun hmem => ?_
      have := h.1 l hmem
      exact hl (Finset.mem_range.2 (by omega))
    rw [used, hcount, ite_self, Nat.zero_mul]
  rw [← Finset.sum_subset (Finset.range_subset_range.2 (by omega)) hzero]
  calc ∑ l ∈ Finset.range (m + 1), used lengths l * 2 ^ (m' - l)
      = (∑ l ∈ Finset.range (m + 1), used lengths l * 2 ^ (m - l)) * 2 ^ (m' - m) := by
        rw [Finset.sum_mul]
        refine Finset.sum_congr rfl fun l hl => ?_
        rw [Finset.mem_range] at hl
        rw [Nat.mul_assoc, ← Nat.pow_add]
        congr 2
        omega
    _ ≤ 2 ^ m * 2 ^ (m' - m) := Nat.mul_le_mul_right _ h.2
    _ = 2 ^ m' := by rw [← Nat.pow_add, Nat.add_sub_cancel' hm]

theorem firstCode_ge {k l : ℕ} (h : k < l) :
    (firstCode lengths k + used lengths k) * 2 ^ (l - k) ≤ firstCode lengths l := by
  induction l with
  | zero => omega
  | succ l ih =>
    rcases Nat.lt_or_ge k l with hk | hk
    · rw [firstCode, Nat.succ_sub (by omega), Nat.pow_succ]
      have := ih hk
      calc (firstCode lengths k + used lengths k) * (2 ^ (l - k) * 2)
          = 2 * ((firstCode lengths k + used lengths k) * 2 ^ (l - k)) := by ring
        _ ≤ 2 * (firstCode lengths l + used lengths l) := by omega
    · obtain rfl : k = l := by omega
      rw [firstCode, Nat.add_sub_cancel_left, Nat.pow_one, Nat.mul_comm]

/-! ## One symbol -/

theorem lengthOf_mem {s : ℕ} (h : lengthOf lengths s ≠ 0) : lengthOf lengths s ∈ lengths := by
  unfold lengthOf at h ⊢
  rcases Nat.lt_or_ge s lengths.length with hs | hs
  · rw [List.getD_eq_getElem _ _ hs]
    exact List.getElem_mem hs
  · rw [List.getD_eq_default _ _ hs] at h
    exact absurd rfl h

theorem lt_length_of_lengthOf {s : ℕ} (h : lengthOf lengths s ≠ 0) : s < lengths.length := by
  by_contra hs
  exact h (List.getD_eq_default _ _ (Nat.le_of_not_lt hs))

theorem lengthOf_eq_getElem {s : ℕ} (hs : s < lengths.length) :
    lengthOf lengths s = lengths[s] := List.getD_eq_getElem _ _ hs

/-- A later symbol of the same length has a higher rank. -/
theorem rank_lt_count_take {s t : ℕ} (h : lengthOf lengths s ≠ 0) (hst : s < t) :
    rank lengths s < (lengths.take t).count (lengthOf lengths s) := by
  have hs := lt_length_of_lengthOf h
  have hpre : (lengths.take (s + 1)).count (lengthOf lengths s) = rank lengths s + 1 := by
    rw [List.take_add_one, List.getElem?_eq_getElem hs, List.count_append, rank,
      lengthOf_eq_getElem hs]
    simp
  have hle := (List.take_sublist_take_left (l := lengths)
    (show s + 1 ≤ t from hst)).count_le (lengthOf lengths s)
  omega

theorem rank_lt {s : ℕ} (h : lengthOf lengths s ≠ 0) :
    rank lengths s < used lengths (lengthOf lengths s) := by
  have hlt := rank_lt_count_take h (lt_length_of_lengthOf h)
  rw [List.take_length] at hlt
  rwa [used_pos h]

theorem codeValue_lt {s : ℕ} (h : lengthOf lengths s ≠ 0) :
    codeValue lengths s <
      firstCode lengths (lengthOf lengths s) + used lengths (lengthOf lengths s) :=
  Nat.add_lt_add_left (rank_lt h) _

/-- The codeword cut short lies above all shorter codewords. -/
theorem le_codeValue_div {s k : ℕ} (hk : k < lengthOf lengths s) :
    firstCode lengths k + used lengths k ≤
      codeValue lengths s / 2 ^ (lengthOf lengths s - k) := by
  rw [Nat.le_div_iff_mul_le (Nat.two_pow_pos _)]
  exact (firstCode_ge hk).trans (Nat.le_add_right _ _)

/-! ## Order of the codewords -/

variable (lengths) in
/-- Codewords shorter than a length. -/
def base (l : ℕ) : ℕ := lengths.countP fun n => 0 < n ∧ n < l

variable (lengths) in
def slot (s : ℕ) : ℕ := base lengths (lengthOf lengths s) + rank lengths s

theorem base_one : base lengths 1 = 0 := by
  rw [base, List.countP_eq_zero]
  intro n _ hn
  simp only [decide_eq_true_eq] at hn
  omega

theorem base_succ (l : ℕ) : base lengths (l + 1) = base lengths l + used lengths l := by
  unfold base used
  split
  next h =>
    subst h
    refine Nat.add_zero _ ▸ List.countP_congr fun n _ => ?_
    simp only [decide_eq_true_eq]
    omega
  next h =>
    induction lengths with
    | nil => rfl
    | cons n ns ih =>
      simp only [List.countP_cons, List.count_cons, ih, beq_iff_eq, decide_eq_true_eq]
      split_ifs <;> omega

variable (lengths) in
theorem base_mono {k l : ℕ} (h : k ≤ l) : base lengths k ≤ base lengths l := by
  refine List.countP_mono_left fun n _ hn => ?_
  simp only [decide_eq_true_eq] at hn ⊢
  omega

variable (lengths) in
theorem base_le (l : ℕ) : base lengths l + lengths.count 0 ≤ lengths.length := by
  rw [List.length_eq_countP_add_countP (fun n => n == 0), Nat.add_comm]
  refine Nat.add_le_add_left (List.countP_mono_left fun n _ hn => ?_) _
  simp only [decide_eq_true_eq] at hn
  simpa using Nat.pos_iff_ne_zero.1 hn.1

theorem slot_lt_base {s : ℕ} (h : lengthOf lengths s ≠ 0) :
    slot lengths s < base lengths (lengthOf lengths s + 1) := by
  rw [base_succ]
  exact Nat.add_lt_add_left (rank_lt h) _

theorem slot_lt {s : ℕ} (h : lengthOf lengths s ≠ 0) :
    slot lengths s < lengths.length - lengths.count 0 := by
  have := slot_lt_base h
  have := base_le lengths (lengthOf lengths s + 1)
  omega

/-- Two symbols with a codeword have two slots. -/
theorem slot_ne {s t : ℕ} (hs : lengthOf lengths s ≠ 0) (ht : lengthOf lengths t ≠ 0)
    (hst : s < t) : slot lengths s ≠ slot lengths t := by
  rcases Nat.lt_trichotomy (lengthOf lengths s) (lengthOf lengths t) with h | h | h
  · have h₁ := slot_lt_base hs
    have h₂ := base_mono lengths (show lengthOf lengths s + 1 ≤ _ from h)
    unfold slot at *
    omega
  · have hrank := rank_lt_count_take hs hst
    rw [h] at hrank
    have hrank' : rank lengths s < rank lengths t := hrank
    unfold slot
    rw [h]
    omega
  · have h₁ := slot_lt_base ht
    have h₂ := base_mono lengths (show lengthOf lengths t + 1 ≤ _ from h)
    unfold slot at *
    omega

end PsxRecomp.CanonicalCode
