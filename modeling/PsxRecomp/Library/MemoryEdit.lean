import Mathlib

/-! Edits of a memory. A local edit reads and writes below a bound only; a patch replaces one
interval by given contents, and patches of disjoint intervals do not disturb each other. -/
namespace PsxRecomp.MemoryEdit
set_option autoImplicit false

variable {α : Type*}

abbrev Memory (α : Type*) := ℕ → α

abbrev Edit (α : Type*) := Memory α → Memory α

/-- The memory seen from an offset. -/
def shift (m : Memory α) (off : ℕ) : Memory α := fun n => m (off + n)

theorem shift_zero (m : Memory α) : shift m 0 = m := by
  funext n
  rw [shift, Nat.zero_add]

/-- An edit made through a pointer at an offset. -/
def editAt (off : ℕ) (f : Edit α) : Edit α := fun m n =>
  if off ≤ n then f (shift m off) (n - off) else m n

theorem editAt_below {off n : ℕ} (f : Edit α) (m : Memory α) (h : n < off) :
    editAt off f m n = m n := if_neg (Nat.not_le.mpr h)

theorem editAt_shift {off : ℕ} (f : Edit α) (m : Memory α) (n : ℕ) :
    editAt off f m (off + n) = f (shift m off) n := by
  unfold editAt
  rw [if_pos (Nat.le_add_right off n), Nat.add_sub_cancel_left]

def Agree (len : ℕ) (m m' : Memory α) : Prop := ∀ n < len, m n = m' n

/-! ## Local edits -/

structure Local (len : ℕ) (f : Edit α) : Prop where
  outside : ∀ m n, len ≤ n → f m n = m n
  inside : ∀ m m', Agree len m m' → Agree len (f m) (f m')

section Local
variable {len len' off : ℕ} {f g : Edit α}

theorem Local.mono (hf : Local len f) (h : len ≤ len') : Local len' f := by
  refine ⟨fun m n hn => hf.outside m n (h.trans hn), fun m m' hsame n hn => ?_⟩
  by_cases hlow : n < len
  · exact hf.inside m m' (fun i hi => hsame i (hi.trans_le h)) n hlow
  · rw [hf.outside m n (not_lt.mp hlow), hf.outside m' n (not_lt.mp hlow), hsame n hn]

theorem Local.comp (hf : Local len f) (hg : Local len g) : Local len fun m => f (g m) := by
  constructor
  · intro m n hn
    rw [hf.outside _ n hn, hg.outside m n hn]
  · intro m m' hsame
    exact hf.inside _ _ (hg.inside m m' hsame)

theorem Local.editAt (hf : Local len f) : Local (off + len) (MemoryEdit.editAt off f) := by
  constructor
  · intro m n hn
    unfold MemoryEdit.editAt
    rw [if_pos (by omega), hf.outside _ _ (by omega), shift, Nat.add_sub_cancel' (by omega)]
  · intro m m' hsame n hn
    unfold MemoryEdit.editAt
    by_cases hlow : off ≤ n
    · rw [if_pos hlow, if_pos hlow]
      exact hf.inside _ _ (fun i hi => hsame (off + i) (by omega)) (n - off) (by omega)
    · rw [if_neg hlow, if_neg hlow, hsame n hn]

theorem Local.ite {c : Prop} [Decidable c] (hf : Local len f) (hg : Local len g) :
    Local len fun m => if c then f m else g m := by
  by_cases h : c
  · simpa only [if_pos h] using hf
  · simpa only [if_neg h] using hg

end Local

/-! ## Patches -/

structure Patch (α : Type*) where
  off : ℕ
  len : ℕ
  content : Memory α

def Patch.covers (P : Patch α) (n : ℕ) : Prop := P.off ≤ n ∧ n < P.off + P.len

def Patch.apply (P : Patch α) : Edit α := fun m n =>
  if P.off ≤ n ∧ n < P.off + P.len then P.content (n - P.off) else m n

def Patch.Disjoint (P Q : Patch α) : Prop := ∀ n, ¬(P.covers n ∧ Q.covers n)

def applyAll (Ps : List (Patch α)) : Edit α := fun m => Ps.foldl (fun m P => P.apply m) m

/-- A local edit that ignores what it overwrites is a patch. -/
theorem editAt_eq_patch {len off : ℕ} {f : Edit α} (content : Memory α)
    (houtside : ∀ m n, len ≤ n → f m n = m n) (hinside : ∀ m, Agree len (f m) content) :
    editAt off f = Patch.apply ⟨off, len, content⟩ := by
  funext m n
  unfold editAt Patch.apply
  dsimp only
  by_cases hlow : off ≤ n
  · rw [if_pos hlow]
    by_cases hhigh : n < off + len
    · rw [if_pos ⟨hlow, hhigh⟩, hinside _ (n - off) (by omega)]
    · rw [if_neg (fun h => hhigh h.2), houtside _ _ (by omega), shift, Nat.add_sub_cancel' hlow]
  · rw [if_neg hlow, if_neg (fun h => hlow h.1)]

theorem Patch.apply_covered {P : Patch α} {n : ℕ} (h : P.covers n) (m : Memory α) :
    P.apply m n = P.content (n - P.off) := if_pos h

theorem Patch.apply_uncovered {P : Patch α} {n : ℕ} (h : ¬P.covers n) (m : Memory α) :
    P.apply m n = m n := if_neg h

theorem applyAll_cons (P : Patch α) (Ps : List (Patch α)) (m : Memory α) :
    applyAll (P :: Ps) m = applyAll Ps (P.apply m) := rfl

theorem applyAll_append (Ps Qs : List (Patch α)) (m : Memory α) :
    applyAll (Ps ++ Qs) m = applyAll Qs (applyAll Ps m) := List.foldl_append

theorem applyAll_outside (Ps : List (Patch α)) (m : Memory α) (n : ℕ)
    (h : ∀ P ∈ Ps, ¬P.covers n) : applyAll Ps m n = m n := by
  induction Ps generalizing m with
  | nil => rfl
  | cons P Ps ih =>
    rw [applyAll_cons, ih _ fun Q hQ => h Q (List.mem_cons_of_mem P hQ)]
    exact P.apply_uncovered (h P List.mem_cons_self) m

/-- After disjoint patches every interval holds its own contents. -/
theorem applyAll_inside {Ps : List (Patch α)} (hdisjoint : Ps.Pairwise Patch.Disjoint)
    {P : Patch α} (hP : P ∈ Ps) (m : Memory α) (i : ℕ) (hi : i < P.len) :
    applyAll Ps m (P.off + i) = P.content i := by
  induction Ps generalizing m with
  | nil => simp at hP
  | cons Q Ps ih =>
    rw [List.pairwise_cons] at hdisjoint
    rw [applyAll_cons]
    rcases List.mem_cons.mp hP with rfl | hP
    · have hcovers : P.covers (P.off + i) := ⟨Nat.le_add_right _ _, by omega⟩
      rw [applyAll_outside _ _ _ fun R hR hcov => hdisjoint.1 R hR _ ⟨hcovers, hcov⟩,
        P.apply_covered hcovers, Nat.add_sub_cancel_left]
    · exact ih hdisjoint.2 hP _

end PsxRecomp.MemoryEdit
