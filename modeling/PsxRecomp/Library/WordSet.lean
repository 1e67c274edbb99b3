import Mathlib

/-! Sets of machine words in their order, and the next member after a value. -/
namespace PsxRecomp.WordSet
set_option autoImplicit false

/-- The order of `std::set<uint32_t>`. -/
instance wordLinearOrder {w : ℕ} : LinearOrder (BitVec w) where
  le_refl := BitVec.le_refl
  le_trans _ _ _ := BitVec.le_trans
  le_antisymm _ _ := BitVec.le_antisymm
  le_total := BitVec.le_total
  lt_iff_le_not_ge a b := by
    simp only [BitVec.le_def, BitVec.lt_def]
    omega
  toDecidableLE := inferInstance

variable {α : Type} [LinearOrder α]

/-- `upper_bound(e)`, or the end. -/
def nextAfter (stop : α) (starts : Finset α) (e : α) : α :=
  (starts.filter fun x => e < x).min.untopD stop

theorem nextAfter_cases (stop : α) (starts : Finset α) (e : α) :
    nextAfter stop starts e = stop ∨ nextAfter stop starts e ∈ starts ∧ e < nextAfter stop starts e := by
  unfold nextAfter
  cases hmin : (starts.filter fun x => e < x).min with
  | top => exact .inl rfl
  | coe x =>
    have hmem := Finset.mem_of_min hmin
    rw [Finset.mem_filter] at hmem
    exact .inr hmem

theorem nextAfter_eq {stop : α} {starts : Finset α} {e x : α} (hx : x ∈ starts) (hlt : e < x)
    (hleast : ∀ y ∈ starts, e < y → x ≤ y) : nextAfter stop starts e = x := by
  have hmem : x ∈ starts.filter fun y => e < y := Finset.mem_filter.mpr ⟨hx, hlt⟩
  have hmin : (starts.filter fun y => e < y).min = (x : WithTop α) := by
    refine le_antisymm (Finset.min_le hmem) (Finset.le_min fun y hy => ?_)
    rw [Finset.mem_filter] at hy
    exact WithTop.coe_le_coe.mpr (hleast y hy.1 hy.2)
  unfold nextAfter
  rw [hmin]
  rfl

theorem nextAfter_congr {stop : α} {starts starts' : Finset α} {e e' : α}
    (h : ∀ x, x ∈ starts ∧ e < x ↔ x ∈ starts' ∧ e' < x) :
    nextAfter stop starts e = nextAfter stop starts' e' := by
  have hsame : (starts.filter fun x => e < x) = starts'.filter fun x => e' < x := by
    ext x
    rw [Finset.mem_filter, Finset.mem_filter]
    exact h x
  unfold nextAfter
  rw [hsame]

end PsxRecomp.WordSet
