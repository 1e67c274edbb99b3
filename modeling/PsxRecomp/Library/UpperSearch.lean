import Mathlib

/-! Binary search for the largest number at which a downward closed predicate holds. -/
namespace PsxRecomp.UpperSearch
set_option autoImplicit false

/-- The last `n` of `lo, …, hi` with `p n`, by halving; `none` when the fuel runs out. -/
def search (p : ℕ → Bool) : ℕ → ℕ → ℕ → Option ℕ
  | 0, _, _ => none
  | fuel + 1, lo, hi =>
    if lo < hi then
      if p (lo + (hi - lo + 1) / 2) then search p fuel (lo + (hi - lo + 1) / 2) hi
      else search p fuel lo (lo + (hi - lo + 1) / 2 - 1)
    else some lo

variable {p : ℕ → Bool}

theorem search_enough {fuel lo hi : ℕ} (hfuel : hi - lo < fuel) : ∃ n, search p fuel lo hi = some n := by
  induction fuel generalizing lo hi with
  | zero => omega
  | succ fuel ih =>
    rw [search]
    split_ifs with hlt hmid
    · exact ih (by omega)
    · exact ih (by omega)
    · exact ⟨lo, rfl⟩

theorem search_spec (hp : ∀ {m n}, m ≤ n → p n → p m) {fuel lo hi n : ℕ}
    (h : search p fuel lo hi = some n) (hle : lo ≤ hi) (hlo : p lo) (hhi : ∀ m, p m → m ≤ hi) :
    IsGreatest {m | p m} n := by
  induction fuel generalizing lo hi with
  | zero => exact absurd h (by simp [search])
  | succ fuel ih =>
    rw [search] at h
    split_ifs at h with hlt hmid
    · exact ih h (by omega) hmid hhi
    · refine ih h (by omega) hlo fun m hm => ?_
      -- what holds above the middle would hold at the middle
      by_contra hgt
      exact hmid (hp (by omega) hm)
    · cases h
      exact ⟨hlo, fun m hm => (hhi m hm).trans (by omega)⟩

end PsxRecomp.UpperSearch
