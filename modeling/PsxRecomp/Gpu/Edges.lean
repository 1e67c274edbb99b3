import Mathlib
import PsxRecomp.Library.Overflow

/-! Triangle edges in biased 32.32 fixed point. The slope is rounded away from zero and the start is
biased down by 2^-21, so that the floor of the sum is the ceiling of the exact position. -/
namespace PsxRecomp.Triangles
open Overflow
set_option autoImplicit false

/-! ## The edge arithmetic -/

def edgeFp (x : ℤ) : Checked ℤ := do
  let shifted ← signed 64 (x * 2 ^ 32)
  signed 64 (shifted + (2 ^ 32 - 2 ^ 11))

def edgeStep (dx dy : ℤ) : Checked ℤ := do
  let rounding := if dx < 0 then -(dy - 1) else if 0 < dx then dy - 1 else 0
  let shifted ← signed 64 (dx * 2 ^ 32)
  let rounded ← signed 64 (shifted + rounding)
  signedDiv 64 rounded dy

/-- `(int)((uint64_t)fp >> 32)` -/
def edgeUnfp (fp : ℤ) : ℤ := (fp % 2 ^ 64 / 2 ^ 32).bmod (2 ^ 32)

/-- `psx_edge_unfp(psx_edge_fp(x) + step * rows)` -/
def edgeAt (x step rows : ℤ) : Checked ℤ := do
  let start ← edgeFp x
  let moved ← signed 64 (step * rows)
  let fp ← signed 64 (start + moved)
  pure (edgeUnfp fp)

structure Vertex where
  x : ℤ
  y : ℤ
deriving DecidableEq

/-- The long and the short edge in row `y`, of vertices that are sorted by `y`. -/
def triangleEdgesAtY (v0 v1 v2 : Vertex) (y : ℤ) : Checked (ℤ × ℤ) := do
  let longStep ← edgeStep (v2.x - v0.x) (v2.y - v0.y)
  let longX ← edgeAt v0.x longStep (y - v0.y)
  if y < v1.y then do
    let shortStep ← edgeStep (v1.x - v0.x) (v1.y - v0.y)
    let shortX ← edgeAt v0.x shortStep (y - v0.y)
    pure (longX, shortX)
  else do
    let shortStep ← edgeStep (v2.x - v1.x) (v2.y - v1.y)
    let shortX ← edgeAt v1.x shortStep (y - v1.y)
    pure (longX, shortX)

/-! ## The slope -/

variable {dx dy k x step : ℤ}

/-- The slope times the height, up to an error below the height that points away from zero. -/
theorem edgeStep_eq (hdx : -1023 ≤ dx ∧ dx ≤ 1023) (hdy : 0 < dy ∧ dy ≤ 511) :
    ∃ step e, edgeStep dx dy = pure step ∧ step * dy = dx * 2 ^ 32 + e ∧ -dy < e ∧ e < dy := by
  generalize hr : (if dx < 0 then -(dy - 1) else if 0 < dx then dy - 1 else 0) = rounding
  have hround : -dy < rounding ∧ rounding < dy := by
    split_ifs at hr <;> omega
  have hsplit := Int.mul_tdiv_add_tmod (dx * 2 ^ 32 + rounding) dy
  have hlt := Int.tmod_lt_of_pos (dx * 2 ^ 32 + rounding) hdy.1
  have hgt := Int.lt_tmod_of_pos (dx * 2 ^ 32 + rounding) hdy.1
  generalize hq : (dx * 2 ^ 32 + rounding).tdiv dy = q at hsplit
  generalize hm : (dx * 2 ^ 32 + rounding).tmod dy = m at hsplit hlt hgt
  have herror : -dy < rounding - m ∧ rounding - m < dy := by
    split_ifs at hr with hneg hpos
    · -- a negative slope leaves a remainder that is not positive
      have hsign : m ≤ 0 := by
        have := Int.tmod_nonneg dy (show 0 ≤ -(dx * 2 ^ 32 + rounding) by omega)
        rw [Int.neg_tmod, hm] at this
        omega
      omega
    · have hsign : 0 ≤ m := by
        rw [← hm]
        exact Int.tmod_nonneg dy (by omega)
      omega
    · have hzero : dx * 2 ^ 32 + rounding = 0 := by omega
      rw [hzero, Int.zero_tmod] at hm
      omega
  have hprod : q * dy = dx * 2 ^ 32 + (rounding - m) := by linarith [mul_comm q dy]
  have hqhi : q ≤ 2 ^ 42 := by nlinarith
  have hqlo : -2 ^ 42 ≤ q := by nlinarith
  refine ⟨q, rounding - m, ?_, hprod, herror⟩
  simp only [edgeStep, hr]
  rw [signed_of_range (by decide) (by omega) (by omega), Checked.pure_bind,
    signed_of_range (by decide) (by omega) (by omega), Checked.pure_bind, ← hq]
  exact signedDiv_of_range (by decide) (by omega) (by omega) (by omega)

/-! ## The position -/

theorem edgeUnfp_eq {fp : ℤ} (hlo : -2 ^ 63 ≤ fp) (hhi : fp < 2 ^ 63) : edgeUnfp fp = fp / 2 ^ 32 := by
  rw [edgeUnfp, Int.bmod_def]
  split_ifs <;> push_cast at * <;> omega

/-- The floor of the biased sum, against the exact position `x + dx * k / dy`. -/
theorem biased_floor {e v : ℤ} (hdy : 0 < dy ∧ dy ≤ 511) (hk : 0 ≤ k ∧ k < dy)
    (hstep : step * dy = dx * 2 ^ 32 + e) (he : -dy < e ∧ e < dy)
    (hv : v = (x * 2 ^ 32 + (2 ^ 32 - 2 ^ 11) + step * k) / 2 ^ 32) :
    (v - 1 - x) * dy < dx * k ∧ dx * k ≤ (v - x) * dy := by
  have herror : -(510 * dy) ≤ e * k ∧ e * k ≤ 510 * dy := by constructor <;> nlinarith
  have hfloor : v * 2 ^ 32 ≤ x * 2 ^ 32 + (2 ^ 32 - 2 ^ 11) + step * k ∧
      x * 2 ^ 32 + (2 ^ 32 - 2 ^ 11) + step * k < v * 2 ^ 32 + 2 ^ 32 := by omega
  have hmoved : step * k * dy = dx * k * 2 ^ 32 + e * k := by linear_combination k * hstep
  have hlow := mul_le_mul_of_nonneg_right hfloor.1 hdy.1.le
  have hhigh := mul_lt_mul_of_pos_right hfloor.2 hdy.1
  have hexpand : (x * 2 ^ 32 + (2 ^ 32 - 2 ^ 11) + step * k) * dy
      = x * dy * 2 ^ 32 + (2 ^ 32 - 2 ^ 11) * dy + (dx * k * 2 ^ 32 + e * k) := by
    linear_combination hmoved
  rw [hexpand] at hlow hhigh
  rw [show v * 2 ^ 32 * dy = v * dy * 2 ^ 32 by ring] at hlow
  rw [show (v * 2 ^ 32 + 2 ^ 32) * dy = v * dy * 2 ^ 32 + dy * 2 ^ 32 by ring] at hhigh
  rw [show (v - 1 - x) * dy = v * dy - dy - x * dy by ring, show (v - x) * dy = v * dy - x * dy by ring]
  generalize v * dy = V at *
  generalize x * dy = X at *
  generalize dx * k = P at *
  generalize e * k = E at *
  omega

theorem edgeAt_eq {e : ℤ} (hx : -2048 ≤ x ∧ x ≤ 2047) (hdx : -1023 ≤ dx ∧ dx ≤ 1023)
    (hdy : 0 < dy ∧ dy ≤ 511) (hk : 0 ≤ k ∧ k < dy) (hstep : step * dy = dx * 2 ^ 32 + e)
    (he : -dy < e ∧ e < dy) : edgeAt x step k = pure ⌈(x : ℚ) + dx * k / dy⌉ := by
  have hhi : step * k ≤ 2 ^ 43 := by
    rcases le_total 0 step with hs | hs <;> nlinarith
  have hlo : -2 ^ 43 ≤ step * k := by
    rcases le_total 0 step with hs | hs <;> nlinarith
  have hpos := biased_floor (x := x) hdy hk hstep he rfl
  simp only [edgeAt, edgeFp]
  rw [signed_of_range (by decide) (by omega) (by omega), Checked.pure_bind,
    signed_of_range (by decide) (by omega) (by omega), Checked.pure_bind,
    signed_of_range (by decide) (by omega) (by omega), Checked.pure_bind,
    signed_of_range (by decide) (by omega) (by omega), Checked.pure_bind,
    edgeUnfp_eq (by omega) (by omega)]
  generalize (x * 2 ^ 32 + (2 ^ 32 - 2 ^ 11) + step * k) / 2 ^ 32 = v at hpos
  have hq : (0 : ℚ) < dy := by exact_mod_cast hdy.1
  congr 1
  refine (Int.ceil_eq_iff.2 ⟨?_, ?_⟩).symm
  · rw [← sub_lt_iff_lt_add', lt_div_iff₀ hq]
    exact_mod_cast hpos.1
  · rw [← le_sub_iff_add_le', div_le_iff₀ hq]
    exact_mod_cast hpos.2

/-- Slope and position together. -/
theorem edge_exact (hx : -2048 ≤ x ∧ x ≤ 2047) (hdx : -1023 ≤ dx ∧ dx ≤ 1023)
    (hdy : 0 < dy ∧ dy ≤ 511) (hk : 0 ≤ k ∧ k < dy) :
    ∃ step, edgeStep dx dy = pure step ∧ edgeAt x step k = pure ⌈(x : ℚ) + dx * k / dy⌉ := by
  obtain ⟨step, e, hpure, hstep, he⟩ := edgeStep_eq hdx hdy
  exact ⟨step, hpure, edgeAt_eq hx hdx hdy hk hstep he⟩

end PsxRecomp.Triangles
