import Mathlib

/-! Two's complement words: the arithmetic of C's fixed-width integers written with `BitVec`, and
the masks that merge two words. -/
namespace PsxRecomp.MachineWord
set_option autoImplicit false

variable {w : ℕ}

/-! ## Addition -/

theorem ofInt_toInt_add (x y : BitVec w) : BitVec.ofInt w (x.toInt + y.toInt) = x + y := by
  rw [BitVec.ofInt_add, BitVec.ofInt_toInt, BitVec.ofInt_toInt]

theorem ofInt_sub (i j : ℤ) : BitVec.ofInt w (i - j) = BitVec.ofInt w i - BitVec.ofInt w j := by
  rw [sub_eq_add_neg, BitVec.ofInt_add, BitVec.ofInt_neg, BitVec.sub_eq_add_neg]

/-- A narrower word keeps the integer modulo its own size. -/
theorem setWidth_ofInt {v : ℕ} (hvw : v ≤ w) (i : ℤ) : (BitVec.ofInt w i).setWidth v = BitVec.ofInt v i := by
  apply BitVec.eq_of_toNat_eq
  rw [BitVec.toNat_setWidth, BitVec.toNat_ofInt, BitVec.toNat_ofInt]
  zify
  rw [Int.toNat_of_nonneg (Int.emod_nonneg _ (by positivity)), Int.toNat_of_nonneg (Int.emod_nonneg _ (by positivity))]
  exact Int.emod_emod_of_dvd i (pow_dvd_pow 2 hvw)

/-! ## Division -/

/-- The remainder by subtraction, for an unsigned quotient. -/
theorem sub_udiv_mul (x y : BitVec w) : x - x / y * y = x % y := by
  have h : x % y + x / y * y = x := by
    apply BitVec.eq_of_toNat_eq
    have h := Nat.mod_add_div' x.toNat y.toNat
    rw [BitVec.toNat_add, BitVec.toNat_mul, BitVec.toNat_udiv, BitVec.toNat_umod, Nat.add_mod_mod, h,
      Nat.mod_eq_of_lt x.isLt]
  exact (BitVec.eq_sub_iff_add_eq.2 h).symm

theorem ofInt_tdiv (x y : BitVec w) : BitVec.ofInt w (x.toInt.tdiv y.toInt) = x.sdiv y := by
  apply BitVec.eq_of_toInt_eq
  rw [BitVec.toInt_sdiv, BitVec.toInt_ofInt]

/-- The remainder by subtraction, for a quotient rounded to zero. -/
theorem sub_sdiv_mul (x y : BitVec w) : x - x.sdiv y * y = x.srem y := by
  have h := Int.tmod_add_mul_tdiv x.toInt y.toInt
  have hx : BitVec.ofInt w (x.toInt.tmod y.toInt + y.toInt * x.toInt.tdiv y.toInt) = x := by
    rw [h, BitVec.ofInt_toInt]
  rw [BitVec.ofInt_add, BitVec.ofInt_mul, BitVec.ofInt_toInt, ofInt_tdiv, ← BitVec.toInt_srem,
    BitVec.ofInt_toInt, BitVec.mul_comm] at hx
  exact (BitVec.eq_sub_iff_add_eq.2 hx).symm

/-! ## Masked writes -/

/-- Writing `v` through the mask `m` over `c` gives `v` itself exactly when the two agree outside
the mask. -/
theorem masked_write_eq_iff (c v m : BitVec w) :
    (c &&& ~~~m ||| v &&& m) = v ↔ v &&& ~~~m = c &&& ~~~m := by
  constructor
  · intro h
    have hout : (c &&& ~~~m ||| v &&& m) &&& ~~~m = v &&& ~~~m := by rw [h]
    rw [← hout]
    ext i hi
    simp only [BitVec.getElem_and, BitVec.getElem_or, BitVec.getElem_not]
    grind
  · intro h
    rw [← h]
    ext i hi
    simp only [BitVec.getElem_and, BitVec.getElem_or, BitVec.getElem_not]
    grind

/-- Two masks keep the same of `c` beside `x` exactly when every bit of `c` on which they differ is
a bit of `x`. -/
theorem masked_or_eq_iff (c k₁ k₂ x : BitVec w) :
    (c &&& k₁ ||| x) = (c &&& k₂ ||| x) ↔ c &&& (k₁ ^^^ k₂) &&& ~~~x = 0#w := by
  constructor
  · intro h
    ext i hi
    have hbit : (c &&& k₁ ||| x)[i] = (c &&& k₂ ||| x)[i] := by rw [h]
    simp only [BitVec.getElem_and, BitVec.getElem_or, BitVec.getElem_not, BitVec.getElem_xor,
      BitVec.getElem_zero] at hbit ⊢
    grind
  · intro h
    ext i hi
    have hbit : (c &&& (k₁ ^^^ k₂) &&& ~~~x)[i] = (0#w)[i] := by rw [h]
    simp only [BitVec.getElem_and, BitVec.getElem_or, BitVec.getElem_not, BitVec.getElem_xor,
      BitVec.getElem_zero] at hbit ⊢
    grind

theorem and_not_of_disjoint (m n y : BitVec w) (h : m &&& n = 0#w) : m &&& ~~~(y &&& n) = m := by
  ext i hi
  have hi' : (m &&& n)[i] = (0#w)[i] := by rw [h]
  simp only [BitVec.getElem_and, BitVec.getElem_not, BitVec.getElem_zero] at hi' ⊢
  grind

end PsxRecomp.MachineWord
