import Mathlib

/-! Arithmetic of fixed width that also tells whether it overflowed. A computation carries the value
the machine has and whether every intermediate result so far was the exact one. -/
namespace PsxRecomp.Overflow
set_option autoImplicit false

/-- A value, and whether nothing on the way to it overflowed. -/
@[ext] structure Checked (α : Type) where
  val : α
  fits : Bool

variable {α β : Type}

namespace Checked

instance : Monad Checked where
  pure a := ⟨a, true⟩
  bind x f := ⟨(f x.val).val, x.fits && (f x.val).fits⟩

@[simp] theorem pure_val (a : α) : (pure a : Checked α).val = a := rfl
@[simp] theorem pure_fits (a : α) : (pure a : Checked α).fits = true := rfl

@[simp] theorem bind_val (x : Checked α) (f : α → Checked β) : (x >>= f).val = (f x.val).val := rfl

@[simp] theorem bind_fits (x : Checked α) (f : α → Checked β) :
    (x >>= f).fits = (x.fits && (f x.val).fits) := rfl

@[simp] theorem pure_bind (a : α) (f : α → Checked β) : (pure a >>= f) = f a := by
  ext <;> simp

end Checked

/-- The result of an unsigned operation of `w` bits. -/
def unsigned (w n : ℕ) : Checked ℕ := ⟨n % 2 ^ w, n < 2 ^ w⟩

/-- `a - b` for unsigned operands. -/
def unsignedSub (w a b : ℕ) : Checked ℕ := ⟨(a + (2 ^ w - b % 2 ^ w)) % 2 ^ w, b ≤ a⟩

/-- The result of a signed operation of `w` bits. -/
def signed (w : ℕ) (z : ℤ) : Checked ℤ :=
  ⟨z.bmod (2 ^ w), -2 ^ (w - 1) ≤ z ∧ z < 2 ^ (w - 1)⟩

/-- The quotient of two signed operands, rounded to zero. A zero divisor does not fit. -/
def signedDiv (w : ℕ) (a b : ℤ) : Checked ℤ :=
  ⟨(a.tdiv b).bmod (2 ^ w), b ≠ 0 ∧ -2 ^ (w - 1) ≤ a.tdiv b ∧ a.tdiv b < 2 ^ (w - 1)⟩

theorem unsigned_of_lt {w n : ℕ} (h : n < 2 ^ w) : unsigned w n = pure n := by
  ext
  · exact Nat.mod_eq_of_lt h
  · simp [unsigned, h]

theorem unsignedSub_of_le {w a b : ℕ} (hab : b ≤ a) (ha : a < 2 ^ w) :
    unsignedSub w a b = pure (a - b) := by
  ext
  · have hb : b % 2 ^ w = b := Nat.mod_eq_of_lt (hab.trans_lt ha)
    have he : a + (2 ^ w - b) = a - b + 2 ^ w := by omega
    simp only [unsignedSub, Checked.pure_val]
    rw [hb, he, Nat.add_mod_right, Nat.mod_eq_of_lt (by omega)]
  · simp [unsignedSub, hab]

theorem signed_of_range {w : ℕ} {z : ℤ} (hw : w ≠ 0) (hlo : -2 ^ (w - 1) ≤ z) (hhi : z < 2 ^ (w - 1)) :
    signed w z = pure z := by
  have hdouble : (2 : ℤ) ^ w = 2 * 2 ^ (w - 1) := by
    rw [← pow_succ', Nat.sub_add_cancel (Nat.one_le_iff_ne_zero.2 hw)]
  ext
  · exact Int.bmod_eq_of_le_mul_two (by push_cast; omega) (by push_cast; omega)
  · simp [signed, hlo, hhi]

theorem signedDiv_of_range {w : ℕ} {a b : ℤ} (hw : w ≠ 0) (hb : b ≠ 0) (hlo : -2 ^ (w - 1) ≤ a.tdiv b)
    (hhi : a.tdiv b < 2 ^ (w - 1)) : signedDiv w a b = pure (a.tdiv b) := by
  have hval := congrArg Checked.val (signed_of_range hw hlo hhi)
  ext
  · exact hval
  · simp [signedDiv, hb, hlo, hhi]

end PsxRecomp.Overflow
