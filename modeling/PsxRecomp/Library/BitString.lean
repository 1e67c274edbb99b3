import Mathlib

/-! Numbers as strings of bits, from the low end or from the high end. -/
namespace PsxRecomp.BitString
set_option autoImplicit false

/-! ## Low bit first -/

def lsb (v : ℕ) : ℕ → List Bool
  | 0 => []
  | w + 1 => v.testBit 0 :: lsb (v / 2) w

@[simp] theorem lsb_zero (v : ℕ) : lsb v 0 = [] := rfl

theorem lsb_succ (v w : ℕ) : lsb v (w + 1) = v.testBit 0 :: lsb (v / 2) w := rfl

@[simp] theorem lsb_length (v w : ℕ) : (lsb v w).length = w := by
  induction w generalizing v with
  | zero => rfl
  | succ w ih => simp [lsb_succ, ih]

theorem lsb_add (v n m : ℕ) : lsb v (n + m) = lsb v n ++ lsb (v / 2 ^ n) m := by
  induction n generalizing v with
  | zero => simp
  | succ n ih =>
    rw [Nat.add_right_comm, lsb_succ, lsb_succ, ih, Nat.div_div_eq_div_mul, ← Nat.pow_succ']
    rfl

theorem lsb_congr {v v' w : ℕ} (h : v % 2 ^ w = v' % 2 ^ w) : lsb v w = lsb v' w := by
  induction w generalizing v v' with
  | zero => rfl
  | succ w ih =>
    have hbit : v % 2 = v' % 2 := by
      have hdvd : 2 ∣ 2 ^ (w + 1) := Dvd.intro_left (2 ^ w) rfl
      rw [← Nat.mod_mod_of_dvd v hdvd, h, Nat.mod_mod_of_dvd v' hdvd]
    have hhigh : v / 2 % 2 ^ w = v' / 2 % 2 ^ w := by
      rw [← Nat.mod_mul_right_div_self, ← Nat.mod_mul_right_div_self, ← Nat.pow_succ', h]
    rw [lsb_succ, lsb_succ, ih hhigh, Nat.testBit_zero, Nat.testBit_zero, hbit]

/-- Strings of values that fit are equal for equal values only. -/
theorem lsb_inj {v v' w : ℕ} (hv : v < 2 ^ w) (hv' : v' < 2 ^ w) (h : lsb v w = lsb v' w) :
    v = v' := by
  induction w generalizing v v' with
  | zero => omega
  | succ w ih =>
    rw [lsb_succ, lsb_succ, List.cons.injEq, Nat.testBit_zero, Nat.testBit_zero] at h
    have hhigh := ih (by omega) (by omega) h.2
    have hbit := h.1
    rw [decide_eq_decide] at hbit
    omega

/-- A higher part put above a value that fits. -/
theorem lsb_or_shift {v n : ℕ} (hv : v < 2 ^ n) (u m : ℕ) :
    lsb (v ||| u <<< n) (n + m) = lsb v n ++ lsb u m := by
  have hsum : v ||| u <<< n = v + 2 ^ n * u := by
    rw [Nat.or_comm, ← Nat.shiftLeft_add_eq_or_of_lt hv, Nat.shiftLeft_eq]
    ring
  rw [lsb_add, hsum]
  congr 1
  · exact lsb_congr (Nat.add_mul_mod_self_left v (2 ^ n) u)
  · rw [Nat.add_mul_div_left v u (Nat.two_pow_pos n), Nat.div_eq_of_lt hv, Nat.zero_add]

/-! ## High bit first -/

def msb (v : ℕ) : ℕ → List Bool
  | 0 => []
  | w + 1 => v.testBit w :: msb v w

@[simp] theorem msb_zero (v : ℕ) : msb v 0 = [] := rfl

theorem msb_succ (v w : ℕ) : msb v (w + 1) = v.testBit w :: msb v w := rfl

/-- One more bit read from the high end. -/
theorem div_succ_bit (v w : ℕ) : v / 2 ^ w = 2 * (v / 2 ^ (w + 1)) + (v.testBit w).toNat := by
  rw [Nat.testBit_eq_decide_div_mod_eq, Nat.pow_succ, ← Nat.div_div_eq_div_mul]
  rcases Nat.mod_two_eq_zero_or_one (v / 2 ^ w) with h | h
  · simp only [h]
    simp
    omega
  · simp only [h]
    simp
    omega

end PsxRecomp.BitString
