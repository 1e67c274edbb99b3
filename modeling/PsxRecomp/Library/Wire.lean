import Mathlib

/-! Values on a wire of bytes: what a writer puts down, and what a reader takes off the front. -/
namespace PsxRecomp.Wire
set_option autoImplicit false

abbrev Bytes := List (BitVec 8)

/-- A reader takes bytes off the front, or fails. -/
abbrev Reader := StateT Bytes Option

/-- A reader brings a value that fits the wire back from behind its own bytes. -/
structure Field (α : Type) where
  emit : α → Bytes
  parse : Reader α
  Fits : α → Prop
  parse_emit : ∀ x rest, Fits x → parse.run (emit x ++ rest) = some (x, rest)

variable {α β γ : Type}

theorem run_bind {m : Reader α} {k : α → Reader β} {bs rest : Bytes} {x : α}
    (h : m.run bs = some (x, rest)) : (m >>= k).run bs = (k x).run rest := by
  rw [StateT.run_bind, h]
  rfl

theorem Field.bind (c : Field α) {x : α} (h : c.Fits x) (k : α → Reader β) (rest : Bytes) :
    (c.parse >>= k).run (c.emit x ++ rest) = (k x).run rest := run_bind (c.parse_emit x rest h)

def take : Reader (BitVec 8)
  | [] => none
  | b :: rest => some (b, rest)

theorem take_bind (b : BitVec 8) (k : BitVec 8 → Reader β) (rest : Bytes) :
    (take >>= k).run (b :: rest) = (k b).run rest := rfl

/-! ## Words, low byte first -/

variable {w : ℕ}

def emitWord : ℕ → BitVec w → Bytes
  | 0, _ => []
  | n + 1, v => v.setWidth 8 :: emitWord n (v >>> (8 : ℕ))

def parseWord : ℕ → Reader (BitVec w)
  | 0 => pure 0
  | n + 1 => do
    let b ← take
    let v ← parseWord n
    pure (b.setWidth w ||| v <<< (8 : ℕ))

theorem low_or_high (v : BitVec w) :
    (v.setWidth 8).setWidth w ||| (v >>> (8 : ℕ)) <<< (8 : ℕ) = v := by
  refine BitVec.eq_of_getLsbD_eq fun i hi => ?_
  simp only [BitVec.getLsbD_or, BitVec.getLsbD_setWidth, BitVec.getLsbD_shiftLeft,
    BitVec.getLsbD_ushiftRight]
  rcases Nat.lt_or_ge i 8 with h | h
  · simp [h, hi]
  · simp [h, hi, Nat.not_lt.2 h]

theorem parseWord_emitWord (n : ℕ) (v : BitVec w) (rest : Bytes) (hv : v.toNat < 2 ^ (8 * n)) :
    (parseWord n).run (emitWord n v ++ rest) = some (v, rest) := by
  induction n generalizing v with
  | zero =>
    obtain rfl : v = 0 := BitVec.eq_of_toNat_eq (by simpa using hv)
    rfl
  | succ n ih =>
    have hhigh : (v >>> (8 : ℕ)).toNat < 2 ^ (8 * n) := by
      rw [BitVec.toNat_ushiftRight, Nat.shiftRight_eq_div_pow]
      refine Nat.div_lt_of_lt_mul ?_
      rw [← Nat.pow_add]
      rwa [Nat.mul_succ, Nat.add_comm] at hv
    rw [emitWord, parseWord, List.cons_append, take_bind, run_bind (ih _ hhigh), low_or_high]
    rfl

def word (w : ℕ) : Field (BitVec w) where
  emit := emitWord ((w + 7) / 8)
  parse := parseWord ((w + 7) / 8)
  Fits _ := True
  parse_emit v rest _ := parseWord_emitWord _ v rest
    (v.isLt.trans_le (Nat.pow_le_pow_right (by decide) (by omega)))

theorem emitWord_length (n : ℕ) (v : BitVec w) : (emitWord n v).length = n := by
  induction n generalizing v with
  | zero => rfl
  | succ n ih => rw [emitWord, List.length_cons, ih]

theorem word_length (v : BitVec w) : ((word w).emit v).length = (w + 7) / 8 := emitWord_length _ v

abbrev u16 : Field (BitVec 16) := word 16
abbrev u32 : Field (BitVec 32) := word 32

/-! ## Arrays -/

def Field.parseMany (c : Field α) : ℕ → Reader (List α)
  | 0 => pure []
  | n + 1 => do
    let x ← c.parse
    let l ← c.parseMany n
    pure (x :: l)

theorem Field.parseMany_emit (c : Field α) {l : List α} (h : ∀ x ∈ l, c.Fits x) (rest : Bytes) :
    (c.parseMany l.length).run (l.flatMap c.emit ++ rest) = some (l, rest) := by
  induction l with
  | nil => rfl
  | cons x l ih =>
    obtain ⟨hx, hl⟩ := List.forall_mem_cons.1 h
    rw [List.length_cons, Field.parseMany, List.flatMap_cons, List.append_assoc, c.bind hx,
      run_bind (ih hl)]
    rfl

def Field.array (c : Field α) (n : ℕ) : Field (List α) where
  emit l := l.flatMap c.emit
  parse := c.parseMany n
  Fits l := l.length = n ∧ ∀ x ∈ l, c.Fits x
  parse_emit l rest h := by
    obtain ⟨rfl, hl⟩ := h
    exact c.parseMany_emit hl rest

theorem array_length (n : ℕ) (l : List (BitVec w)) :
    (((word w).array n).emit l).length = l.length * ((w + 7) / 8) := by
  induction l with
  | nil => simp [Field.array]
  | cons v l ih =>
    have h : ((word w).array n).emit (v :: l) = (word w).emit v ++ ((word w).array n).emit l := rfl
    rw [h, List.length_append, word_length, ih, List.length_cons, Nat.succ_mul, Nat.add_comm]

end PsxRecomp.Wire
