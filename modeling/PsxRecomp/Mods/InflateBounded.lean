import PsxRecomp.Mods.Deflate
import PsxRecomp.Mods.Inflate

/-! On every input `inflate_deflate` stays within the output it was asked for, at both ends. -/
namespace PsxRecomp.Mods
open Deflate
set_option autoImplicit false

def Ending.Within (n : ℕ) : Ending → Prop
  | .done out _ => out.length ≤ n
  | .rejected out => out.length ≤ n
  | .wild => False

def Turn.Within (n : ℕ) : Turn → Prop
  | .next out _ => out.length ≤ n
  | .ended e => e.Within n

def Inflation.Within (n : ℕ) : Inflation → Prop
  | .accepted out => out.length ≤ n
  | .rejected out => out.length ≤ n
  | .wild => False

/-! ## Copies -/

theorem repeated_length (out : List Byte) (distance length : ℕ) :
    (repeated out distance length).length = length := by
  simp [repeated]

/-- The first byte of a copy, and the copy that is left once it is in the output. -/
theorem repeated_succ {out : List Byte} {distance : ℕ} (hpos : 0 < distance)
    (hle : distance ≤ out.length) (length : ℕ) :
    repeated out distance (length + 1) =
      out.get ⟨out.length - distance, by omega⟩ ::
        repeated (out ++ [out.get ⟨out.length - distance, by omega⟩]) distance length := by
  rw [repeated, List.range_succ_eq_map, List.map_cons, List.map_map, repeated, List.get_eq_getElem]
  congr 1
  · rw [Nat.zero_mod, Nat.add_zero, List.getD_eq_getElem?_getD,
      List.getElem?_eq_getElem (by omega), Option.getD_some]
  · refine List.map_congr_left fun i _ => ?_
    have hmod := Nat.mod_lt i hpos
    simp only [Function.comp_apply, List.getD_eq_getElem?_getD, List.length_append,
      List.length_singleton]
    rcases Nat.lt_or_ge (i % distance + 1) distance with h | h
    · -- both bytes lie in the output as it was
      have hnext : (i + 1) % distance = i % distance + 1 := by
        rw [Nat.add_mod, Nat.mod_eq_of_lt (show 1 < distance by omega), Nat.mod_eq_of_lt h]
      rw [hnext, List.getElem?_append_left (by omega)]
      congr 2
      omega
    · -- the period starts again with the byte just put
      have hlast : i % distance = distance - 1 := by omega
      have hnext : (i + 1) % distance = 0 := by
        rw [Nat.add_mod, hlast]
        rcases Nat.lt_or_ge 1 distance with h1 | h1
        · rw [Nat.mod_eq_of_lt h1, Nat.sub_add_cancel (by omega), Nat.mod_self]
        · obtain rfl : distance = 1 := by omega
          rfl
      rw [hnext, hlast, Nat.add_zero, List.getElem?_append_right (by omega),
        List.getElem?_eq_getElem (show out.length - distance < out.length by omega)]
      have hidx : out.length + 1 - distance + (distance - 1) - out.length = 0 := by omega
      rw [hidx]
      rfl

theorem copyBack_eq {distance : ℕ} (hpos : 0 < distance) (length : ℕ) {out : List Byte}
    (hle : distance ≤ out.length) :
    copyBack distance length out = some (out ++ repeated out distance length) := by
  induction length generalizing out with
  | zero => simp [copyBack, repeated]
  | succ length ih =>
    rw [copyBack, List.getElem?_eq_getElem (by omega)]
    simp only
    rw [ih (by rw [List.length_append]; omega), repeated_succ hpos hle, List.append_assoc]
    rfl

/-! ## Loops -/

theorem readStored_length {length : ℕ} {out out' : List Byte} {d : DeflateBits}
    {r : Option DeflateBits} (h : readStored length out d = (out', r)) :
    out'.length ≤ out.length + length := by
  induction length generalizing out d with
  | zero =>
    cases h
    exact le_rfl
  | succ length ih =>
    simp only [readStored] at h
    split at h
    · cases h
      exact Nat.le_add_right _ _
    · have := ih h
      rw [List.length_append, List.length_singleton] at this
      omega

theorem readToken_within (literals distances : DeflateHuffman) {expected : ℕ} {out : List Byte}
    (h : out.length ≤ expected) (d : DeflateBits) :
    (readToken literals distances expected out d).Within expected := by
  unfold readToken
  split
  · exact h
  · split_ifs with hsym hfull
    · exact h
    · simp only [Turn.Within, List.length_append, List.length_singleton]
      omega
    · exact h
    · exact h
    · split
      · exact h
      · next length distance g hg =>
        split_ifs with hbad
        · exact h
        · push Not at hbad
          rw [copyBack_eq (Nat.pos_of_ne_zero hbad.1) length hbad.2.1]
          simp only [Turn.Within, List.length_append, repeated_length]
          exact hbad.2.2

theorem readTokens_within (literals distances : DeflateHuffman) {expected : ℕ} {out : List Byte}
    (h : out.length ≤ expected) (d : DeflateBits) :
    (readTokens literals distances expected out d).Within expected := by
  fun_induction readTokens literals distances expected out d with
  | case1 out d out₁ d₁ ht ih =>
    have hturn := readToken_within literals distances h d
    rw [ht] at hturn
    exact ih hturn
  | case2 out d e ht =>
    have hturn := readToken_within literals distances h d
    rw [ht] at hturn
    exact hturn

theorem storedBlock_within {expected : ℕ} {out : List Byte} (h : out.length ≤ expected)
    (d : DeflateBits) : (storedBlock expected out d).Within expected := by
  unfold storedBlock
  split
  · exact h
  · split
    · exact h
    · split_ifs with hbad
      · exact h
      · push Not at hbad
        split
        · next hs => exact (readStored_length hs).trans hbad.2
        · next hs => exact (readStored_length hs).trans hbad.2

theorem codedBlock_within {expected : ℕ} (lengths : List ℕ × List ℕ) {out : List Byte}
    (h : out.length ≤ expected) (d : DeflateBits) :
    (codedBlock expected lengths out d).Within expected := by
  unfold codedBlock
  split
  · exact readTokens_within _ _ h d
  · exact h

theorem blockBody_within {expected : ℕ} (type : ℕ) {out : List Byte} (h : out.length ≤ expected)
    (d : DeflateBits) : (blockBody expected type out d).Within expected := by
  unfold blockBody
  split_ifs
  · exact storedBlock_within h d
  · exact h
  · generalize (fixedLiteralLengths, fixedDistanceLengths) = lengths
    exact codedBlock_within lengths h d
  · split
    · exact h
    · exact codedBlock_within _ h _

theorem readBlock_within {expected : ℕ} {out : List Byte} (h : out.length ≤ expected)
    (d : DeflateBits) : (readBlock expected out d).Within expected := by
  unfold readBlock
  split
  · exact h
  · split
    · exact h
    · next type d₂ _ =>
      have hbody := blockBody_within type h d₂
      revert hbody
      cases blockBody expected type out d₂ with
      | done out e =>
        intro hbody
        unfold blockEnd
        split_ifs <;> exact hbody
      | rejected out => exact id
      | wild => exact id

theorem readBlocks_within {expected : ℕ} {out : List Byte} (h : out.length ≤ expected)
    (d : DeflateBits) : (readBlocks expected out d).Within expected := by
  fun_induction readBlocks expected out d with
  | case1 out d out₁ d₁ ht ih =>
    have hturn := readBlock_within h d
    rw [ht] at hturn
    exact ih hturn
  | case2 out d e ht =>
    have hturn := readBlock_within h d
    rw [ht] at hturn
    exact hturn

theorem inflateDeflate_within (data : List Byte) (expected : ℕ) :
    (inflateDeflate data expected).Within expected := by
  unfold inflateDeflate
  have hblocks : (readBlocks expected [] (.start data)).Within expected :=
    readBlocks_within (Nat.zero_le _) _
  revert hblocks
  cases readBlocks expected [] (.start data) with
  | done out e =>
    intro h
    simp only
    split_ifs <;> exact h
  | rejected out => exact id
  | wild => exact id

end PsxRecomp.Mods
