import PsxRecomp.Discovery.Discover

/-! What direct control flow reaches, and what one walk covers of it. -/
namespace PsxRecomp.Discovery
open R3000 Worklist
set_option autoImplicit false

/-! ## What direct control flow reaches -/

section Flow
variable (rom : Rom) (model : BiosAddressModel)

/-- Where control flow goes behind an instruction and its slot, as far as the word says it. -/
def directSuccessors (addr : Word) : List Word :=
  match flowAt rom model addr with
  | none => []
  | some cf =>
    match cf.kind with
    | .normal | .syscall | .trap => [addr + 4]
    | .condBranch | .call => [addr + 8, cf.target]
    | .jump => [cf.target]
    | .jalr => [addr + 8]
    | .jrRa | .jrIndirect | .rfe => []

variable (seeds : List Word)

inductive Reaches : Word → Prop
  | seed {s : Word} (h : s ∈ seeds) : Reaches s
  | step {a b : Word} (h : Reaches a) (hb : b ∈ directSuccessors rom model a) : Reaches b

/-- What is executed: the instructions reached and their delay slots. -/
def Touches (addr : Word) : Prop :=
  Reaches rom model seeds addr ∨ ∃ a, Reaches rom model seeds a ∧ addr ∈ slotOf rom model a

end Flow

section Facts
variable {rom : Rom} {model : BiosAddressModel} {entry cap cap' a b d : Word}

theorem inRom_iff : inRom a = true ↔ 0xBFC00000 ≤ a.toNat ∧ a.toNat ≤ 0xBFC7FFFF := by
  simp [inRom, kBiosBase, romEnd, BitVec.le_def]

theorem inBounds_iff : inBounds entry cap a = true ↔
    (0xBFC00000 ≤ a.toNat ∧ a.toNat ≤ 0xBFC7FFFF) ∧ entry.toNat ≤ a.toNat ∧ a.toNat < cap.toNat := by
  simp only [inBounds, decide_eq_true_eq, inRom_iff, BitVec.le_def, BitVec.lt_def]

end Facts
end PsxRecomp.Discovery
