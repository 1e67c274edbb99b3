import Mathlib
import PsxRecomp.Discovery.AddressModel
import PsxRecomp.Library.Worklist
import PsxRecomp.Library.WordSet

/-! `walk_function`, the instructions of one function from its entry up to the next known entry, and
`FunctionDiscovery::discover`, the entries that calls lead to with a walk of each and the promotion
of escaping targets until every one is covered. -/
namespace PsxRecomp.Discovery
open R3000 Worklist WordSet
set_option autoImplicit false

local instance field_lawfulBEq : LawfulBEq (BitVec 6) := inferInstance
local instance word_isTrans : IsTrans Word (· ≤ ·) := inferInstance
local instance word_antisymm : Std.Antisymm ((· ≤ ·) : Word → Word → Prop) := inferInstance
local instance word_total : Std.Total ((· ≤ ·) : Word → Word → Prop) := inferInstance

/-! ## The image -/

def kBiosBase : Word := 0xBFC00000
def kBiosSize : ℕ := 0x80000

/-- The last address, `kBiosBase + kBiosSize - 1`. -/
def romEnd : Word := 0xBFC7FFFF

abbrev Rom := Fin kBiosSize → BitVec 8

/-- What ends a discovery with a `std::runtime_error`. -/
inductive Failure
  | readOutOfRange | seedOutsideRom | duplicateNormalized | notConverged
deriving DecidableEq, Repr

/-- `read_u32_le` -/
def readU32Le (rom : Rom) (offset : Word) : Option Word :=
  if h : offset.toNat + 3 < kBiosSize then
    some (rom ⟨offset.toNat + 3, h⟩ ++ rom ⟨offset.toNat + 2, by omega⟩ ++
      rom ⟨offset.toNat + 1, by omega⟩ ++ rom ⟨offset.toNat, by omega⟩)
  else none

def fetch (rom : Rom) (addr : Word) : Option Word := readU32Le rom (addr - kBiosBase)

def inRom (addr : Word) : Bool := kBiosBase ≤ addr ∧ addr ≤ romEnd

/-! ## Control flow -/

inductive CFKind
  | normal | condBranch | jump | call | jrRa | jrIndirect | jalr | syscall | trap | rfe
deriving DecidableEq, Repr

structure CFInfo where
  kind : CFKind
  target : Word
  reg : Reg
deriving DecidableEq

def classifyControlFlow (model : BiosAddressModel) (raw addr : Word) : CFInfo :=
  let op := opField raw
  let funct := functField raw
  let branchTarget := addr + 4 + simm16Field raw * 4
  let jumpTarget := model.remapRelocatedJTarget
    (((addr + 4) &&& 0xF0000000) ||| (target26 raw <<< 2)) addr
  if (0x04 ≤ op ∧ op ≤ 0x07) ∨ op = 0x01 then ⟨.condBranch, branchTarget, 0⟩
  else if op = 0x02 then ⟨.jump, jumpTarget, 0⟩
  else if op = 0x03 then ⟨.call, jumpTarget, 0⟩
  else if op = 0x00 ∧ funct = 0x08 then
    if rsField raw = 31 then ⟨.jrRa, 0, 0⟩ else ⟨.jrIndirect, 0, rsField raw⟩
  else if op = 0x00 ∧ funct = 0x09 then ⟨.jalr, 0, rsField raw⟩
  else if op = 0x00 ∧ funct = 0x0C then ⟨.syscall, 0, 0⟩
  else if op = 0x00 ∧ funct = 0x0D then ⟨.trap, 0, 0⟩
  else if raw = 0x42000010 then ⟨.rfe, 0, 0⟩
  else ⟨.normal, 0, 0⟩

/-- `StrictTranslator::translate(..).supported` -/
def translates (raw : Word) : Bool :=
  let op := opField raw
  let rs := rsField raw
  if op = 0x00 then
    functField raw ∈ ([0x00, 0x02, 0x03, 0x04, 0x06, 0x07, 0x08, 0x09, 0x0C, 0x0D, 0x10, 0x11, 0x12, 0x13,
      0x18, 0x19, 0x1A, 0x1B, 0x20, 0x21, 0x22, 0x23, 0x24, 0x25, 0x26, 0x27, 0x2A, 0x2B] : List (BitVec 6))
  else if op = 0x01 then rtField raw = 0x00 ∨ rtField raw = 0x01
  else if op = 0x10 then raw = 0x42000010 ∨ rs = 0x00 ∨ rs = 0x04
  else if op = 0x12 then rs = 0x00 ∨ rs = 0x02 ∨ rs = 0x04 ∨ rs = 0x06 ∨ 0x10 ≤ rs
  else op ∈ ([0x02, 0x03, 0x04, 0x05, 0x06, 0x07, 0x08, 0x09, 0x0A, 0x0B, 0x0C, 0x0D, 0x0E, 0x0F,
      0x20, 0x21, 0x22, 0x23, 0x24, 0x25, 0x26, 0x28, 0x29, 0x2A, 0x2B, 0x2E, 0x32, 0x3A] : List (BitVec 6))

/-- The kinds behind which a delay slot is visited. -/
def CFKind.hasSlot : CFKind → Bool
  | .condBranch | .jump | .call | .jrRa | .jrIndirect | .jalr => true
  | .normal | .syscall | .trap | .rfe => false

/-! ## Jump tables -/

/-- The locals of the backward scan from a `jr`; `addends` holds the two operands of the `addu` with
the immediates added to them. -/
structure TableScan where
  lwBase : Option Reg
  lwOff : Word
  ac : Option (Reg × Reg)
  fa : Bool × Bool
  av : Word × Word
  lui : Option Word
  count : Word

def TableScan.start : TableScan :=
  { lwBase := none, lwOff := 0, ac := none, fa := (false, false), av := (0, 0), lui := none, count := 0 }

/-- The clause of an `addiu`: the first operand that it adds to and that has no addend yet. -/
def TableScan.addend (s : TableScan) (rs rt : Reg) (imm : Word) : TableScan :=
  match s.ac with
  | none => s
  | some (a, b) =>
    if s.fa.1 = false ∧ rs = a ∧ rt = a then { s with av := (imm, s.av.2), fa := (true, s.fa.2) }
    else if s.fa.2 = false ∧ rs = b ∧ rt = b then { s with av := (s.av.1, imm), fa := (s.fa.1, true) }
    else s

/-- The clause of a `lui`: the operand that it loads, whose addend moves to the front. -/
def TableScan.upper (s : TableScan) (rt : Reg) (value : Word) : TableScan :=
  match s.ac with
  | none => s
  | some (a, b) =>
    if rt = a then
      { s with lui := some value, av := (if s.fa.1 then s.av.1 else 0, s.av.2) }
    else if rt = b then
      { s with lui := some value, av := (if s.fa.2 then s.av.2 else 0, if s.fa.2 then s.av.2 else 0)
               fa := (s.fa.2, s.fa.2) }
    else s

/-- One word of the scan: the scan goes on, or is complete. -/
def TableScan.step (jrRs : Reg) (s : TableScan) (si : Word) : TableScan × Bool :=
  let op := opField si
  if op = 0x23 ∧ rtField si = jrRs ∧ s.lwBase = none then
    ({ s with lwBase := some (rsField si), lwOff := simm16Field si }, false)
  else if op = 0x00 ∧ functField si = 0x21 ∧ s.lwBase = some (rdField si) ∧ s.ac = none then
    ({ s with ac := some (rsField si, rtField si) }, false)
  else if op = 0x09 ∧ s.ac ≠ none then (s.addend (rsField si) (rtField si) (simm16Field si), false)
  else if op = 0x0F ∧ s.ac ≠ none ∧ s.lui = none then
    (s.upper (rtField si) (imm16Field si <<< 16), false)
  else if op = 0x0B ∧ s.count = 0 then ({ s with count := imm16Field si }, false)
  else (s, s.lui ≠ none ∧ s.count ≠ 0)

section Walk
variable (rom : Rom) (model : BiosAddressModel) (entry hardCap : Word)

def inBounds (addr : Word) : Bool := inRom addr ∧ entry ≤ addr ∧ addr < hardCap

/-- The loop over `b`, with the words that are left. -/
def scanBack (addr : Word) (jrRs : Reg) : ℕ → Word → TableScan → Option TableScan
  | 0, _, s => some s
  | n + 1, b, s =>
    let sa := addr - b * 4
    if sa < entry then some s
    else if inBounds entry hardCap sa = false then some s
    else match fetch rom sa with
      | none => none
      | some si =>
        let r := s.step jrRs si
        if r.2 then some r.1 else scanBack addr jrRs n (b + 1) r.1

/-- The loop over the entries of a table. -/
def tableEntries (romTb : Word) : ℕ → Word → Option (List Word)
  | 0, _ => some []
  | n + 1, i =>
    let taddr := romTb + i * 4
    if inBounds entry hardCap taddr = false then tableEntries romTb n (i + 1)
    else match fetch rom taddr with
      | none => none
      | some tval =>
        let target := model.ramAliasToRom tval
        (tableEntries romTb n (i + 1)).map fun rest =>
          if inBounds entry hardCap target then target :: rest else rest

/-- What an indirect `jr` pushes. -/
def tablePushes (addr : Word) (jrRs : Reg) : Option (List Word) :=
  match scanBack rom entry hardCap addr jrRs 40 1 .start with
  | none => none
  | some s =>
    match s.lui with
    | none => some []
    | some lui =>
      if 0 < s.count ∧ s.count < 512 then
        let tb := lui + (if s.fa.1 then s.av.1 else 0) + s.lwOff
        let romTb := model.ramAliasToRom tb
        let afterDelay := addr + 8
        (tableEntries rom model entry hardCap romTb s.count.toNat 0).map fun targets =>
          targets ++ if inBounds entry hardCap afterDelay ∧ afterDelay ≠ romTb then [afterDelay] else []
      else some []

/-! ## The walk -/

/-- The control flow of the instruction at an address, where there is one and it translates. -/
def flowAt (addr : Word) : Option CFInfo :=
  match fetch rom addr with
  | none => none
  | some raw => if translates raw then some (classifyControlFlow model raw addr) else none

/-- The delay slot of an address. -/
def slotOf (addr : Word) : List Word :=
  match flowAt rom model addr with
  | none => []
  | some cf => if cf.kind.hasSlot then [addr + 4] else []

/-- What the walk pushes behind an address; `none` is a read out of range. -/
def pushes (addr : Word) : Option (List Word) :=
  match flowAt rom model addr with
  | none => some []
  | some cf =>
    match cf.kind with
    | .normal | .syscall | .trap => some [addr + 4]
    | .condBranch => some [addr + 8, cf.target]
    | .jump => some [cf.target]
    | .call | .jalr => some [addr + 8]
    | .jrIndirect => tablePushes rom model entry hardCap addr cf.reg
    | .jrRa | .rfe => some []

def walkSearch : Search Word where
  allow := inBounds entry hardCap
  mark := fun addr => (slotOf rom model addr).filter (inBounds entry hardCap)
  next := fun addr => (pushes rom model entry hardCap addr).getD []

/-- `SingleFunctionResult`: `instructions` holds every address visited, `entered` those that were
walked from, in their order. -/
structure Walked where
  instructions : Finset Word
  entered : List Word
  callees : List Word
  escapingTargets : List Word

def calleeAt (addr : Word) : Option Word :=
  (flowAt rom model addr).bind fun cf => if cf.kind = .call then some cf.target else none

/-- A branch or jump target outside the walk but inside the ROM. -/
def escapeAt (addr : Word) : Option Word :=
  (flowAt rom model addr).bind fun cf =>
    if (cf.kind = .condBranch ∨ cf.kind = .jump) ∧ cf.target ≠ 0 ∧
        inBounds entry hardCap cf.target = false ∧ inRom cf.target then some cf.target
    else none

@[irreducible] def walkFunction : Except Failure Walked :=
  let t := (walkSearch rom model entry hardCap).from entry
  if (t.seen.filter fun a => fetch rom a = none) = ∅ ∧
      t.entered.all fun a => (pushes rom model entry hardCap a).isSome then
    .ok
      { instructions := t.seen
        entered := t.entered
        callees := t.entered.filterMap (calleeAt rom model)
        escapingTargets := t.entered.filterMap (escapeAt rom model entry hardCap) }
  else .error .readOutOfRange

end Walk

section Discover
variable (rom : Rom) (model : BiosAddressModel)

/-- `known_entries.upper_bound(entry)`, or the end of the ROM. -/
def capAfter (known : Finset Word) (entry : Word) : Word :=
  nextAfter (romEnd + 1) known entry

/-- The loop over the edges of a walk: the entries known then, and those put on the worklist. -/
def addCallees : List Word → Finset Word → Finset Word × List Word
  | [], known => (known, [])
  | callee :: rest, known =>
    if inRom callee ∧ callee ∉ known then
      let r := addCallees rest (insert callee known)
      (r.1, callee :: r.2)
    else addCallees rest known

theorem first_done_smaller {entry : Word} {done : Finset Word} (h : entry ∉ done) :
    (Finset.univ \ insert entry done).card < (Finset.univ \ done).card := by
  apply Finset.card_lt_card
  constructor
  · intro b hb
    simp only [Finset.mem_sdiff, Finset.mem_univ, true_and, Finset.mem_insert, not_or] at hb ⊢
    exact hb.2
  · intro hsub
    have hmem := hsub (Finset.mem_sdiff.mpr ⟨Finset.mem_univ entry, h⟩)
    simp at hmem

/-- The first pass: every entry on the worklist is walked once, with the cap of that moment. -/
def firstPass : List Word → Finset Word → Finset Word → Except Failure (Finset Word)
  | [], known, _ => .ok known
  | entry :: work, known, done =>
    if entry ∈ done then firstPass work known done
    else
      match walkFunction rom model entry (capAfter known entry) with
      | .error e => .error e
      | .ok w =>
        let r := addCallees w.callees known
        firstPass (work ++ r.2) r.1 (insert entry done)
termination_by work _ done => ((Finset.univ \ done).card, work.length)
decreasing_by
  · exact Prod.Lex.right _ (Nat.lt_succ_self _)
  · exact Prod.Lex.left _ _ (first_done_smaller (by assumption))

/-- The second pass over the sorted entries: a walk of each up to the next. -/
def secondPass : List Word → Finset Word → Except Failure (List (Word × Walked))
  | [], _ => .ok []
  | entry :: rest, normalized =>
    match walkFunction rom model entry (rest.head?.getD (romEnd + 1)) with
    | .error e => .error e
    | .ok w =>
      if model.normalize entry ∈ normalized then .error .duplicateNormalized
      else (secondPass rest (insert (model.normalize entry) normalized)).map ((entry, w) :: ·)

/-- `DiscoveryResult`: the entries with their walks, by address. -/
structure DiscoveryResult where
  functions : List (Word × Walked)

end Discover

namespace DiscoveryResult

def entries (d : DiscoveryResult) : List Word := d.functions.map Prod.fst

/-- The union of the instruction sets. -/
def Walks (d : DiscoveryResult) (addr : Word) : Prop := ∃ p ∈ d.functions, addr ∈ p.2.instructions

end DiscoveryResult

end PsxRecomp.Discovery
