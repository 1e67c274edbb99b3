import Mathlib
import PsxRecomp.Analysis.JumpTables
import PsxRecomp.Library.Worklist

/-! The walk of `analyze_exact_entries`, between an entry and its cap, and the partition of the image
into functions, in rounds over the callees that the walks prove. -/
namespace PsxRecomp.Analysis
open R3000 Worklist WordSet
set_option autoImplicit false

/-- The image with the ranges that producers own, and the targets that calls may cross to. -/
structure Query where
  img : Image
  producerRanges : List (Word × Word)
  crossCallAllow : Finset Word

section Walk
variable (q : Query) (entry hardCap : Word)

/-- `producer_for`, without -1. -/
def producerFor (addr : Word) : Option ℕ :=
  q.producerRanges.findIdx? fun r => r.1 ≤ addr ∧ addr < r.2

/-- Three words that all point into the image. -/
def densePointerTable (addr : Word) : Bool :=
  (List.range 3).all fun i =>
    (q.img.readWord (addr + BitVec.ofNat 32 (4 * i))).any fun value => value &&& 3 = 0 ∧ q.img.inExe value

def callableDirectJalTarget (source addr : Word) : Bool :=
  (q.img.readWord addr).any isValidMipsWord ∧ densePointerTable q addr = false ∧
    (q.producerRanges = [] ∨ (producerFor q source).any fun s =>
      (producerFor q addr).any fun t => s = t ∨ addr ∈ q.crossCallAllow)

/-- `in_function` -/
def inFunction (addr : Word) : Bool :=
  q.img.inExe addr ∧ entry ≤ addr ∧ addr < hardCap ∧
    (q.producerRanges = [] ∨ (producerFor q entry).isSome ∧ producerFor q addr = producerFor q entry)

/-- The bounds of table storage and case code. -/
def producerBounds : Word × Word :=
  match producerFor q entry with
  | some i => q.producerRanges.getD i (0, 0)
  | none => (q.img.load, q.img.analysisEnd)

def resolveTable (pc : Word) (reg : Reg) : Option ExactJumpTable :=
  resolveExactBoundedJumpTable q.img id entry hardCap pc reg (producerBounds q entry) <|>
    resolveComputedStrideJump q.img id entry hardCap pc reg <|>
      resolveSelfLimitedJumpTable q.img id entry hardCap pc reg

/-- The targets that a `jr` goes on with: a constant or a table that the function owns. -/
def jrTargets (pc : Word) (reg : Reg) : List Word :=
  match exactResolveConstantTransfer q.img entry pc reg with
  | some target => if inFunction q entry hardCap target then [target] else []
  | none =>
    match resolveTable q entry hardCap pc reg with
    | none => []
    | some table =>
      let targets := table.targets.map Prod.snd
      if targets.all (inFunction q entry hardCap) then targets else []

def kindAt (pc : Word) : Option ExactCfKind :=
  (q.img.readWord pc).map fun instr => (exactClassifyCf pc instr).kind

/-- What the walk pushes behind an instruction. -/
def pushes (pc : Word) : List Word :=
  match q.img.readWord pc with
  | none => []
  | some instr =>
    let cf := exactClassifyCf pc instr
    match cf.kind with
    | .normal => [pc + 4]
    | .branch => [pc + 8, cf.target]
    | .branchNever | .branchNeverLikely | .jal | .jalr => [pc + 8]
    | .jump => [cf.target]
    | .jrRa => []
    | .jrOther => jrTargets q entry hardCap pc (rsField instr)

/-- The kinds whose delay slot is visited with them. -/
def ExactCfKind.hasSlot : ExactCfKind → Bool
  | .normal | .branchNeverLikely => false
  | _ => true

def slotOf (pc : Word) : List Word :=
  if (kindAt q pc).any ExactCfKind.hasSlot then [pc + 4] else []

/-- The callees that an instruction proves. -/
def callsAt (pc : Word) : List Word :=
  match q.img.readWord pc with
  | none => []
  | some instr =>
    let cf := exactClassifyCf pc instr
    let proved (target : Word) : List Word :=
      if q.img.inExe target ∧ callableDirectJalTarget q pc target then [target] else []
    match cf.kind with
    | .jal => proved cf.target
    | .jalr =>
      match exactResolveConstantTransfer q.img entry pc (rsField instr) with
      | some target => proved target
      | none => []
    | .jrOther =>
      match exactResolveConstantTransfer q.img entry pc (rsField instr) with
      | some target => if inFunction q entry hardCap target then [] else proved target
      | none => []
    | _ => []

def walkSearch : Search Word where
  allow := fun pc => inFunction q entry hardCap pc && (q.img.readWord pc).isSome
  mark := fun pc => (slotOf q pc).filter (inFunction q entry hardCap)
  next := pushes q entry hardCap

/-- `ExactWalkResult`; `entered` are the instructions walked from, in their order. -/
structure ExactWalkResult where
  visited : Finset Word
  entered : List Word
  directJalTargets : List Word

@[irreducible] def walk : ExactWalkResult :=
  let t := (walkSearch q entry hardCap).from entry
  { visited := t.seen
    entered := t.entered
    directJalTargets := t.entered.flatMap (callsAt q entry hardCap) }

end Walk

/-- Each root with its cap: the next root, or the end. -/
def capped (stop : Word) : List Word → List (Word × Word)
  | [] => []
  | root :: rest => (root, rest.head?.getD stop) :: capped stop rest

section Analyze
variable (q : Query) (trusted : Finset Word)

/-! ## The no-split guard -/

/-- What the walk of a host reaches without a cap, or capped at its successor. -/
def reachOf (host : Word) (rest : List Word) : Finset Word :=
  (walk q host q.img.analysisEnd).visited ∪
    match rest.head? with
    | some next => (walk q host next).visited
    | none => ∅

/-- The loop over `blocked`: the run behind a host, cut at the first entry that the walk capped at its
end misses. -/
def shrinkRun (host : Word) (rest : List Word) (n : ℕ) : ℕ :=
  let inner := walk q host ((rest.drop n).head?.getD q.img.analysisEnd)
  let reached := ((rest.take n).takeWhile (· ∈ inner.visited)).length
  if _h : reached < n then shrinkRun host rest reached else n
termination_by n
decreasing_by exact _h

/-- The number of entries absorbed into a host. -/
def runLength (host : Word) (rest : List Word) : ℕ :=
  shrinkRun q host rest (rest.takeWhile fun a => a ∈ reachOf q host rest ∧ a ∉ trusted).length

/-- One pass over the roots: those kept, and whether any was absorbed. -/
def absorbPass : List Word → List Word × Bool
  | [] => ([], false)
  | host :: rest =>
    let n := runLength q trusted host rest
    let r := absorbPass (rest.drop n)
    (host :: r.1, n ≠ 0 || r.2)
termination_by roots => roots.length
decreasing_by simp

theorem shrinkRun_le (host : Word) (rest : List Word) (n : ℕ) : shrinkRun q host rest n ≤ n := by
  induction n using Nat.strong_induction_on with
  | _ n ih =>
    rw [shrinkRun]
    split
    · rename_i hlt
      exact (ih _ hlt).trans (le_of_lt hlt)
    · exact le_refl n

theorem runLength_le (host : Word) (rest : List Word) : runLength q trusted host rest ≤ rest.length :=
  (shrinkRun_le q host rest _).trans (List.takeWhile_prefix _).length_le

theorem absorbPass_le (roots : List Word) : (absorbPass q trusted roots).1.length ≤ roots.length ∧
    ((absorbPass q trusted roots).2 = true → (absorbPass q trusted roots).1.length < roots.length) := by
  induction roots using absorbPass.induct q trusted with
  | case1 => simp [absorbPass]
  | case2 host rest n ih =>
    rw [absorbPass]
    have hn := runLength_le q trusted host rest
    simp only [List.length_drop, n] at ih
    simp only [List.length_cons, Bool.or_eq_true, decide_eq_true_eq]
    refine ⟨by omega, fun h => ?_⟩
    rcases h with h | h
    · omega
    · have := ih.2 h
      omega

/-- Passes until nothing is absorbed. -/
def absorbSplitEntries (roots : List Word) : List Word :=
  if (absorbPass q trusted roots).2 = true then absorbSplitEntries (absorbPass q trusted roots).1
  else (absorbPass q trusted roots).1
termination_by roots.length
decreasing_by exact (absorbPass_le q trusted roots).2 (by assumption)

/-! ## Rounds -/

/-- Without the guard: a derived entry that the walk of the root before it reaches is no root. -/
def eraseOwned (explicit : Finset Word) (known : Finset Word) (target : Word) : Finset Word :=
  if target ∉ known ∨ target ∈ explicit then known
  else
    match (known.filter fun x => x < target).max with
    | none => known
    | some owner =>
      if target ∈ (walk q owner (nextAfter q.img.analysisEnd known target)).visited then known.erase target
      else known

/-- The direct callees of the walks of a partition. -/
def callTargets (known : Finset Word) : Finset Word :=
  ((capped q.img.analysisEnd known.sort).flatMap fun p => (walk q p.1 p.2).directJalTargets).toFinset

/-- The roots of the next round. -/
def ownedEntries (noSplitGuard : Bool) (explicit derived : Finset Word) : Finset Word :=
  if noSplitGuard then (absorbSplitEntries q trusted (explicit ∪ derived).sort).toFinset
  else derived.sort.foldl (eraseOwned q explicit) (explicit ∪ derived)

/-- The final partition, and whether it was fallen back to. -/
structure Partition where
  known : Finset Word
  fellBack : Bool

/-- The rounds left, with the states seen. -/
def rounds (noSplitGuard : Bool) (explicit : Finset Word) :
    ℕ → List (Finset Word × Finset Word) → Finset Word → Finset Word → Partition
  | 0, _, _, _ => { known := ownedEntries q trusted noSplitGuard explicit ∅, fellBack := true }
  | n + 1, seen, known, derived =>
    if (known, derived) ∈ seen then
      { known := ownedEntries q trusted noSplitGuard explicit ∅, fellBack := true }
    else
      let derived' := callTargets q known \ explicit
      let known' := ownedEntries q trusted noSplitGuard explicit derived'
      if known' = known ∧ derived' = derived then { known := known, fellBack := false }
      else rounds noSplitGuard explicit n ((known, derived) :: seen) known' derived'

/-- The entries that the analysis admits. -/
def admissible (entries : List Word) : Finset Word :=
  (entries.filter fun entry =>
    q.img.inExe entry ∧ (q.producerRanges = [] ∨ (producerFor q entry).isSome)).toFinset

end Analyze

end PsxRecomp.Analysis
