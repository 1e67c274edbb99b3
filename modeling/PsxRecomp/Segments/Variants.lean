import Mathlib
import PsxRecomp.Library.Saturation
import PsxRecomp.Library.WordSet

/-! The compiled variants of the home functions in other segments: which functions a variant of a
segment needs, and where they stand in it. Of a function, a block and an executable only what the
plan reads or moves is modelled. -/
namespace PsxRecomp.Segments
open Saturation
set_option autoImplicit false

/-! ## Addresses -/

abbrev Addr := BitVec 32

def kSegmentMask : Addr := 0xE0000000
def kPhysMask : Addr := 0x1FFFFFFF
def kSegKSEG0 : Addr := 0x80000000
def kSegKSEG1 : Addr := 0xA0000000

def segmentOf (pc : Addr) : Addr := pc &&& kSegmentMask
def physOf (pc : Addr) : Addr := pc &&& kPhysMask

/-- `maps_physical` -/
def mapsPhysical (pc : Addr) : Bool :=
  pc < 0x20000000 || segmentOf pc == kSegKSEG0 || segmentOf pc == kSegKSEG1

/-- `{:08X}` -/
def hex8 (a : Addr) : String := a.toHex.toUpper

structure PS1Executable where
  loadAddress : Addr

def PS1Executable.linkSegment (exe : PS1Executable) : Addr := segmentOf exe.loadAddress

/-! ## Functions and their direct edges -/

structure Function where
  startAddr : Addr
  endAddr : Addr
  name : String
  aliasWalkLo : Addr
  aliasGroupEntries : List Addr
  producerLo : Addr
  producerHi : Addr
deriving DecidableEq

inductive ControlFlowType
  | none
  | branch
  | jump
  | jumpLink
  | jumpRegister
  | jumpLinkReg
  | ret
deriving DecidableEq

structure ControlFlowInstr where
  address : Addr
  type : ControlFlowType
  target : Addr

structure BasicBlock where
  endAddr : Addr
  exitInstr : ControlFlowInstr
  successors : List Addr

structure ControlFlowGraph where
  blocks : List (Addr × BasicBlock)

def ControlFlowGraph.hasBlock (cfg : ControlFlowGraph) (addr : Addr) : Bool :=
  cfg.blocks.any fun b => b.1 == addr

/-- Where the exit of a block goes without going through dispatch. -/
def exitTargets (block : BasicBlock) : List Addr :=
  let x := block.exitInstr
  match x.type with
  | .branch => [x.target, x.address + 8]
  | .jump => [x.target]
  | .jumpLink => [x.target, x.address + 8]
  | .jumpLinkReg => [x.address + 8]
  | .none => if block.successors.isEmpty then [block.endAddr + 4] else []
  | .jumpRegister => []
  | .ret => []

/-- `direct_successors`; the address 0 is an unknown target. -/
def directSuccessors (cfg : ControlFlowGraph) : List Addr :=
  ((cfg.blocks.flatMap fun b => exitTargets b.2).filter
    fun target => target ≠ 0 ∧ cfg.hasBlock target = false).toFinset.sort

/-! ## The plan -/

/-- `at` of `rebase_function` -/
def rebaseAddr (seg a : Addr) : Addr := if a = 0 then 0 else seg ||| physOf a

def rebaseFunction (f : Function) (seg : Addr) : Function where
  startAddr := rebaseAddr seg f.startAddr
  endAddr := seg ||| physOf f.endAddr
  name := "func_" ++ hex8 (rebaseAddr seg f.startAddr)
  aliasWalkLo := rebaseAddr seg f.aliasWalkLo
  aliasGroupEntries := f.aliasGroupEntries.map (rebaseAddr seg)
  producerLo := rebaseAddr seg f.producerLo
  producerHi := rebaseAddr seg f.producerHi

structure SegmentVariantPlan where
  segment : Addr
  functions : List Function
  seeds : List Addr
  unplaced : List (Addr × String)

/-- The home compile: its functions, and by address its graphs and the owners of its CPS
continuations. -/
structure HomeCompile where
  exe : PS1Executable
  functions : List Function
  cfgs : Addr → Option ControlFlowGraph
  continuations : Addr → Option Addr

variable (home : HomeCompile)

/-- `by_start`: of two functions with one start the first. -/
def byStart (start : Addr) : Option Function := home.functions.find? fun f => f.startAddr = start

/-- `alias_groups` -/
def aliasGroup (host : Addr) : List Addr :=
  (home.functions.filter fun f => f.aliasWalkLo = host).map Function.startAddr

def homeOf (pc : Addr) : Addr := home.exe.linkSegment ||| physOf pc

/-- The root a seed asks for, 0 when there is none. -/
def rootOf (pc : Addr) : Addr :=
  if (byStart home (homeOf home pc)).isSome then homeOf home pc
  else match home.continuations (homeOf home pc) with
    | some owner => if (byStart home owner).isSome then owner else 0
    | none => 0

def notMapped (seg homePc : Addr) : String :=
  "segment 0x" ++ hex8 seg ++ " does not map physical memory (only KUSEG below " ++
    "0x20000000, KSEG0 and KSEG1 do), so it is no alias of the home PC 0x" ++ hex8 homePc

def noEntry (homePc : Addr) : String :=
  "its home PC 0x" ++ hex8 homePc ++ " is not a dispatch entry of the home compile " ++
    "(no function starts there and it is no CPS continuation)"

/-- `plans` and `roots`, with the segments that have an entry. -/
structure Planning where
  segments : Finset Addr
  plans : Addr → SegmentVariantPlan
  roots : Addr → Finset Addr

def Planning.start : Planning := ⟨∅, fun seg => ⟨seg, [], [], []⟩, fun _ => ∅⟩

/-- One seed of the first loop. -/
def planSeed (p : Planning) (pc : Addr) : Planning :=
  let seg := segmentOf pc
  let plan := { p.plans seg with segment := seg, seeds := (p.plans seg).seeds ++ [pc] }
  let segments := insert seg p.segments
  if !mapsPhysical pc then
    { p with
      segments := segments
      plans := Function.update p.plans seg
        { plan with unplaced := plan.unplaced ++ [(pc, notMapped seg (homeOf home pc))] } }
  else if rootOf home pc = 0 then
    { p with
      segments := segments
      plans := Function.update p.plans seg
        { plan with unplaced := plan.unplaced ++ [(pc, noEntry (homeOf home pc))] } }
  else
    { segments := segments
      plans := Function.update p.plans seg plan
      roots := Function.update p.roots seg (insert (rootOf home pc) (p.roots seg)) }

/-- What a function taken in puts on the work list, the last one first. -/
def workOf (start : Addr) : List Addr :=
  match byStart home start with
  | none => []
  | some f =>
    let members := if f.aliasWalkLo ≠ 0 then aliasGroup home f.aliasWalkLo else []
    let succs := match home.cfgs start with
      | none => []
      | some cfg => (directSuccessors cfg).filter fun succ => (byStart home succ).isSome
    (members ++ succs).reverse

/-- `included` at the end of the work list. -/
def included (roots : Finset Addr) : Finset Addr := saturate (workOf home) roots.sort.reverse ∅

/-- One segment of the second loop. -/
def planFunctions (seg : Addr) (roots : Finset Addr) : List Function :=
  ((included home roots).sort.filterMap fun start =>
    (byStart home start).map fun f => rebaseFunction f seg).mergeSort
      fun a b => decide (a.startAddr ≤ b.startAddr)

/-- `plan_segment_variants` -/
def planSegmentVariants (seeds : List Addr) : List SegmentVariantPlan :=
  let p := seeds.foldl (planSeed home) Planning.start
  p.segments.sort.map fun seg =>
    { p.plans seg with functions := planFunctions home seg (p.roots seg) }

/-! ## Seeds -/

/-- The root of a seed that is placed. -/
def placedRoot (pc : Addr) : Option Addr :=
  if mapsPhysical pc && rootOf home pc != 0 then some (rootOf home pc) else none

/-- The entry of a seed that is not. -/
def unplacedEntry (pc : Addr) : Option (Addr × String) :=
  if !mapsPhysical pc then some (pc, notMapped (segmentOf pc) (homeOf home pc))
  else if rootOf home pc = 0 then some (pc, noEntry (homeOf home pc))
  else none

theorem unplaced_iff (pc : Addr) :
    (unplacedEntry home pc).isSome ↔ placedRoot home pc = none := by
  unfold unplacedEntry placedRoot
  cases mapsPhysical pc with
  | false => simp
  | true =>
    by_cases hzero : rootOf home pc = 0
    · simp [hzero]
    · rw [if_neg (by decide), if_neg hzero, Bool.true_and, if_pos (bne_iff_ne.2 hzero)]
      simp

theorem unplacedEntry_fst {pc : Addr} {entry : Addr × String}
    (h : unplacedEntry home pc = some entry) : entry.1 = pc := by
  unfold unplacedEntry at h
  split at h
  · obtain rfl := Option.some.inj h
    rfl
  · split at h
    · obtain rfl := Option.some.inj h
      rfl
    · exact absurd h (by simp)

/-- The home entry a seed asks for: the function at its home address, else the function that owns
that address as a continuation. -/
def RootOf (pc root : Addr) : Prop :=
  mapsPhysical pc ∧ root ≠ 0 ∧ (byStart home root).isSome ∧
    (root = homeOf home pc ∨
      byStart home (homeOf home pc) = none ∧ home.continuations (homeOf home pc) = some root)

theorem placedRoot_iff (pc root : Addr) : placedRoot home pc = some root ↔ RootOf home pc root := by
  have hplaced : placedRoot home pc = some root ↔
      mapsPhysical pc ∧ root ≠ 0 ∧ rootOf home pc = root := by
    rw [placedRoot, Option.ite_none_right_eq_some, Bool.and_eq_true, Option.some_inj,
      bne_iff_ne, and_assoc]
    constructor
    · rintro ⟨hmaps, hne, rfl⟩
      exact ⟨hmaps, hne, rfl⟩
    · rintro ⟨hmaps, hne, rfl⟩
      exact ⟨hmaps, hne, rfl⟩
  rw [hplaced, RootOf]
  refine and_congr_right fun _ => and_congr_right fun hne => ?_
  unfold rootOf
  cases hhome : byStart home (homeOf home pc) with
  | some f =>
    rw [if_pos Option.isSome_some]
    constructor
    · rintro rfl
      exact ⟨by rw [hhome]; rfl, Or.inl rfl⟩
    · rintro ⟨-, rfl | ⟨hnone, -⟩⟩
      · rfl
      · exact absurd hnone (by simp)
  | none =>
    rw [if_neg (by simp)]
    constructor
    · intro h
      cases hcont : home.continuations (homeOf home pc) with
      | none =>
        rw [hcont] at h
        exact absurd h.symm hne
      | some owner =>
        simp only [hcont] at h
        by_cases howner : (byStart home owner).isSome
        · rw [if_pos howner] at h
          subst h
          exact ⟨howner, Or.inr ⟨rfl, rfl⟩⟩
        · rw [if_neg howner] at h
          exact absurd h.symm hne
    · rintro ⟨hstart, rfl | ⟨-, hcont⟩⟩
      · rw [hhome] at hstart
        exact absurd hstart (by simp)
      · rw [hcont]
        exact if_pos hstart

def seedsIn (seeds : List Addr) (seg : Addr) : List Addr := seeds.filter fun pc => segmentOf pc = seg

/-- The state of the first loop after some seeds. -/
structure PlannedFor (seeds : List Addr) (p : Planning) : Prop where
  segments : p.segments = (seeds.map segmentOf).toFinset
  plans : ∀ seg, p.plans seg =
    ⟨seg, [], seedsIn seeds seg, (seedsIn seeds seg).filterMap (unplacedEntry home)⟩
  roots : ∀ seg, p.roots seg = ((seedsIn seeds seg).filterMap (placedRoot home)).toFinset

theorem seedsIn_snoc (seeds : List Addr) (pc seg : Addr) :
    seedsIn (seeds ++ [pc]) seg =
      seedsIn seeds seg ++ if segmentOf pc = seg then [pc] else [] := by
  unfold seedsIn
  rw [List.filter_append]
  by_cases h : segmentOf pc = seg
  · simp [h]
  · simp [h]

theorem PlannedFor.seed {seeds : List Addr} {p : Planning} (h : PlannedFor home seeds p)
    (pc : Addr) : PlannedFor home (seeds ++ [pc]) (planSeed home p pc) := by
  have hsegments : insert (segmentOf pc) p.segments = ((seeds ++ [pc]).map segmentOf).toFinset := by
    ext seg
    simp [h.segments, eq_comm]
  have hother : ∀ seg, seg ≠ segmentOf pc → seedsIn (seeds ++ [pc]) seg = seedsIn seeds seg :=
    fun seg hne => by rw [seedsIn_snoc, if_neg (Ne.symm hne), List.append_nil]
  have hsame : seedsIn (seeds ++ [pc]) (segmentOf pc) = seedsIn seeds (segmentOf pc) ++ [pc] := by
    rw [seedsIn_snoc, if_pos rfl]
  refine ⟨?_, fun seg => ?_, fun seg => ?_⟩
  · unfold planSeed
    dsimp only
    split_ifs <;> exact hsegments
  · by_cases hseg : seg = segmentOf pc
    · subst hseg
      rw [hsame]
      unfold planSeed
      dsimp only
      split_ifs with hmaps hzero <;> simp_all [h.plans, unplacedEntry]
    · have hplans : (planSeed home p pc).plans seg = p.plans seg := by
        unfold planSeed
        dsimp only
        split_ifs <;> exact Function.update_of_ne hseg _ _
      rw [hplans, h.plans, hother seg hseg]
  · by_cases hseg : seg = segmentOf pc
    · subst hseg
      rw [hsame]
      unfold planSeed
      dsimp only
      split_ifs with hmaps hzero
      · simp_all [h.roots, placedRoot]
      · simp_all [h.roots, placedRoot]
      · have hroot : placedRoot home pc = some (rootOf home pc) := by simp_all [placedRoot]
        ext root
        simp [h.roots, hroot, eq_comm]
    · have hroots : (planSeed home p pc).roots seg = p.roots seg := by
        unfold planSeed
        dsimp only
        split_ifs
        · rfl
        · rfl
        · exact Function.update_of_ne hseg _ _
      rw [hroots, h.roots, hother seg hseg]

theorem planned (seeds : List Addr) :
    PlannedFor home seeds (seeds.foldl (planSeed home) Planning.start) := by
  induction seeds using List.reverseRecOn with
  | nil => exact ⟨rfl, fun seg => rfl, fun seg => rfl⟩
  | append_singleton seeds pc ih =>
    rw [List.foldl_append]
    exact ih.seed home pc

/-! ## Functions -/

/-- `s` takes in the roots of the seeds, with each function the alias group of its host, and the
functions that start where a direct transfer leaves a member. -/
structure TakesIn (seeds : List Addr) (s : Finset Addr) : Prop where
  roots : ∀ pc ∈ seeds, ∀ root, RootOf home pc root → root ∈ s
  members : ∀ start ∈ s, ∀ f, byStart home start = some f → f.aliasWalkLo ≠ 0 →
    ∀ member ∈ home.functions, member.aliasWalkLo = f.aliasWalkLo → member.startAddr ∈ s
  successors : ∀ start ∈ s, ∀ cfg, home.cfgs start = some cfg →
    ∀ succ ∈ directSuccessors cfg, (byStart home succ).isSome → succ ∈ s

theorem byStart_isSome {f : Function} (h : f ∈ home.functions) :
    (byStart home f.startAddr).isSome := by
  rw [byStart, List.find?_isSome]
  exact ⟨f, h, by simp⟩

theorem mem_workOf (start succ : Addr) :
    succ ∈ workOf home start ↔ ∃ f, byStart home start = some f ∧
      ((f.aliasWalkLo ≠ 0 ∧
          ∃ member ∈ home.functions, member.aliasWalkLo = f.aliasWalkLo ∧ member.startAddr = succ) ∨
        ∃ cfg, home.cfgs start = some cfg ∧ succ ∈ directSuccessors cfg ∧
          (byStart home succ).isSome) := by
  unfold workOf
  cases hf : byStart home start with
  | none => simp
  | some f =>
    have hmembers : succ ∈ (if f.aliasWalkLo ≠ 0 then aliasGroup home f.aliasWalkLo else []) ↔
        f.aliasWalkLo ≠ 0 ∧ ∃ member ∈ home.functions,
          member.aliasWalkLo = f.aliasWalkLo ∧ member.startAddr = succ := by
      by_cases hlo : f.aliasWalkLo = 0
      · simp [hlo]
      · rw [if_pos hlo]
        simp only [aliasGroup, List.mem_map, List.mem_filter, decide_eq_true_eq, and_assoc, ne_eq,
          hlo, not_false_eq_true, true_and]
    have hsuccs : (succ ∈ match home.cfgs start with
        | none => []
        | some cfg => (directSuccessors cfg).filter fun succ => (byStart home succ).isSome) ↔
        ∃ cfg, home.cfgs start = some cfg ∧ succ ∈ directSuccessors cfg ∧
          (byStart home succ).isSome := by
      cases home.cfgs start with
      | none => simp
      | some cfg => simp
    simp only [List.mem_reverse, List.mem_append, hmembers, hsuccs, Option.some.injEq,
      exists_eq_left']

/-- Everything taken in starts a home function, so the lookups of the second loop find one. -/
theorem work_started (start : Addr) : ∀ succ ∈ workOf home start, (byStart home succ).isSome := by
  intro succ hsucc
  obtain ⟨f, -, ⟨-, member, hmem, -, rfl⟩ | ⟨cfg, -, -, hstart⟩⟩ := (mem_workOf home start succ).1 hsucc
  · exact byStart_isSome home hmem
  · exact hstart

theorem TakesIn.closed {seeds : List Addr} {s : Finset Addr} (h : TakesIn home seeds s) :
    Closed (workOf home) s := by
  intro start hstart succ hsucc
  obtain ⟨f, hf, ⟨hlo, member, hmem, hhost, rfl⟩ | ⟨cfg, hcfg, hdirect, hhome⟩⟩ :=
    (mem_workOf home start succ).1 hsucc
  · exact h.members start hstart f hf hlo member hmem hhost
  · exact h.successors start hstart cfg hcfg succ hdirect hhome

theorem TakesIn.of_closed {seeds : List Addr} {s : Finset Addr}
    (hroots : ∀ pc ∈ seeds, ∀ root, RootOf home pc root → root ∈ s)
    (hstarted : ∀ start ∈ s, (byStart home start).isSome) (h : Closed (workOf home) s) :
    TakesIn home seeds s := by
  refine ⟨hroots, fun start hstart f hf hlo member hmem hhost => ?_,
    fun start hstart cfg hcfg succ hdirect hhome => ?_⟩
  · exact h start hstart _
      ((mem_workOf home start _).2 ⟨f, hf, Or.inl ⟨hlo, member, hmem, hhost, rfl⟩⟩)
  · obtain ⟨f, hf⟩ := Option.isSome_iff_exists.1 (hstarted start hstart)
    exact h start hstart _
      ((mem_workOf home start _).2 ⟨f, hf, Or.inr ⟨cfg, hcfg, hdirect, hhome⟩⟩)

/-- The work list stays among the home functions. -/
theorem included_started (roots : Finset Addr) (h : ∀ root ∈ roots, (byStart home root).isSome) :
    ∀ start ∈ included home roots, (byStart home start).isSome := by
  have hleast := (saturate_isLeast (workOf home) roots.sort.reverse).2
  let started : Finset Addr := (home.functions.map Function.startAddr).toFinset
  have hmem : ∀ start, start ∈ started ↔ (byStart home start).isSome := by
    intro start
    rw [byStart, List.find?_isSome]
    simp [started]
  have hsub : included home roots ⊆ started := hleast
    ⟨fun root hroot => (hmem root).2 (h root (by simpa using hroot)),
      fun start _ succ hsucc => (hmem succ).2 (work_started home start succ hsucc)⟩
  exact fun start hstart => (hmem start).1 (hsub hstart)

/-- The roots of some seeds. -/
def rootsOf (seeds : List Addr) : Finset Addr := (seeds.filterMap (placedRoot home)).toFinset

theorem mem_rootsOf (seeds : List Addr) (root : Addr) :
    root ∈ rootsOf home seeds ↔ ∃ pc ∈ seeds, RootOf home pc root := by
  simp only [rootsOf, List.mem_toFinset, List.mem_filterMap, placedRoot_iff]

theorem rootsOf_started (seeds : List Addr) :
    ∀ root ∈ rootsOf home seeds, (byStart home root).isSome := by
  intro root hroot
  obtain ⟨pc, -, hplaced⟩ := (mem_rootsOf home seeds root).1 hroot
  exact hplaced.2.2.1

theorem included_isLeast (seeds : List Addr) :
    IsLeast {s | TakesIn home seeds s} (included home (rootsOf home seeds)) := by
  obtain ⟨⟨hroots, hclosed⟩, hleast⟩ :=
    saturate_isLeast (workOf home) (rootsOf home seeds).sort.reverse
  have hmem : ∀ root, root ∈ (rootsOf home seeds).sort.reverse ↔
      ∃ pc ∈ seeds, RootOf home pc root := fun root => by
    rw [List.mem_reverse, Finset.mem_sort, mem_rootsOf]
  constructor
  · exact TakesIn.of_closed home (fun pc hpc root hroot => hroots root ((hmem root).2 ⟨pc, hpc, hroot⟩))
      (included_started home _ (rootsOf_started home seeds)) hclosed
  · refine fun s hs => hleast ⟨fun root hroot => ?_, hs.closed⟩
    obtain ⟨pc, hpc, hplaced⟩ := (hmem root).1 hroot
    exact hs.roots pc hpc root hplaced

/-! ## Segments -/

def planFor (seeds : List Addr) (seg : Addr) : SegmentVariantPlan where
  segment := seg
  functions := planFunctions home seg (rootsOf home (seedsIn seeds seg))
  seeds := seedsIn seeds seg
  unplaced := (seedsIn seeds seg).filterMap (unplacedEntry home)

theorem plans_eq (seeds : List Addr) :
    planSegmentVariants home seeds =
      (seeds.map segmentOf).toFinset.sort.map (planFor home seeds) := by
  have h := planned home seeds
  unfold planSegmentVariants
  simp only [h.segments, h.plans, h.roots]
  rfl

theorem mem_plans (seeds : List Addr) (plan : SegmentVariantPlan) :
    plan ∈ planSegmentVariants home seeds ↔
      ∃ pc ∈ seeds, plan = planFor home seeds (segmentOf pc) := by
  rw [plans_eq]
  simp [eq_comm]

theorem mem_seedsIn (seeds : List Addr) (seg pc : Addr) :
    pc ∈ seedsIn seeds seg ↔ pc ∈ seeds ∧ segmentOf pc = seg := by
  simp [seedsIn]

/-- A seed has one plan. -/
theorem seed_plan (seeds : List Addr) {pc : Addr} (h : pc ∈ seeds) :
    ∃! plan, plan ∈ planSegmentVariants home seeds ∧ pc ∈ plan.seeds := by
  refine ⟨planFor home seeds (segmentOf pc), ⟨(mem_plans home seeds _).2 ⟨pc, h, rfl⟩,
    (mem_seedsIn seeds _ pc).2 ⟨h, rfl⟩⟩, ?_⟩
  rintro plan ⟨hplan, hseed⟩
  obtain ⟨other, -, rfl⟩ := (mem_plans home seeds plan).1 hplan
  rw [((mem_seedsIn seeds _ pc).1 hseed).2]

/-- The seeds of a plan are unplaced, or have their root. -/
theorem seed_settled (seeds : List Addr) (seg : Addr) {pc : Addr}
    (h : pc ∈ (planFor home seeds seg).seeds) :
    ((¬∃ root, RootOf home pc root) ∧ ∃ reason, (pc, reason) ∈ (planFor home seeds seg).unplaced) ∨
      ∃ root, RootOf home pc root ∧ ∀ reason, (pc, reason) ∉ (planFor home seeds seg).unplaced := by
  cases hplaced : placedRoot home pc with
  | none =>
    obtain ⟨entry, hentry⟩ := Option.isSome_iff_exists.1 ((unplaced_iff home pc).2 hplaced)
    refine Or.inl ⟨fun ⟨root, hroot⟩ => ?_, entry.2, List.mem_filterMap.2 ⟨pc, h, ?_⟩⟩
    · rw [(placedRoot_iff home pc root).2 hroot] at hplaced
      exact absurd hplaced (by simp)
    · rw [hentry, ← unplacedEntry_fst home hentry]
  | some root =>
    refine Or.inr ⟨root, (placedRoot_iff home pc root).1 hplaced, fun reason hreason => ?_⟩
    obtain ⟨other, -, hentry⟩ := List.mem_filterMap.1 hreason
    obtain rfl : pc = other := unplacedEntry_fst home hentry
    have hnone := (unplaced_iff home pc).1 (by rw [hentry]; rfl)
    rw [hplaced] at hnone
    exact absurd hnone (by simp)

/-! ## Addresses of a variant -/

theorem physOf_rebase (seg a : Addr) :
    physOf (segmentOf seg ||| physOf a) = physOf a ∧
      segmentOf (segmentOf seg ||| physOf a) = segmentOf seg := by
  have hmasks : kSegmentMask = ~~~kPhysMask := by decide
  unfold physOf segmentOf
  rw [hmasks]
  generalize kPhysMask = mask
  constructor
  · ext i hi
    simp only [BitVec.getElem_and, BitVec.getElem_or, BitVec.getElem_not]
    cases seg[i] <;> cases a[i] <;> cases mask[i] <;> rfl
  · ext i hi
    simp only [BitVec.getElem_and, BitVec.getElem_or, BitVec.getElem_not]
    cases seg[i] <;> cases a[i] <;> cases mask[i] <;> rfl

/-- `moved` is `a` in the segment of `seg`; an address that is 0 stands for none. -/
def Rebased (seg a moved : Addr) : Prop :=
  physOf moved = physOf a ∧ (a = 0 ∧ moved = 0 ∨ segmentOf moved = segmentOf seg)

theorem rebaseAddr_rebased (seg a : Addr) : Rebased seg a (rebaseAddr (segmentOf seg) a) := by
  by_cases h : a = 0
  · subst h
    exact ⟨rfl, Or.inl ⟨rfl, rfl⟩⟩
  · rw [rebaseAddr, if_neg h]
    exact ⟨(physOf_rebase seg a).1, Or.inr (physOf_rebase seg a).2⟩

/-- The function `v` is `f` in the segment of `seg`. -/
structure Rebase (seg : Addr) (f v : Function) : Prop where
  start : Rebased seg f.startAddr v.startAddr
  finish : Rebased seg f.endAddr v.endAddr
  walkLo : Rebased seg f.aliasWalkLo v.aliasWalkLo
  entries : List.Forall₂ (Rebased seg) f.aliasGroupEntries v.aliasGroupEntries
  lo : Rebased seg f.producerLo v.producerLo
  hi : Rebased seg f.producerHi v.producerHi
  name : v.name = "func_" ++ hex8 v.startAddr

theorem rebaseFunction_rebase (f : Function) (seg : Addr) :
    Rebase seg f (rebaseFunction f (segmentOf seg)) where
  start := rebaseAddr_rebased seg _
  finish := ⟨(physOf_rebase seg _).1, Or.inr (physOf_rebase seg _).2⟩
  walkLo := rebaseAddr_rebased seg _
  entries := by
    show List.Forall₂ _ _ (f.aliasGroupEntries.map _)
    rw [List.forall₂_map_right_iff]
    exact List.forall₂_same.2 fun a _ => rebaseAddr_rebased seg a
  lo := rebaseAddr_rebased seg _
  hi := rebaseAddr_rebased seg _
  name := rfl

theorem segmentOf_segmentOf (pc : Addr) : segmentOf (segmentOf pc) = segmentOf pc := by
  unfold segmentOf
  rw [BitVec.and_assoc, BitVec.and_self]

/-- What the plan of a segment holds, with the start addresses `s` of its functions. -/
structure Planned (plan : SegmentVariantPlan) (s : Finset Addr) : Prop where
  settled : ∀ pc ∈ plan.seeds,
    ((¬∃ root, RootOf home pc root) ∧ ∃ reason, (pc, reason) ∈ plan.unplaced) ∨
      ∃ root ∈ s, RootOf home pc root ∧ ∀ reason, (pc, reason) ∉ plan.unplaced
  least : IsLeast {t | TakesIn home plan.seeds t} s
  started : ∀ start ∈ s, (byStart home start).isSome
  functions : ∃ variants : List Function, plan.functions.Perm variants ∧
    List.Forall₂ (fun start v => ∃ f, byStart home start = some f ∧ Rebase plan.segment f v)
      s.sort variants
  sorted : plan.functions.Pairwise fun a b => a.startAddr ≤ b.startAddr
  inside : ∀ start ∈ s, ∀ cfg, home.cfgs start = some cfg → ∀ block ∈ cfg.blocks,
    ∀ target ∈ exitTargets block.2, target ≠ 0 →
      cfg.hasBlock target ∨ target ∈ s ∨ ∀ f ∈ home.functions, f.startAddr ≠ target

theorem mem_directSuccessors {cfg : ControlFlowGraph} {block : Addr × BasicBlock}
    (hblock : block ∈ cfg.blocks) {target : Addr} (htarget : target ∈ exitTargets block.2)
    (hzero : target ≠ 0) (houtside : cfg.hasBlock target = false) :
    target ∈ directSuccessors cfg := by
  unfold directSuccessors
  rw [Finset.mem_sort, List.mem_toFinset, List.mem_filter]
  exact ⟨List.mem_flatMap.2 ⟨block, hblock, htarget⟩, by simpa using ⟨hzero, houtside⟩⟩

theorem variants_rebased (seg : Addr) (starts : List Addr)
    (h : ∀ start ∈ starts, (byStart home start).isSome) :
    List.Forall₂ (fun start v => ∃ f, byStart home start = some f ∧ Rebase (segmentOf seg) f v) starts
      (starts.filterMap fun start =>
        (byStart home start).map fun f => rebaseFunction f (segmentOf seg)) := by
  induction starts with
  | nil => exact List.Forall₂.nil
  | cons start starts ih =>
    obtain ⟨f, hf⟩ := Option.isSome_iff_exists.1 (h start List.mem_cons_self)
    rw [List.filterMap_cons_some (by rw [hf, Option.map_some])]
    refine List.Forall₂.cons ⟨f, hf, ?_⟩ (ih fun other hother =>
      h other (List.mem_cons_of_mem _ hother))
    have hrebase := rebaseFunction_rebase f (segmentOf seg)
    rwa [segmentOf_segmentOf] at hrebase

theorem planFor_planned (seeds : List Addr) (pc : Addr) :
    Planned home (planFor home seeds (segmentOf pc))
      (included home (rootsOf home (seedsIn seeds (segmentOf pc)))) := by
  have hleast := included_isLeast home (seedsIn seeds (segmentOf pc))
  have hstarted := included_started home _ (rootsOf_started home (seedsIn seeds (segmentOf pc)))
  constructor
  case settled =>
    intro seed hseed
    rcases seed_settled home seeds (segmentOf pc) hseed with h | ⟨root, hroot, hplaced⟩
    · exact Or.inl h
    · exact Or.inr ⟨root, hleast.1.roots seed hseed root hroot, hroot, hplaced⟩
  case least => exact hleast
  case started => exact hstarted
  case functions =>
    refine ⟨_, List.mergeSort_perm _ _, variants_rebased home pc _ fun start hstart => ?_⟩
    exact hstarted start ((Finset.mem_sort _).1 hstart)
  case sorted =>
    have hsorted : (planFor home seeds (segmentOf pc)).functions.Pairwise fun a b =>
        decide (a.startAddr ≤ b.startAddr) = true := by
      refine List.pairwise_mergeSort (fun a b c hab hbc => ?_) (fun a b => ?_) _
      · simp only [decide_eq_true_eq] at hab hbc ⊢
        exact le_trans hab hbc
      · simpa using le_total a.startAddr b.startAddr
    exact hsorted.imp fun h => of_decide_eq_true h
  case inside =>
    intro start hstart cfg hcfg block hblock target htarget hzero
    by_cases hinside : cfg.hasBlock target
    · exact Or.inl hinside
    · by_cases hhome : (byStart home target).isSome
      · have hdirect := mem_directSuccessors hblock htarget hzero (Bool.eq_false_iff.2 hinside)
        exact Or.inr (Or.inl (hleast.1.successors start hstart cfg hcfg target hdirect hhome))
      · refine Or.inr (Or.inr fun f hf hsame => hhome ?_)
        rw [← hsame]
        exact byStart_isSome home hf

/-- Each segment a seed names has one plan, each seed is in one plan, and what a plan holds is the
least set around the roots of its seeds that no direct transfer leaves for a home function. -/
theorem plan_segment_variants_closed (seeds : List Addr) :
    (planSegmentVariants home seeds).map SegmentVariantPlan.segment =
        (seeds.map segmentOf).toFinset.sort ∧
      (∀ pc ∈ seeds, ∃! plan, plan ∈ planSegmentVariants home seeds ∧ pc ∈ plan.seeds) ∧
      ∀ plan ∈ planSegmentVariants home seeds,
        plan.seeds = seedsIn seeds plan.segment ∧ ∃ s, Planned home plan s := by
  refine ⟨?_, fun pc hpc => seed_plan home seeds hpc, fun plan hplan => ?_⟩
  · rw [plans_eq, List.map_map]
    exact List.map_id _
  · obtain ⟨pc, -, rfl⟩ := (mem_plans home seeds plan).1 hplan
    exact ⟨rfl, _, planFor_planned home seeds pc⟩

end PsxRecomp.Segments
