import PsxRecomp.Memory.RenderPass

/-! The kernel bless: which compiled BIOS bodies may run, the verdicts kept on them, and the stores,
restores, passes and BIOS switches that a verdict has to survive. -/
namespace PsxRecomp.Memory
open DataShards (Byte Word Cells Geometry Width)
set_option autoImplicit false

/-! ## Images -/

structure PatchRange where
  lo : Word
  hi : Word

/-- `PsxKernelBody`: a dispatch key and the extent of the function it belongs to. -/
structure Body where
  key : Word
  lo : Word
  hi : Word

/-- What the linked BIOS says of its kernel (`psx_bios_image`). The emitter writes the bodies in the
order of their keys, each a range of instruction words within the window, and the patch ranges sorted
and apart. -/
structure BiosImage where
  kblessRamLo : Word
  kblessRamHi : Word
  kblessRomOff : Word
  bodies : List Body
  patches : List PatchRange
  below : kblessRamHi ≤ 0x10000
  inWindow : ∀ b ∈ bodies, kblessRamLo ≤ b.lo ∧ b.lo < b.hi ∧ b.hi ≤ kblessRamHi
  keyInWindow : ∀ b ∈ bodies, kblessRamLo ≤ b.key ∧ b.key < kblessRamHi
  wordAligned : ∀ b ∈ bodies, b.lo.toNat % 4 = 0
  keysSorted : bodies.Pairwise fun b c => b.key < c.key
  patchesOrdered : ∀ p ∈ patches, p.lo ≤ p.hi
  patchesApart : patches.Pairwise fun p q => p.hi ≤ q.lo

/-- `memcmp` of a stretch of RAM with the ROM it was copied from. -/
def sameBytes (ram rom : Cells) (ramLo romOff pos hi : ℕ) : Bool :=
  (List.range (hi - pos)).all fun i => ram (pos + i) = rom (romOff + (pos - ramLo) + i)

/-- The loop of `psx_kernel_patch_cmp` and the comparison behind it. -/
def patchCmpFrom (ram rom : Cells) (ramLo romOff hi : ℕ) : List PatchRange → ℕ → Bool
  | [], pos => if pos < hi then sameBytes ram rom ramLo romOff pos hi else true
  | r :: rs, pos =>
    if ¬pos < hi then true
    else if r.hi.toNat ≤ pos then patchCmpFrom ram rom ramLo romOff hi rs pos
    else if hi ≤ r.lo.toNat then sameBytes ram rom ramLo romOff pos hi
    else if pos < r.lo.toNat ∧ sameBytes ram rom ramLo romOff pos r.lo.toNat = false then false
    else patchCmpFrom ram rom ramLo romOff hi rs (if hi < r.hi.toNat then hi else r.hi.toNat)

/-- `psx_kernel_patch_cmp`, true where it returns 0. -/
def kernelPatchCmp (ranges : List PatchRange) (ram rom : Cells) (ramLo romOff lo hi : ℕ) : Bool :=
  if hi ≤ lo then true else patchCmpFrom ram rom ramLo romOff hi ranges lo

/-! ## Verdicts -/

inductive Verdict where
  | unknown
  | clean
  | mismatch
  deriving DecidableEq

/-- `PSX_KERNEL_BLESS` and `PSX_KERNEL_PATCH_RANGES` -/
structure Env where
  kernelBless : Bool
  patchRanges : Bool

/-- `kbless_enabled`, the constants latched with it, and `kbless_state`. -/
structure Bless where
  enabled : Option Bool
  lo : Word
  span : Word
  romOff : Word
  patches : List PatchRange
  verdict : ℕ → Verdict

namespace Bless

/-- `psx_kernel_bless_reset_for_boot` -/
def resetForBoot : Bless := ⟨none, 0, 0, 0, [], fun _ => .unknown⟩

/-- `kbless_on`; nothing where it ends the program. -/
def on (E : Env) (img : BiosImage) (k : Bless) : Option Bless :=
  match k.enabled with
  | some _ => some k
  | none =>
    let span := img.kblessRamHi - img.kblessRamLo
    if 0 < span ∧ 0x80000 < img.kblessRomOff.toNat + span.toNat then none
    else some { k with
      enabled := some (E.kernelBless && img.bodies.length ≤ 4096 && span ≠ 0)
      lo := img.kblessRamLo
      span := span
      romOff := img.kblessRomOff
      patches := if E.patchRanges then img.patches else [] }

/-- The verdicts on the bodies of a kind dropped. -/
def drop (bodies : List Body) (hit : Body → Bool) (k : Bless) : Bless :=
  { k with verdict := fun i => if (bodies[i]?).any hit then .unknown else k.verdict i }

/-- `kbless_note_write` -/
def noteWrite (bodies : List Body) (phys : Word) (k : Bless) : Bless :=
  if k.enabled ≠ some true then k
  else if k.span ≤ phys - k.lo then k
  else if 4096 < bodies.length then k
  else k.drop bodies fun b => b.lo ≤ phys && phys < b.hi

/-- `psx_kernel_bless_note_range` -/
def noteRange (bodies : List Body) (phys len : Word) (k : Bless) : Bless :=
  if k.enabled ≠ some true then k
  else if len = 0 then k
  else
    let hi := if phys + len < phys then 0xFFFFFFFF else phys + len
    if hi ≤ k.lo ∨ k.lo + k.span ≤ phys then k
    else if 4096 < bodies.length then k
    else k.drop bodies fun _ => true

/-- `psx_kernel_bless_resync_after_restore` -/
def resyncAfterRestore (k : Bless) : Bless := { k with verdict := fun _ => .unknown }

end Bless

/-- The binary search of `kbless_find`, over at most so many steps. -/
def kblessFindFrom (bodies : List Body) (phys : Word) : ℕ → ℕ → ℕ → Option ℕ
  | 0, _, _ => none
  | n + 1, lo, hi =>
    if lo < hi then
      let mid := (lo + hi) / 2
      match bodies[mid]? with
      | none => none
      | some b =>
        if b.key = phys then some mid
        else if b.key < phys then kblessFindFrom bodies phys n (mid + 1) hi
        else kblessFindFrom bodies phys n lo mid
    else none

/-- `kbless_find` -/
def kblessFind (bodies : List Body) (phys : Word) : Option ℕ :=
  kblessFindFrom bodies phys (bodies.length + 1) 0 bodies.length

/-! ## The machine -/

/-- Memory, the BIOS and its verdicts. While a render pass is on, `checkpoint` holds the RAM that the
pass puts back. -/
structure System where
  pass : Pass
  checkpoint : Option Cells
  image : BiosImage
  env : Env
  bless : Bless

namespace System

abbrev ram (s : System) : Cells := s.pass.bus.ram
abbrev rom (s : System) : Cells := s.pass.bus.rom

def verify (s : System) (k : Bless) (b : Body) : Bool :=
  kernelPatchCmp k.patches s.ram s.rom k.lo.toNat k.romOff.toNat b.lo.toNat b.hi.toNat

/-- `psx_kernel_bless_dispatchable`; nothing where the latch ends the program. -/
def dispatchable (s : System) (phys : Word) : Option (System × Bool) :=
  match s.bless.on s.env s.image with
  | none => none
  | some k =>
    if k.enabled ≠ some true then some ({ s with bless := k }, false)
    else if k.span ≤ phys - k.lo then some ({ s with bless := k }, false)
    else match kblessFind s.image.bodies phys with
      | none => some ({ s with bless := k }, false)
      | some i =>
        match k.verdict i, s.image.bodies[i]? with
        | .clean, _ => some ({ s with bless := k }, true)
        | .mismatch, _ => some ({ s with bless := k }, false)
        | .unknown, none => some ({ s with bless := k }, false)
        | .unknown, some b =>
          if s.verify k b then
            some ({ s with bless := { k with verdict := Function.update k.verdict i .clean } }, true)
          else
            some ({ s with bless := { k with verdict := Function.update k.verdict i .mismatch } }, false)

/-- `dirty_ram_mark_kernel_write`, before a store to RAM. -/
def markKernelWrite (s : System) (pos : ℕ) : Bless :=
  if 0x10000 ≤ pos then s.bless else s.bless.noteWrite s.image.bodies (BitVec.ofNat 32 pos)

/-- `psx_write_byte`, `psx_write_half` and `psx_write_word` -/
def store (s : System) (w : Width) (addr val : Word) : System :=
  match s.checkpoint with
  | some _ => { s with pass := (s.pass.store w addr val).1 }
  | none =>
    { s with
      pass := { s.pass with bus := (s.pass.bus.writeRaw w addr val).1 }
      bless := match s.pass.bus.place w addr (clip w val) with
        | .ram pos => s.markKernelWrite pos
        | _ => s.bless }

/-- `dirty_ram_mark_executable_range`, as far as it concerns the verdicts. -/
def markExecutableRange (s : System) (phys len : Word) : System :=
  if len = 0 ∨ s.pass.bus.geometry.mask.toNat + 1 ≤ phys.toNat then s
  else { s with bless := s.bless.noteRange s.image.bodies phys len }

def withRam (s : System) (ram : Cells) : System :=
  { s with pass := { s.pass with bus := { s.pass.bus with ram := ram } } }

/-- The live RAM copied over. -/
def overLive (s : System) (ram : Cells) : Cells :=
  fun i => if i ≤ s.pass.bus.geometry.mask.toNat then ram i else s.ram i

/-- A savestate's RAM, the range it is noted over, and the resync behind it. -/
def restore (s : System) (ram : Cells) : System :=
  { s.withRam (s.overLive ram) with
    bless := (s.bless.noteRange s.image.bodies 0 (s.pass.bus.geometry.mask + 1)).resyncAfterRestore }

/-- `memory_init` under the BIOS that has been made active. -/
def memoryInit (s : System) (img : BiosImage) (rom : Cells) (g : Geometry) : System :=
  { s with
    pass := { s.pass with bus := { s.pass.bus with
      ram := fun _ => 0, scratchpad := fun _ => 0, rom := rom, geometry := g } }
    image := img
    bless := .resetForBoot }

end System

/-- Stores of any kind, in and out of render passes, among everything else that reaches the RAM or
the verdicts. `P` says which stores are made. -/
inductive Step (P : System → Width → Word → Word → Prop) : System → System → Prop
  | store (s : System) (w : Width) (addr val : Word) (ha : addr.toNat % w.bytes = 0)
      (h : P s w addr val) : Step P s (s.store w addr val)
  | mark (s : System) (phys len : Word) : Step P s (s.markExecutableRange phys len)
  | restore (s : System) (ram : Cells) (h : s.checkpoint = none) : Step P s (s.restore ram)
  | memoryInit (s : System) (img : BiosImage) (rom : Cells) (g : Geometry) (h : s.checkpoint = none) :
      Step P s (s.memoryInit img rom g)
  | dispatch (s s' : System) (phys : Word) (native : Bool)
      (h : s.dispatchable phys = some (s', native)) : Step P s s'
  | passBegin (s : System) (h : s.checkpoint = none) : Step P s { s with checkpoint := some s.ram }
  | passEnd (s : System) (ram : Cells) (h : s.checkpoint = some ram) :
      Step P s { s.withRam (s.overLive ram) with checkpoint := none }
  | work (s : System) (p : Pass) (hram : p.bus.ram = s.ram) (hrom : p.bus.rom = s.rom)
      (hg : p.bus.geometry = s.pass.bus.geometry) : Step P s { s with pass := p }

/-- Nothing verified yet, and no pass on. -/
def System.Boot (s : System) : Prop := s.bless = .resetForBoot ∧ s.checkpoint = none

/-- Outside the patch ranges the body is as in the ROM it was compiled from. -/
def System.Intact (s : System) (patches : List PatchRange) (b : Body) : Prop :=
  ∀ i, b.lo.toNat ≤ i → i < b.hi.toNat → (∀ p ∈ patches, ¬(p.lo.toNat ≤ i ∧ i < p.hi.toNat)) →
    s.ram i = s.rom (s.image.kblessRomOff.toNat + (i - s.image.kblessRamLo.toNat))

/-- The patch ranges in force. -/
def System.patchesInForce (s : System) : List PatchRange :=
  if s.env.patchRanges then s.image.patches else []

/-- A store of a render pass spares the bodies. -/
def Spares (s : System) (w : Width) (addr val : Word) : Prop :=
  s.checkpoint ≠ none → ∀ b ∈ s.image.bodies, ∀ i, b.lo.toNat ≤ i → i < b.hi.toNat →
    (s.store w addr val).ram i = s.ram i

end PsxRecomp.Memory
