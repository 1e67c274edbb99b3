import PsxRecomp.Library.MemoryEdit
import PsxRecomp.Mods.Resolve

/-! The disc part of a committed plan, applied to one sector as it is read. A buffer is a function
of the offset; a read hands in 2048 user bytes or 2352 raw ones. -/
namespace PsxRecomp.Mods
open Cells MemoryEdit
set_option autoImplicit false

/-! ## Plans -/

/-- Bytes of a raw sector, and of the user data of one. -/
def sectorSize : PatchTarget → ℕ
  | .discRaw => 2352
  | _ => 2048

theorem sectorSize_pos (t : PatchTarget) : 0 < sectorSize t := by
  cases t <;> decide

/-- What an ok resolution of parsed packages leaves of the disc part. -/
structure DiscPlan where
  writes : List Write
  overlays : List Overlay
  valid : ∀ w ∈ writes, validWrite w = true
  consistent : Consistent (writes.flatMap Write.cells ++ overlays.flatMap Overlay.cells)
  guards : ∀ a ∈ writes, ∀ b ∈ writes, Agree a.guardCells b.guardCells
  /-- a disc patch may not cross a sector boundary, and its sector number has 32 bits -/
  inSector : ∀ w ∈ writes, w.target ≠ .mainExe →
    w.location % sectorSize w.target + w.expected.length ≤ sectorSize w.target ∧
      w.location / sectorSize w.target < 2 ^ 32
  overlayTarget : ∀ o ∈ overlays, o.target ≠ .mainExe
  overlayPayload : ∀ o ∈ overlays, o.payload ≠ []

/-- The plan of a coalescing without a report, from contributions the parser accepts. -/
def DiscPlan.ofCoalesced (ws : List Write) (os : List Overlay)
    (h : (coalesceContributions ws os).reports = [])
    (hw : ∀ w ∈ ws, w.target ≠ .mainExe →
      w.location % sectorSize w.target + w.expected.length ≤ sectorSize w.target ∧
        w.location / sectorSize w.target < 2 ^ 32)
    (ho : ∀ o ∈ os, o.target ≠ .mainExe ∧ o.payload ≠ []) : DiscPlan where
  writes := (coalesceContributions ws os).writes
  overlays := (coalesceContributions ws os).overlays
  valid w hwm := (rejectWrite_eq_none_iff w).1 (Coalesce.kept_subset ws w hwm).2
  consistent := coalesced_consistent h
  guards := coalesced_guards_agree h
  inSector w hwm := hw w (Coalesce.kept_subset ws w hwm).1
  overlayTarget o hom := (ho o (Coalesce.kept_subset os o hom).1).1
  overlayPayload o hom := (ho o (Coalesce.kept_subset os o hom).1).2

/-! ## Indices -/

/-- `raw_disc_index` and `user_disc_index` at a sector. -/
def discIndex (writes : List Write) (t : PatchTarget) (lba : ℕ) : List Write :=
  writes.filter fun w => w.target = t ∧ w.location / sectorSize t % 2 ^ 32 = lba

/-- `raw_overlay_index` and `user_overlay_index`: an overlay for each sector it reaches. -/
def overlayIndex (overlays : List Overlay) (t : PatchTarget) (lba : ℕ) : List Overlay :=
  (overlays.filter fun o => o.target = t).flatMap fun o =>
    let first := o.location / sectorSize t
    let last := (o.location + o.payload.length - 1) / sectorSize t
    (List.range' first (last + 1 - first)).filterMap fun l =>
      if l % 2 ^ 32 = lba then some o else none

/-! ## Copies -/

abbrev Buffer := MemoryEdit.Memory Byte

/-- `memcpy(bytes + offset, src, n)` -/
def copyTo (offset : ℕ) (src : List Byte) (buf : Buffer) : Buffer :=
  paint buf (src.mapIdx fun i v => (offset + i, v))

/-- `memcmp(bytes + offset, expected, n) == 0` -/
def sameBytes (offset : ℕ) (expected : List Byte) (buf : Buffer) : Bool :=
  (expected.mapIdx fun i v => (offset + i, v)).all fun c => buf c.1 = c.2

/-- The part of a range that lies in the sector is copied. -/
def copyRange (base size location : ℕ) (bytes : List Byte) (buf : Buffer) : Buffer :=
  let first := max base location
  let stop := min (base + size) (location + bytes.length)
  if first < stop then
    copyTo (first - base) ((bytes.drop (first - location)).take (stop - first)) buf
  else buf

/-! ## One sector -/

/-- A patch of `derived_disc_patches`: an offset into the user data, and bytes. -/
structure DerivedPatch where
  offset : ℕ
  bytes : List Byte
deriving DecidableEq, Repr

structure DiscState where
  initialized : Bool
  discGuardFailed : Bool
  plan : DiscPlan
  derived : List DerivedPatch

/-- The range check both loops over the writes start with. -/
def skipsWrite (base size : ℕ) (w : Write) : Bool :=
  w.location < base ∨ base + size < w.location + w.expected.length

/-- The guard loop. -/
def guardsPass (base size : ℕ) (writes : List Write) (buf : Buffer) : Bool :=
  writes.all fun w => skipsWrite base size w || sameBytes (w.location - base) w.expected buf

def applyDiscWrite (base size : ℕ) (buf : Buffer) (w : Write) : Buffer :=
  if skipsWrite base size w then buf
  else if w.fields = [] then copyTo (w.location - base) w.replacement buf
  else w.fields.foldl
    (fun buf f => copyTo (w.location - base + f.offset) f.replacement buf) buf

def applyOverlay (base size : ℕ) (buf : Buffer) (o : Overlay) : Buffer :=
  copyRange base size o.location o.payload buf

/-- The claims of one target on one sector: every guard first, then the writes and the overlays.
The flag says that a guard failed. -/
def applyClaims (plan : DiscPlan) (t : PatchTarget) (lba : ℕ) (buf : Buffer) : Buffer × Bool :=
  let size := sectorSize t
  let base := lba * size
  let writes := discIndex plan.writes t lba
  let overlays := overlayIndex plan.overlays t lba
  if !guardsPass base size writes buf then (buf, true)
  else (overlays.foldl (applyOverlay base size) (writes.foldl (applyDiscWrite base size) buf), false)

/-- The derived-disc patches, which only a user read receives. -/
def applyDerived (S : DiscState) (lba : ℕ) (buf : Buffer) : Buffer :=
  S.derived.foldl (fun buf d => copyRange (lba * 2048) 2048 d.offset d.bytes buf) buf

/-- `patch_committed_disc_sector` of a user read. -/
def patchUserSector (S : DiscState) (lba : ℕ) (buf : Buffer) : Buffer × Bool :=
  if !S.initialized ∨ S.discGuardFailed then (buf, S.discGuardFailed)
  else applyClaims S.plan .discUser lba (applyDerived S lba buf)

/-- A raw sector whose user data is that of the logical stream. -/
def mode2Form1 (buf : Buffer) : Bool := buf 15 = 2 ∧ buf 18 &&& 0x20 = 0

/-- `patch_committed_disc_sector` of a raw read: the raw claims, then those on the user window. -/
def patchRawSector (S : DiscState) (lba : ℕ) (buf : Buffer) : Buffer × Bool :=
  if !S.initialized ∨ S.discGuardFailed then (buf, S.discGuardFailed)
  else
    let r := applyClaims S.plan .discRaw lba buf
    if mode2Form1 buf ∧ !r.2 then
      (editAt 24 (fun window => (patchUserSector S lba window).1) r.1,
        (patchUserSector S lba (shift r.1 24)).2)
    else r

end PsxRecomp.Mods
