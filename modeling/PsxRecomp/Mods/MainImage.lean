import Mathlib
import PsxRecomp.Mods.Resolve

/-! Guest memory behind byte accesses, and the main-EXE part of a committed plan: the guards at the
first dispatch of the entry point, the stores, and the check of a restored image. -/
namespace PsxRecomp.Mods
open Cells
set_option autoImplicit false

abbrev Word := BitVec 32

/-! ## Backing -/

/-- A byte of memory that guest stores change. -/
inductive Slot
  | ram (off : ℕ)
  | gpuDma (off : ℕ)
  | modMemory (off : ℕ)
  | scratchpad (off : ℕ)
deriving DecidableEq, Repr

/-- What an address is backed by. -/
inductive Backing
  | slot (s : Slot)
  | fixed (v : BitVec 8)
  | device (phys : Word)

/-- The stored bytes, and the state of the devices. -/
structure Memory (D : Type) where
  cells : Slot → BitVec 8
  devices : D

/-- The live geometry, the BIOS image and the device registers. -/
structure Bus (D : Type) where
  ramMask : Word
  gpuDmaUsed : ℕ
  modMemoryUsed : ℕ
  biosRom : ℕ → BitVec 8
  mmioRead8 : Memory D → Word → BitVec 8 × Memory D
  mmioWrite8 : Memory D → Word → BitVec 8 → Memory D

variable {D : Type} (B : Bus D)

/-- `psx_ram_map_read` and `psx_ram_map_write` -/
def ramMap (addr : Word) : Word :=
  let phys := addr &&& 0x1FFFFFFF#32
  if phys < 0x00800000#32 then phys &&& B.ramMask else phys

/-- The decode that `psx_read_byte_raw` and `psx_write_byte_raw` share. -/
def backing (addr : Word) : Backing :=
  if 0xC0000000#32 ≤ addr then .fixed 0
  else
    let phys := ramMap B addr
    if phys < 0x00800000#32 then .slot (.ram phys.toNat)
    else if phys < 0x01000000#32 ∧ phys.toNat - 0x00800000 < B.gpuDmaUsed then
      .slot (.gpuDma (phys.toNat - 0x00800000))
    else if 0x1F000000#32 ≤ phys ∧ phys.toNat - 0x1F000000 < B.modMemoryUsed then
      .slot (.modMemory (phys.toNat - 0x1F000000))
    else if 0x1F000000#32 ≤ phys ∧ phys ≤ 0x1F7FFFFF#32 then .fixed 0xFF
    else if 0x1F800000#32 ≤ phys ∧ phys ≤ 0x1F8003FF#32 then
      .slot (.scratchpad (phys.toNat - 0x1F800000))
    else if 0x1F801000#32 ≤ phys ∧ phys ≤ 0x1F803FFF#32 then .device phys
    else if 0x1FC00000#32 ≤ phys ∧ phys ≤ 0x1FC7FFFF#32 then
      .fixed (B.biosRom (phys.toNat - 0x1FC00000))
    else .fixed 0

/-! ## Byte accesses -/

/-- `psx_read_byte` -/
def psxReadByte (addr : Word) (m : Memory D) : BitVec 8 × Memory D :=
  match backing B addr with
  | .slot s => (m.cells s, m)
  | .fixed v => (v, m)
  | .device phys => B.mmioRead8 m phys

/-- `psx_host_write_byte`, which cache isolation does not stop. -/
def psxHostWriteByte (addr : Word) (v : BitVec 8) (m : Memory D) : Memory D :=
  match backing B addr with
  | .slot s => { m with cells := Function.update m.cells s v }
  | .fixed _ => m
  | .device phys => B.mmioWrite8 m phys v

/-- Memory proper: neither read nor written through a device. -/
def Plain (addr : Word) : Prop := ∀ phys, backing B addr ≠ .device phys

/-- The slot a store to the address changes. -/
def slotOf (addr : Word) : Option Slot :=
  match backing B addr with
  | .slot s => some s
  | _ => none

/-- What an address without a slot reads as. -/
def fixedAt (addr : Word) : BitVec 8 :=
  match backing B addr with
  | .fixed v => v
  | _ => 0

/-- A plain address reads its slot, or a constant. -/
theorem psxReadByte_plain {addr : Word} (h : Plain B addr) (m : Memory D) :
    psxReadByte B addr m =
      (match slotOf B addr with
        | some s => m.cells s
        | none => fixedAt B addr, m) := by
  unfold psxReadByte slotOf fixedAt
  cases hb : backing B addr with
  | slot s => rfl
  | fixed v => rfl
  | device phys => exact absurd hb (h phys)

theorem psxHostWriteByte_plain {addr : Word} (h : Plain B addr) (v : BitVec 8) (m : Memory D) :
    psxHostWriteByte B addr v m =
      match slotOf B addr with
      | some s => { m with cells := Function.update m.cells s v }
      | none => m := by
  unfold psxHostWriteByte slotOf
  cases hb : backing B addr with
  | slot s => rfl
  | fixed v => rfl
  | device phys => exact absurd hb (h phys)

/-! ## Committed plans -/

/-- What an ok resolution of parsed packages leaves of the main-EXE part: valid writes that do not
conflict, inside the 32-bit address space. -/
structure MainPlan where
  writes : List Write
  valid : ∀ w ∈ writes, validWrite w = true
  consistent : Consistent (writes.flatMap Write.cells)
  guards : ∀ a ∈ writes, ∀ b ∈ writes, Agree a.guardCells b.guardCells
  bounded : ∀ w ∈ writes, w.target = .mainExe → w.location + w.expected.length ≤ 2 ^ 32

theorem coalesced_writes_valid (ws : List Write) (os : List Overlay) :
    ∀ w ∈ (coalesceContributions ws os).writes, validWrite w = true :=
  fun w hw => (rejectWrite_eq_none_iff w).1 (Coalesce.kept_subset ws w hw).2

/-- The plan of a coalescing without a report, from writes the parser accepts. -/
def MainPlan.ofCoalesced (ws : List Write) (os : List Overlay)
    (h : (coalesceContributions ws os).reports = [])
    (hb : ∀ w ∈ ws, w.target = .mainExe → w.location + w.expected.length ≤ 2 ^ 32) : MainPlan where
  writes := (coalesceContributions ws os).writes
  valid := coalesced_writes_valid ws os
  consistent := by
    intro k v u hv hu
    have hc := coalesced_consistent h
    exact hc k v u (List.mem_append_left _ hv) (List.mem_append_left _ hu)
  guards := coalesced_guards_agree h
  bounded w hw := hb w (Coalesce.kept_subset ws w hw).1

/-- `(uint32_t)location + (uint32_t)i` for each of the bytes. -/
def addressed (location : ℕ) (bytes : List Byte) : List (Word × Byte) :=
  bytes.mapIdx fun i v => (BitVec.ofNat 32 location + BitVec.ofNat 32 i, v)

def mainWrites (writes : List Write) : List Write := writes.filter fun w => w.target = .mainExe

/-- The guarded bytes, in the order they are checked. -/
def guardBytes (writes : List Write) : List (Word × Byte) :=
  (mainWrites writes).flatMap fun w => addressed w.location w.expected

/-- The bytes `apply_main_write` stores for one write. -/
def storedBytes (w : Write) : List (Word × Byte) :=
  if w.fields = [] then addressed w.location w.replacement
  else w.fields.flatMap fun f => addressed (w.location + f.offset) f.replacement

/-- The owned bytes, in the order they are stored. -/
def ownedBytes (writes : List Write) : List (Word × Byte) := (mainWrites writes).flatMap storedBytes

/-! ## Dispatch -/

/-- The guard loop: `false` at the first byte that differs. -/
def checkGuards : List (Word × Byte) → Memory D → Bool × Memory D
  | [], m => (true, m)
  | (addr, v) :: rest, m =>
    let (observed, m) := psxReadByte B addr m
    if observed ≠ v then (false, m) else checkGuards rest m

/-- The store loops of `apply_main_write`. -/
def storeBytes (bytes : List (Word × Byte)) (m : Memory D) : Memory D :=
  bytes.foldl (fun m b => psxHostWriteByte B b.1 b.2 m) m

/-- The part of `RuntimeMods` the main image needs. -/
structure MainState (D : Type) where
  initialized : Bool
  mainApplied : Bool
  entryPhys : Word
  memory : Memory D

/-- `mod_runtime_on_dispatch` -/
def onDispatch (writes : List Write) (target : Word) (s : MainState D) : MainState D :=
  if !s.initialized ∨ s.mainApplied ∨ target &&& 0x1FFFFFFF#32 ≠ s.entryPhys then s
  else
    let (passed, m) := checkGuards B (guardBytes writes) s.memory
    if passed then { s with mainApplied := true, memory := storeBytes B (ownedBytes writes) m }
    else { s with mainApplied := true, memory := m }

/-! ## Restored images -/

/-- The map `desired`: what the plan puts at an address, the last store of it. -/
def desired (writes : List Write) : Word → Option Byte := lastOf (ownedBytes writes)

/-- `restored_main_matches_plan` -/
def restoredCheck (want : Word → Option Byte) : List (Word × Byte) → Memory D → Bool × Memory D
  | [], m => (true, m)
  | (addr, v) :: rest, m =>
    let (observed, m) := psxReadByte B addr m
    if observed = v then restoredCheck want rest m
    else if want addr = some observed then restoredCheck want rest m
    else (false, m)

def restoredMainMatchesPlan (writes : List Write) (m : Memory D) : Bool × Memory D :=
  restoredCheck B (desired writes) (guardBytes writes) m

end PsxRecomp.Mods
