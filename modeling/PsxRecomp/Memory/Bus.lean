import PsxRecomp.DataShards.Shard
import PsxRecomp.Pipeline.Icache

/-! The stores of the bus: where `psx_write_byte`, `psx_write_half` and `psx_write_word` put a value,
with the caches isolated or not, in RAM and its mirrors, the scratchpad and the mod arenas. -/
namespace PsxRecomp.Memory
open DataShards (Byte Word Cells Geometry Width)
set_option autoImplicit false

/-! ## Arenas -/

/-- The host memory that mods put into the guest's address space. -/
inductive Arena where
  | modMemory
  | gpuDma
  deriving DecidableEq

def Arena.size : Arena → ℕ
  | .modMemory => 0x100000
  | .gpuDma => 0x800000

structure Arenas where
  bytes : Arena → Cells
  used : Arena → ℕ
  used_le : ∀ a, used a ≤ a.size

/-- `mod_memory_offset` -/
def Arenas.modMemoryOffset (A : Arenas) (phys width : ℕ) : Option ℕ :=
  if phys < 0x1F000000 then none
  else
    let off := phys - 0x1F000000
    if A.used .modMemory < off ∨ A.used .modMemory - off < width then none else some off

/-- `psx_mod_gpu_dma_aperture_offset_for` with the bytes in use. -/
def Arenas.gpuDmaOffset (A : Arenas) (phys width : ℕ) : Option ℕ :=
  if phys < 0x800000 ∨ 0x1000000 ≤ phys ∨ 0x800000 < A.used .gpuDma then none
  else
    let off := phys - 0x800000
    if A.used .gpuDma < off ∨ A.used .gpuDma - off < width then none else some off

/-- The arena of a physical address, the aperture first. -/
def Arenas.find (A : Arenas) (phys width : ℕ) : Option (Arena × ℕ) :=
  match A.gpuDmaOffset phys width with
  | some off => some (.gpuDma, off)
  | none => (A.modMemoryOffset phys width).map fun off => (.modMemory, off)

/-! ## The state of the bus -/

structure Bus where
  ram : Cells
  scratchpad : Cells
  rom : Cells
  tags : Pipeline.Tags
  arenas : Arenas
  geometry : Geometry
  gates : Pipeline.Gates
  cacheCtrl : Word
  /-- SR.IsC -/
  isolateCache : Bool
  dmaExecDepth : ℕ
  hostStoreDepth : ℕ
  gameStarted : Bool
  lastStorePc : Word
  /-- The active BIOS image is SCPH-1001. -/
  scph1001 : Bool
  /-- `PSX_TOMB_CARD_EVCB_PROTECT` -/
  evcbProtect : Bool

def clip (w : Width) (val : Word) : Word :=
  match w with
  | .byte => val &&& 0xFF
  | .half => val &&& 0xFFFF
  | .word => val

def byteOf (val : Word) (i : ℕ) : Byte := (val >>> (8 * i)).setWidth 8

/-- The bytes of a value, from a position on. -/
def poke (m : Cells) (pos : ℕ) (w : Width) (val : Word) : Cells :=
  fun i => if pos ≤ i ∧ i < pos + w.bytes then byteOf val (i - pos) else m i

def wordAt (m : Cells) (i : ℕ) : Word := DataShards.ofBytes [m i, m (i + 1), m (i + 2), m (i + 3)]

/-- `psx_ram_map_write` -/
def mapWrite (g : Geometry) (addr : Word) : Word :=
  let phys := addr &&& 0x1FFFFFFF
  if phys < 0x800000 then phys &&& g.mask else phys

namespace Bus

/-- `cpu_store_isolated` -/
def cpuStoreIsolated (b : Bus) : Bool :=
  b.isolateCache && b.dmaExecDepth = 0 && b.hostStoreDepth = 0

/-- `isc_store` -/
def iscStore (b : Bus) (w : Width) (addr val : Word) : Bus :=
  let off := (addr &&& 0x3FF).toNat
  { b with
    tags := Pipeline.iscStore b.gates b.cacheCtrl addr val b.tags
    scratchpad :=
      if b.cacheCtrl &&& 0x81 = 0x80 then
        (List.range w.bytes).foldl
          (fun m i => Function.update m ((off + i) % 1024) (byteOf val i)) b.scratchpad
      else b.scratchpad }

/-- `scph1001_relocated_store`: the last store was SCPH-1001's own, run where it was copied to. -/
def relocatedStore (b : Bus) (pc rom : Word) : Bool :=
  b.lastStorePc = pc && b.scph1001 && ((pc &&& 0x1FFFFFFF).toNat + 4 ≤ 0x800000) &&
    wordAt b.ram (pc &&& 0x1FFFFFFF).toNat = wordAt b.rom (rom &&& 0x7FFFF).toNat

/-- The card event whose READY status the BIOS helper at 1C5Ch is not to re-arm. -/
def cardEvent (b : Bus) (phys : ℕ) : Bool :=
  4 ≤ phys && phys + 8 < 0x800000 && wordAt b.ram phys = 0x4000 &&
    wordAt b.ram (phys - 4) = 0xF0000011 && wordAt b.ram (phys + 8) = 0x2000 &&
    [0x4, 0x8000, 0x100, 0x200, 0x2000].contains (wordAt b.ram (phys + 4))

/-- The word stores that `psx_write_word_raw` takes for dummies of the BIOS once a game runs. -/
def suppressed (b : Bus) (phys : ℕ) (val : Word) : Bool :=
  b.gameStarted &&
    (phys < 0x10 && b.relocatedStore 0xF00 0xBFC10A00 ||
      phys = 0 && ([0xBFC04E90, 0xBFC04EF0, 0xBFC05164, 0xBFC0D634, 0x80012434, 0x800125AC].contains
          b.lastStorePc ||
        b.relocatedStore 0x80056EB4 0xBFC3EEB4 || b.relocatedStore 0x800585E4 0xBFC405E4 ||
        b.relocatedStore 0x80058788 0xBFC40788 || b.relocatedStore 0x80059C50 0xBFC41C50) ||
      phys < 0x800000 && b.evcbProtect && b.relocatedStore 0x1CE4 0xBFC117E4 && val = 0x2000 &&
        b.cardEvent phys)

end Bus

/-! ## Ordinary stores -/

/-- What a store reaches. -/
inductive Place where
  | caches
  | cacheControl
  | nothing
  | ram (pos : ℕ)
  | arena (a : Arena) (off : ℕ)
  | scratchpad (off : ℕ)
  | mmio (phys : Word)

/-- The decoding of `psx_write_word_raw` and its narrower siblings, which know neither the cache
control register nor the dummies of the BIOS. -/
def Bus.place (b : Bus) (w : Width) (addr val : Word) : Place :=
  if b.cpuStoreIsolated then .caches
  else if w = .word ∧ addr = 0xFFFE0130 then .cacheControl
  else if 0xC0000000 ≤ addr then .nothing
  else
    let phys := mapWrite b.geometry addr
    if w = .word ∧ b.suppressed phys.toNat val then .nothing
    else if phys < 0x800000 then .ram phys.toNat
    else match b.arenas.find phys.toNat w.bytes with
      | some (a, off) => .arena a off
      | none =>
        if 0x1F000000 ≤ phys ∧ phys ≤ 0x1F7FFFFF then .nothing
        else if 0x1F800000 ≤ phys ∧ phys ≤ 0x1F8003FF then .scratchpad (phys.toNat - 0x1F800000)
        else if 0x1F801000 ≤ phys ∧ phys ≤ 0x1F803FFF then .mmio phys
        else .nothing

/-- A store handed to the devices. -/
structure MmioWrite where
  phys : Word
  val : Word
  width : Width

def Arenas.poke (A : Arenas) (a : Arena) (off : ℕ) (w : Width) (val : Word) : Arenas :=
  { A with bytes := Function.update A.bytes a (Memory.poke (A.bytes a) off w val) }

/-- `psx_write_byte_raw`, `psx_write_half_raw` and `psx_write_word_raw` -/
def Bus.writeRaw (b : Bus) (w : Width) (addr val : Word) : Bus × Option MmioWrite :=
  let val := clip w val
  match b.place w addr val with
  | .caches => (b.iscStore w addr val, none)
  | .cacheControl => ({ b with cacheCtrl := val }, none)
  | .nothing => (b, none)
  | .ram pos => ({ b with ram := poke b.ram pos w val }, none)
  | .arena a off => ({ b with arenas := b.arenas.poke a off w val }, none)
  | .scratchpad off => ({ b with scratchpad := poke b.scratchpad off w val }, none)
  | .mmio phys => (b, some ⟨phys, val, w⟩)

/-! ## What the decoding says -/

theorem poke_outside {m : Cells} {pos : ℕ} {w : Width} {val : Word} {i : ℕ}
    (h : ¬(pos ≤ i ∧ i < pos + w.bytes)) : poke m pos w val i = m i := if_neg h

theorem mapWrite_window {g : Geometry} {addr : Word} (h : addr &&& 0x1FFFFFFF < 0x800000) :
    mapWrite g addr = addr &&& 0x1FFFFFFF &&& g.mask := if_pos h

theorem mapWrite_above {g : Geometry} {addr : Word} (h : ¬addr &&& 0x1FFFFFFF < 0x800000) :
    mapWrite g addr = addr &&& 0x1FFFFFFF := if_neg h

/-- An address is RAM to a store exactly when it lies in the decode window. -/
theorem mapWrite_lt_iff (g : Geometry) (addr : Word) :
    mapWrite g addr < 0x800000 ↔ addr &&& 0x1FFFFFFF < 0x800000 := by
  by_cases h : addr &&& 0x1FFFFFFF < 0x800000
  · refine ⟨fun _ => h, fun _ => ?_⟩
    rw [mapWrite_window h]
    rw [BitVec.lt_def] at h ⊢
    rw [BitVec.toNat_and]
    exact lt_of_le_of_lt Nat.and_le_left h
  · rw [mapWrite_above h]

/-- Within the window the offset is one of the live RAM. -/
theorem mapWrite_le_mask (g : Geometry) {addr : Word} (h : addr &&& 0x1FFFFFFF < 0x800000) :
    (mapWrite g addr).toNat ≤ g.mask.toNat := by
  rw [mapWrite_window h, BitVec.toNat_and]
  exact Nat.and_le_right

theorem suppressed_window {b : Bus} {phys : ℕ} {val : Word} (h : b.suppressed phys val = true) :
    phys < 0x800000 := by
  simp only [Bus.suppressed, Bool.and_eq_true, Bool.or_eq_true, decide_eq_true_eq] at h
  omega

theorem gpuDmaOffset_spec {A : Arenas} {phys width off : ℕ}
    (h : A.gpuDmaOffset phys width = some off) :
    0x800000 ≤ phys ∧ off = phys - 0x800000 ∧ off + width ≤ A.used .gpuDma := by
  unfold Arenas.gpuDmaOffset at h
  split at h
  · cases h
  · dsimp only at h
    split at h
    · cases h
    · have hoff := Option.some.inj h
      omega

theorem modMemoryOffset_spec {A : Arenas} {phys width off : ℕ}
    (h : A.modMemoryOffset phys width = some off) :
    0x1F000000 ≤ phys ∧ off = phys - 0x1F000000 ∧ off + width ≤ A.used .modMemory := by
  unfold Arenas.modMemoryOffset at h
  split at h
  · cases h
  · dsimp only at h
    split at h
    · cases h
    · have hoff := Option.some.inj h
      omega

/-- A found range lies above the RAM window, and within what is in use of its arena. -/
theorem find_spec {A : Arenas} {phys width off : ℕ} {a : Arena}
    (h : A.find phys width = some (a, off)) : 0x800000 ≤ phys ∧ off + width ≤ A.used a := by
  unfold Arenas.find at h
  cases hg : A.gpuDmaOffset phys width with
  | some o =>
    obtain ⟨hlow, -, hfit⟩ := gpuDmaOffset_spec hg
    rw [hg] at h
    obtain ⟨rfl, rfl⟩ := Prod.mk.inj (Option.some.inj h)
    exact ⟨hlow, hfit⟩
  | none =>
    rw [hg] at h
    obtain ⟨o, hm, ho⟩ := Option.map_eq_some_iff.1 h
    obtain ⟨hlow, -, hfit⟩ := modMemoryOffset_spec hm
    obtain ⟨rfl, rfl⟩ := Prod.mk.inj ho
    exact ⟨by omega, hfit⟩

theorem mapWrite_aligned (g : Geometry) {addr : Word} {w : Width}
    (ha : addr.toNat % w.bytes = 0) (hwindow : addr &&& 0x1FFFFFFF < 0x800000) :
    (mapWrite g addr).toNat % w.bytes = 0 := by
  rw [mapWrite_window hwindow, BitVec.toNat_and, BitVec.toNat_and]
  have hphys : addr.toNat &&& (0x1FFFFFFF : Word).toNat = addr.toNat % 2 ^ 29 :=
    Nat.and_two_pow_sub_one_eq_mod addr.toNat 29
  have hw : w.bytes = 1 ∨ w.bytes = 2 ∨ w.bytes = 4 := by cases w <;> decide
  rw [hphys]
  rcases g.live with hm | hm <;> rw [hm]
  · have hmask : addr.toNat % 2 ^ 29 &&& (0x1FFFFF : Word).toNat = addr.toNat % 2 ^ 29 % 2 ^ 21 :=
      Nat.and_two_pow_sub_one_eq_mod _ 21
    rw [hmask]
    rcases hw with hw | hw | hw <;> rw [hw] at ha ⊢ <;> omega
  · have hmask : addr.toNat % 2 ^ 29 &&& (0x7FFFFF : Word).toNat = addr.toNat % 2 ^ 29 % 2 ^ 23 :=
      Nat.and_two_pow_sub_one_eq_mod _ 23
    rw [hmask]
    rcases hw with hw | hw | hw <;> rw [hw] at ha ⊢ <;> omega

/-- Where a store reaches RAM its position is aligned, and within the live RAM. -/
theorem place_ram {bus : Bus} {w : Width} {addr val : Word} {pos : ℕ}
    (h : bus.place w addr val = .ram pos) :
    addr &&& 0x1FFFFFFF < 0x800000 ∧ pos = (mapWrite bus.geometry addr).toNat := by
  unfold Bus.place at h
  split at h
  · cases h
  · split at h
    · cases h
    · split at h
      · cases h
      · dsimp only at h
        split at h
        · cases h
        · split at h
          · rename_i hram
            exact ⟨(mapWrite_lt_iff _ _).1 hram, (Place.ram.inj h).symm⟩
          · split at h
            · cases h
            · split at h
              · cases h
              · split at h
                · cases h
                · split at h <;> cases h

theorem writeRaw_ram (bus : Bus) (w : Width) (addr val : Word) :
    (∃ pos, bus.place w addr (clip w val) = .ram pos ∧
      (bus.writeRaw w addr val).1.ram = poke bus.ram pos w (clip w val)) ∨
    ((∀ pos, bus.place w addr (clip w val) ≠ .ram pos) ∧
      (bus.writeRaw w addr val).1.ram = bus.ram) := by
  unfold Bus.writeRaw
  dsimp only
  cases bus.place w addr (clip w val) with
  | ram pos => exact Or.inl ⟨pos, rfl, rfl⟩
  | _ => exact Or.inr ⟨fun _ => Place.noConfusion, rfl⟩

theorem writeRaw_rom (bus : Bus) (w : Width) (addr val : Word) :
    (bus.writeRaw w addr val).1.rom = bus.rom := by
  unfold Bus.writeRaw
  dsimp only
  cases bus.place w addr (clip w val) <;> rfl

theorem writeRaw_geometry (bus : Bus) (w : Width) (addr val : Word) :
    (bus.writeRaw w addr val).1.geometry = bus.geometry := by
  unfold Bus.writeRaw
  dsimp only
  cases bus.place w addr (clip w val) <;> rfl

end PsxRecomp.Memory
