import PsxRecomp.Library.UndoLog
import PsxRecomp.Memory.Bus

/-! The stores of a render pass: their own decoding, the journal of the mod arenas, and the rollback
at the end of the pass. -/
namespace PsxRecomp.Memory
open DataShards (Byte Word Cells Geometry Width)
set_option autoImplicit false

/-! ## The journal -/

/-- The first page of an arena in the bitmap. -/
def Arena.pageBase : Arena → ℕ
  | .modMemory => 0
  | .gpuDma => 0x100000 / 4096

/-- A page as it was before the pass wrote it first. -/
structure ModPage where
  arena : Arena
  page : ℕ
  index : ℕ
  data : ℕ → Byte

/-- `s_rp_mod_bits`, `s_rp_mod_log` with the newest page in front, its capacity, and how the calls of
`realloc` to come end. -/
structure Journal where
  bits : ℕ → Bool
  log : List ModPage
  cap : ℕ
  lossy : Bool
  grants : ℕ → Bool

def Journal.push (j : Journal) (A : Arenas) (a : Arena) (pg : ℕ) : Journal :=
  { j with
    bits := Function.update j.bits (a.pageBase + pg) true
    log := ⟨a, pg, a.pageBase + pg, fun i => A.bytes a (pg * 4096 + i)⟩ :: j.log }

def Journal.grow (j : Journal) : Journal :=
  { j with cap := if j.cap = 0 then 64 else j.cap * 2, grants := fun i => j.grants (i + 1) }

def Journal.refuse (j : Journal) : Journal :=
  { j with lossy := true, grants := fun i => j.grants (i + 1) }

/-- The loop of `rp_mod_journal` over so many pages from `pg` on. -/
def journalPages (A : Arenas) (a : Arena) : ℕ → ℕ → Journal → Journal × Bool
  | 0, _, j => (j, true)
  | n + 1, pg, j =>
    if j.bits (a.pageBase + pg) then journalPages A a n (pg + 1) j
    else if j.log.length = j.cap then
      if j.grants 0 then journalPages A a n (pg + 1) (j.grow.push A a pg) else (j.refuse, false)
    else journalPages A a n (pg + 1) (j.push A a pg)

/-- `rp_mod_journal` -/
def rpModJournal (A : Arenas) (a : Arena) (off width : ℕ) (j : Journal) : Journal × Bool :=
  journalPages A a ((off + width - 1) / 4096 + 1 - off / 4096) (off / 4096) j

/-! ## Stores of a pass -/

structure Pass where
  bus : Bus
  journal : Journal

/-- The arena range that a store of a pass is meant for. -/
def Bus.arenaTarget (b : Bus) (w : Width) (addr : Word) : Option (Arena × ℕ) :=
  let phys := (addr &&& 0x1FFFFFFF).toNat
  if 0xC0000000 ≤ addr then none
  else if phys < b.geometry.mask.toNat + 1 then none
  else if phys < 0x800000 ∧ b.geometry.mask.toNat + 1 < 0x800000 then none
  else b.arenas.find phys w.bytes

/-- `render_pass_mod_store`; nothing when the store is not for an arena. -/
def Pass.modStore (s : Pass) (w : Width) (addr val : Word) : Option Pass :=
  match s.bus.arenaTarget w addr with
  | none => none
  | some (a, off) =>
    match rpModJournal s.bus.arenas a off w.bytes s.journal with
    | (j, false) => some { s with journal := j }
    | (j, true) => some ⟨{ s.bus with arenas := s.bus.arenas.poke a off w val }, j⟩

/-- `RENDER_PASS_DROP_*` -/
inductive DropClass where
  | gpu
  | dma
  | spu
  | cd
  | timer
  | other

/-- `render_pass_mmio_class`; nothing where the write is allowed. -/
def mmioClass (phys val : Word) (w : Width) : Option DropClass :=
  if phys = 0x1F801810 then if w = .word then none else some .gpu
  else if phys = 0x1F801814 then
    if w = .word ∧ (val >>> 24 = 0x04 ∨ val >>> 24 = 0x10) then none else some .gpu
  else if 0x1F801070 ≤ phys ∧ phys ≤ 0x1F801077 then none
  else if 0x1F8010A0 ≤ phys ∧ phys ≤ 0x1F8010AF ∨ 0x1F8010E0 ≤ phys ∧ phys ≤ 0x1F8010EF ∨
      0x1F8010F0 ≤ phys ∧ phys ≤ 0x1F8010F7 then none
  else if 0x1F801080 ≤ phys ∧ phys ≤ 0x1F8010FF then some .dma
  else if 0x1F801C00 ≤ phys ∧ phys ≤ 0x1F801FFF then some .spu
  else if 0x1F801800 ≤ phys ∧ phys ≤ 0x1F801803 then some .cd
  else if 0x1F801100 ≤ phys ∧ phys ≤ 0x1F80112F then some .timer
  else some .other

/-- What becomes of a store in a pass. -/
inductive PassResult where
  | made (device : Option MmioWrite)
  | dropped (c : DropClass)

/-- `render_pass_store_to`, with the isolation found before. -/
def Bus.passStoreTo (b : Bus) (isolated : Bool) (w : Width) (addr val : Word) : Bus × PassResult :=
  if 0xC0000000 ≤ addr then (b, .dropped .other)
  else if isolated then (b, .made none)
  else
    let phys := mapWrite b.geometry addr
    if phys.toNat < b.geometry.mask.toNat + 1 then
      ({ b with ram := poke b.ram phys.toNat w val }, .made none)
    else if 0x1F800000 ≤ phys ∧ phys < 0x1F800400 then
      let off := phys.toNat - 0x1F800000
      ({ b with scratchpad := fun i => if i < 1024 then poke b.scratchpad off w val i
          else b.scratchpad i }, .made none)
    else if 0x1F801000 ≤ phys ∧ phys ≤ 0x1F803FFF then
      match mmioClass phys val w with
      | some c => (b, .dropped c)
      | none => (b, .made (some ⟨phys, val, w⟩))
    else (b, .dropped .other)

/-- `render_pass_store`, which `psx_write_byte`, `psx_write_half` and `psx_write_word` take to while a
pass is on. -/
def Pass.store (s : Pass) (w : Width) (addr val : Word) : Pass × PassResult :=
  let val := clip w val
  match s.modStore w addr val with
  | some s' => (s', .made none)
  | none =>
    let isolated := s.bus.cpuStoreIsolated
    let b := if isolated then s.bus.iscStore w addr val else s.bus
    let r := b.passStoreTo isolated w addr val
    ({ s with bus := r.1 }, r.2)

/-! ## Bulk writes and the rollback -/

def putBytes (m : Cells) (off : ℕ) (data : List Byte) : Cells :=
  fun i => if off ≤ i then (data[i - off]?).getD (m i) else m i

def Arenas.put (A : Arenas) (a : Arena) (off : ℕ) (data : List Byte) : Arenas :=
  { A with bytes := Function.update A.bytes a (putBytes (A.bytes a) off data) }

/-- `psx_mod_write_gpu_draw_memory` within a pass; `hostOutput` is `psx_mod_host_output_scope`. -/
def Pass.writeGpuDrawMemory (s : Pass) (hostOutput : Bool) (addr : Word) (data : List Byte) :
    Pass × Bool :=
  if hostOutput ∨ 0xC0000000 ≤ addr ∨ data = [] then (s, false)
  else match s.bus.arenas.gpuDmaOffset (addr &&& 0x1FFFFFFF).toNat data.length with
    | none => (s, false)
    | some off =>
      match rpModJournal s.bus.arenas .gpuDma off data.length s.journal with
      | (j, false) => ({ s with journal := j }, false)
      | (j, true) => (⟨{ s.bus with arenas := s.bus.arenas.put .gpuDma off data }, j⟩, true)

def wordOf (data : List Byte) (pos : ℕ) : Word := DataShards.ofBytes ((data.drop pos).take 4)

/-- `psx_mod_memory_snapshot_bytes` -/
def Arenas.snapshotBytes (A : Arenas) : ℕ :=
  if A.used .modMemory ≠ 0 ∨ A.used .gpuDma ≠ 0 then 16 + A.used .modMemory + A.used .gpuDma else 0

/-- `psx_mod_memory_snapshot_validate` -/
def Arenas.snapshotValidate (A : Arenas) (data : List Byte) : Bool :=
  16 ≤ data.length && data.length = A.snapshotBytes && wordOf data 0 = 1 &&
    wordOf data 4 = 0x800000 && (wordOf data 8).toNat = A.used .modMemory &&
    (wordOf data 12).toNat = A.used .gpuDma

/-- The journal of a whole arena, where anything of it is in use. -/
def Arenas.journalUsed (A : Arenas) (a : Arena) (j : Journal) : Journal × Bool :=
  if A.used a = 0 then (j, true) else rpModJournal A a 0 (A.used a) j

/-- `psx_mod_memory_snapshot_read` within a pass. -/
def Pass.snapshotRead (s : Pass) (data : List Byte) : Pass × Bool :=
  let A := s.bus.arenas
  if !A.snapshotValidate data then (s, false)
  else match A.journalUsed .modMemory s.journal with
    | (j, false) => ({ s with journal := j }, false)
    | (j, true) =>
      match A.journalUsed .gpuDma j with
      | (j, false) => ({ s with journal := j }, false)
      | (j, true) =>
        let cpu := (data.drop 16).take (A.used .modMemory)
        let dma := (data.drop (16 + A.used .modMemory)).take (A.used .gpuDma)
        (⟨{ s.bus with arenas := (A.put .modMemory 0 cpu).put .gpuDma 0 dma }, j⟩, true)

def ModPage.giveBack (p : ModPage) (bytes : Arena → Cells) : Arena → Cells :=
  Function.update bytes p.arena fun i => if i / 4096 = p.page then p.data (i % 4096) else bytes p.arena i

/-- `render_pass_mod_arenas_rollback` -/
def Pass.rollback (s : Pass) : Pass where
  bus := { s.bus with arenas := { s.bus.arenas with
    bytes := s.journal.log.foldl (fun m p => p.giveBack m) s.bus.arenas.bytes } }
  journal := { s.journal with
    bits := s.journal.log.foldl (fun bits p => Function.update bits p.index false) s.journal.bits
    log := []
    lossy := false }

end PsxRecomp.Memory
