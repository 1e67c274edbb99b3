import PsxRecomp.Overlays.LiveBytes

/-! The memory that the packet lists of a render pass live in: RAM and the aperture of packets that was allocated,
read and written by aligned words. -/
namespace PsxRecomp.RenderPass
set_option autoImplicit false

open Overlays (Geometry)

abbrev Word := BitVec 32

structure PacketMemory where
  geometry : Geometry
  /-- `mod_gpu_dma_memory_used` -/
  apertureUsed : Word
  /-- By the address of an aligned word. -/
  word : Word → Word

/-- `psx_mod_gpu_dma_aperture_offset_for` -/
def apertureHolds (used address width : Word) : Bool :=
  let canonical := address &&& 0x1FFFFFFF
  let off := canonical - 0x00800000
  !(canonical < 0x00800000 || canonical ≥ 0x01000000 || used > 0x00800000) && !(off > used || width > used - off)

namespace PacketMemory

/-- `PSXOTReplay::valid` -/
def valid (m : PacketMemory) (p bytes : Word) : Bool :=
  p &&& 3 = 0 && ((p ≥ 0x00010000 && p ≤ m.geometry.size && bytes ≤ m.geometry.size - p) ||
    (bytes ≠ 0 && apertureHolds m.apertureUsed p bytes))

/-- The address that a tag links to. -/
def link (m : PacketMemory) (p : Word) : Word := m.word p &&& 0x00FFFFFF

/-- The words behind a tag. -/
def count (m : PacketMemory) (p : Word) : ℕ := (m.word p >>> (24 : ℕ)).toNat

def payload (m : PacketMemory) (p : Word) : List Word :=
  (List.range (m.count p)).map fun j => m.word (p + BitVec.ofNat 32 (4 * (j + 1)))

def put (p v : Word) (m : PacketMemory) : PacketMemory := { m with word := Function.update m.word p v }

/-- The nodes from a link on, each with its words, and the address of some that they end at. -/
def Walks (m : PacketMemory) (stop : Word → Prop) : Word → List (Word × List Word) → Word → Prop
  | node, [], last => stop node ∧ last = node
  | node, p :: ps, last =>
    ¬stop node ∧ m.valid node (BitVec.ofNat 32 (4 * (m.count node + 1))) = true ∧ p = (node, m.payload node) ∧
      m.Walks stop (m.link node) ps last

end PacketMemory

/-- The words that a node occupies, its tag first. -/
def nodeCells (node : Word) (n : ℕ) : List Word :=
  (List.range (n + 1)).map fun j => node + BitVec.ofNat 32 (4 * j)

/-- Writes of a function of the address, in any order. -/
theorem foldl_put {ι : Type} (addr val : ι → Word) (f : Word → Word) (js : List ι) (h : ∀ j ∈ js, val j = f (addr j))
    (m : PacketMemory) (a : Word) :
    (js.foldl (fun m j => m.put (addr j) (val j)) m).word a = if a ∈ js.map addr then f a else m.word a := by
  induction js generalizing m with
  | nil => simp
  | cons j js ih =>
    rw [List.foldl_cons, ih fun i hi => h i (List.mem_cons_of_mem _ hi)]
    by_cases hin : a ∈ js.map addr
    · simp [hin]
    · by_cases hj : a = addr j
      · simp [hj, PacketMemory.put, h j (List.mem_cons_self ..)]
      · simp [hin, hj, PacketMemory.put]

section Walks

variable {m m' : PacketMemory} {stop : Word → Prop} {node : Word}

theorem count_lt (m : PacketMemory) (p : Word) : m.count p < 256 := by
  unfold PacketMemory.count
  rw [BitVec.toNat_ushiftRight, Nat.shiftRight_eq_div_pow]
  omega

theorem mem_nodeCells {n : ℕ} {c : Word} :
    c ∈ nodeCells node n ↔ ∃ j ≤ n, c = node + BitVec.ofNat 32 (4 * j) := by
  simp only [nodeCells, List.mem_map, List.mem_range, Nat.lt_succ_iff, eq_comm (a := c)]

theorem head_mem_nodeCells (node : Word) (n : ℕ) : node ∈ nodeCells node n :=
  mem_nodeCells.2 ⟨0, Nat.zero_le n, by simp⟩

/-- A memory has one walk from a node at most. -/
theorem walks_unique {ps qs : List (Word × List Word)} {last last' : Word} (h : m.Walks stop node ps last)
    (h' : m.Walks stop node qs last') : ps = qs := by
  induction ps generalizing node qs with
  | nil =>
    cases qs with
    | nil => rfl
    | cons q qs => exact absurd h.1 h'.1
  | cons p ps ih =>
    cases qs with
    | nil => exact absurd h'.1 h.1
    | cons q qs =>
      obtain ⟨-, -, hp, hrest⟩ := h
      obtain ⟨-, -, hq, hrest'⟩ := h'
      rw [hp, hq, ih hrest hrest']

/-- The rest of a walk, from what its last node before links to. -/
theorem walks_append {ps qs : List (Word × List Word)} {last : Word} (h : m.Walks stop node (ps ++ qs) last) :
    ∃ node', m.Walks stop node' qs last ∧ (ps = [] → node' = node) ∧ ∀ p ∈ ps.getLast?, node' = m.link p.1 := by
  induction ps generalizing node with
  | nil => exact ⟨node, h, fun _ => rfl, fun p hp => absurd hp (by simp)⟩
  | cons p ps ih =>
    obtain ⟨-, -, hp, hrest⟩ := h
    obtain ⟨node', hqs, hnil, hlast⟩ := ih hrest
    refine ⟨node', hqs, fun hcons => absurd hcons (by simp), fun q hq => ?_⟩
    cases ps with
    | nil =>
      obtain rfl : p = q := by simpa using hq
      rw [hnil rfl, hp]
    | cons p' ps' =>
      rw [List.getLast?_cons_cons] at hq
      exact hlast q hq

/-- A walk is the same where its words are. -/
theorem walks_congr {ps : List (Word × List Word)} {last : Word} (h : m.Walks stop node ps last)
    (hg : m'.geometry = m.geometry) (hu : m'.apertureUsed = m.apertureUsed)
    (hw : ∀ p ∈ ps, ∀ c ∈ nodeCells p.1 p.2.length, m'.word c = m.word c) : m'.Walks stop node ps last := by
  induction ps generalizing node with
  | nil => exact h
  | cons p ps ih =>
    obtain ⟨hstop, hvalid, hp, hrest⟩ := h
    have hcells := hw p (List.mem_cons_self ..)
    rw [hp] at hcells
    have htag : m'.word node = m.word node := hcells node (head_mem_nodeCells node _)
    have hcount : m'.count node = m.count node := by rw [PacketMemory.count, htag, PacketMemory.count]
    have hlink : m'.link node = m.link node := by rw [PacketMemory.link, htag, PacketMemory.link]
    refine ⟨hstop, ?_, ?_, ?_⟩
    · rw [hcount]
      unfold PacketMemory.valid at hvalid ⊢
      rwa [hg, hu]
    · rw [hp, PacketMemory.payload, PacketMemory.payload, hcount]
      refine Prod.ext rfl (List.map_congr_left fun j hj => (hcells _ (mem_nodeCells.2 ⟨j + 1, ?_, rfl⟩)).symm)
      have hj' := List.mem_range.1 hj
      simp only [PacketMemory.payload, List.length_map, List.length_range]
      omega
    · rw [hlink]
      exact ih hrest fun q hq => hw q (List.mem_cons_of_mem _ hq)

theorem tag_toNat (m : PacketMemory) (p : Word) : (m.word p).toNat = m.count p * 16777216 + (m.link p).toNat := by
  have hlink : (m.link p).toNat = (m.word p).toNat % 16777216 := by
    rw [PacketMemory.link, BitVec.toNat_and]
    exact Nat.and_two_pow_sub_one_eq_mod _ 24
  rw [hlink, PacketMemory.count, BitVec.toNat_ushiftRight, Nat.shiftRight_eq_div_pow]
  omega

/-- Memories with one walk between the same ends have the same words under it. -/
theorem walks_same {ps : List (Word × List Word)} {node' last : Word} (h : m.Walks stop node ps last)
    (h' : m'.Walks stop node' ps last) :
    ∀ p ∈ ps, ∀ c ∈ nodeCells p.1 p.2.length, m'.word c = m.word c := by
  induction ps generalizing node node' with
  | nil => exact fun p hp => absurd hp List.not_mem_nil
  | cons p ps ih =>
    obtain ⟨-, -, hp, hrest⟩ := h
    obtain ⟨-, -, hp', hrest'⟩ := h'
    have hnode : node' = node := congrArg Prod.fst (hp'.symm.trans hp)
    subst hnode
    have hpayload : m'.payload node' = m.payload node' := congrArg Prod.snd (hp'.symm.trans hp)
    have hcount : m'.count node' = m.count node' := by
      simpa [PacketMemory.payload] using congrArg List.length hpayload
    have hlink : m'.link node' = m.link node' := by
      cases ps with
      | nil => exact hrest'.2.symm.trans hrest.2
      | cons q qs => exact congrArg Prod.fst (hrest'.2.2.1.symm.trans hrest.2.2.1)
    intro q hq c hc
    cases List.mem_cons.1 hq with
    | inr hmem => exact ih hrest hrest' q hmem c hc
    | inl heq =>
      rw [heq, hp] at hc
      obtain ⟨j, hj, rfl⟩ := mem_nodeCells.1 hc
      simp only [PacketMemory.payload, List.length_map, List.length_range] at hj
      cases j with
      | zero =>
        rw [Nat.mul_zero, BitVec.add_zero]
        refine BitVec.eq_of_toNat_eq ?_
        rw [tag_toNat, tag_toNat, hcount, hlink]
      | succ j =>
        have hget := congrArg (fun l => l[j]?) hpayload
        simp only [PacketMemory.payload, List.getElem?_map] at hget
        rw [List.getElem?_range (by omega), List.getElem?_range (by omega)] at hget
        exact Option.some.inj hget

end Walks

end PsxRecomp.RenderPass
