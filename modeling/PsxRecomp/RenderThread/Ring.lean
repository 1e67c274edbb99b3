import PsxRecomp.Library.RingWindow
import PsxRecomp.Library.Wire

/-! The ring that the emulation thread records draw work into: the header of a record, and records that lie behind each
other in the ring without a break in one of them. -/
namespace PsxRecomp.RenderThread
open Wire
set_option autoImplicit false

/-! ## Bytes -/

abbrev Memory := ℕ → BitVec 8

def load (mem : Memory) (off n : ℕ) : Bytes := (List.range n).map fun i => mem (off + i)

def store (mem : Memory) (off : ℕ) (bs : Bytes) : Memory := fun a =>
  if off ≤ a ∧ a < off + bs.length then bs.getD (a - off) 0 else mem a

theorem load_congr {mem mem' : Memory} {off n : ℕ} (h : ∀ a, off ≤ a → a < off + n → mem' a = mem a) :
    load mem' off n = load mem off n :=
  List.map_congr_left fun _ hi => h _ (Nat.le_add_right ..) (Nat.add_lt_add_left (List.mem_range.1 hi) off)

theorem load_length (mem : Memory) (off n : ℕ) : (load mem off n).length = n := by simp [load]

theorem load_store (mem : Memory) (off : ℕ) (bs : Bytes) : load (store mem off bs) off bs.length = bs := by
  refine List.ext_getElem (by simp [load]) fun i _ h => ?_
  simp [load, store, h]

theorem store_apart {mem : Memory} {off a : ℕ} {bs : Bytes} (h : a < off ∨ off + bs.length ≤ a) :
    store mem off bs a = mem a := if_neg (by omega)

/-! ## Headers -/

/-- `RtCmd` -/
structure RtCmd where
  size : BitVec 32
  op : BitVec 16
  flags : BitVec 16
  payload : BitVec 32
  seq : BitVec 32
  deriving DecidableEq

namespace RtCmd

/-- The fields in memory, as the host lays them out. -/
def emit (c : RtCmd) : Bytes :=
  u32.emit c.size ++ (u16.emit c.op ++ (u16.emit c.flags ++ (u32.emit c.payload ++ u32.emit c.seq)))

def parse : Reader RtCmd := do
  let size ← u32.parse
  let op ← u16.parse
  let flags ← u16.parse
  let payload ← u32.parse
  let seq ← u32.parse
  pure ⟨size, op, flags, payload, seq⟩

/-- The header that a pointer into the ring points to. -/
def read (mem : Memory) (off : ℕ) : RtCmd :=
  match parse.run (load mem off 16) with
  | some (c, _) => c
  | none => ⟨0, 0, 0, 0, 0⟩

theorem emit_length (c : RtCmd) : c.emit.length = 16 := by
  simp [emit, word_length]

theorem load_store (mem : Memory) (off : ℕ) (c : RtCmd) : load (store mem off c.emit) off 16 = c.emit := by
  have h := RenderThread.load_store mem off c.emit
  rwa [emit_length] at h

theorem parse_emit (c : RtCmd) : parse.run c.emit = some (c, []) := by
  unfold parse emit
  rw [u32.bind trivial, u16.bind trivial, u16.bind trivial, u32.bind trivial]
  have h := @Field.bind _ RtCmd u32 c.seq trivial (fun seq => pure ⟨c.size, c.op, c.flags, c.payload, seq⟩) []
  rw [List.append_nil] at h
  exact h

theorem read_of_load {mem : Memory} {off : ℕ} {c : RtCmd} (h : load mem off 16 = c.emit) : read mem off = c := by
  unfold read
  rw [h, parse_emit]

end RtCmd

/-- A write in one piece, less than a turn of the ring ahead. -/
theorem store_ahead {cap x y : ℕ} {mem : Memory} {bs : Bytes} (hxy : x < y) (hturn : y + bs.length ≤ x + cap)
    (hwhole : y % cap + bs.length ≤ cap) : store mem (y % cap) bs (x % cap) = mem (x % cap) := by
  by_cases hin : y % cap ≤ x % cap ∧ x % cap < y % cap + bs.length
  · exfalso
    have hplace : (y + (x % cap - y % cap)) % cap = x % cap := by
      rw [Nat.add_mod, Nat.mod_eq_of_lt (show x % cap - y % cap < cap by omega), Nat.add_sub_cancel' hin.1]
      exact Nat.mod_eq_of_lt (by omega)
    have hne := RingWindow.place_ne x (show 0 < y - x + (x % cap - y % cap) by omega)
      (show y - x + (x % cap - y % cap) < cap by omega)
    rw [Nat.add_zero, show x + (y - x + (x % cap - y % cap)) = y + (x % cap - y % cap) by omega, hplace] at hne
    exact hne rfl
  · exact store_apart (by omega)

/-! ## Records -/

def alignUp (n : ℕ) : ℕ := (n + 15) / 16 * 16

/-- What stands in the ring: filler to its end, a frame marker or a command with its payload. -/
inductive Item where
  | pad (size : ℕ)
  | frame (seq : BitVec 32)
  | cmd (header : RtCmd) (payload : Bytes)

namespace Item

def header : Item → RtCmd
  | pad size => ⟨BitVec.ofNat 32 size, 0, 0, 0, 0⟩
  | frame seq => ⟨16, 0, 0x8000, 0, seq⟩
  | cmd h _ => h

def payload : Item → Bytes
  | cmd _ p => p
  | _ => []

def size (it : Item) : ℕ := it.header.size.toNat

/-- As the producer writes items. -/
def Valid : Item → Prop
  | cmd h p => h.op ≠ 0 ∧ p.length = h.payload.toNat
  | _ => True

/-- The item stands at an offset of the ring, in one piece and with room for all its bytes. -/
structure Stored (cap : ℕ) (mem : Memory) (off : ℕ) (it : Item) : Prop where
  whole : off + it.size ≤ cap
  room : 16 + it.payload.length ≤ it.size
  aligned : 16 ∣ it.size
  header : load mem off 16 = it.header.emit
  payload : load mem (off + 16) it.payload.length = it.payload

theorem Stored.congr {cap off : ℕ} {mem mem' : Memory} {it : Item} (h : it.Stored cap mem off)
    (hmem : ∀ a, off ≤ a → a < off + it.size → mem' a = mem a) : it.Stored cap mem' off := by
  have hroom := h.room
  refine ⟨h.whole, hroom, h.aligned, ?_, ?_⟩
  · rw [← h.header]
    exact load_congr fun a h1 h2 => hmem a h1 (by omega)
  · conv_rhs => rw [← h.payload]
    exact load_congr fun a h1 h2 => hmem a (by omega) (by omega)

/-- The commands among some items, with their payloads. -/
def commands : List Item → List (RtCmd × Bytes)
  | [] => []
  | cmd h p :: rest => (h, p) :: commands rest
  | _ :: rest => commands rest

def frames : List Item → ℕ
  | [] => 0
  | frame _ :: rest => frames rest + 1
  | _ :: rest => frames rest

theorem commands_append (l l' : List Item) : commands (l ++ l') = commands l ++ commands l' := by
  induction l with
  | nil => rfl
  | cons it rest ih => cases it <;> simp [commands, ih]

theorem frames_append (l l' : List Item) : frames (l ++ l') = frames l + frames l' := by
  induction l with
  | nil => simp [frames]
  | cons it rest ih =>
    cases it <;> simp only [frames, List.cons_append, ih]
    omega

end Item

/-- The items stand behind each other from one position to another, round the end of the ring. -/
def Laid (cap : ℕ) (mem : Memory) : ℕ → List Item → ℕ → Prop
  | p, [], q => p = q
  | p, it :: rest, q => it.Stored cap mem (p % cap) ∧ Laid cap mem (p + it.size) rest q

namespace Laid
variable {cap : ℕ} {mem mem' : Memory} {items : List Item} {p q : ℕ}

theorem le (h : Laid cap mem p items q) : p ≤ q := by
  induction items generalizing p with
  | nil => exact h.le
  | cons it rest ih => exact (Nat.le_add_right ..).trans (ih h.2)

/-- Nothing is left between two equal positions. -/
theorem nil_of_eq (h : Laid cap mem p items p) : items = [] := by
  cases items with
  | nil => rfl
  | cons it rest =>
    have := h.1.room
    have := le h.2
    omega

theorem snoc {it : Item} (h : Laid cap mem p items q) (hit : it.Stored cap mem (q % cap)) :
    Laid cap mem p (items ++ [it]) (q + it.size) := by
  induction items generalizing p with
  | nil =>
    cases h
    exact ⟨hit, rfl⟩
  | cons it' rest ih => exact ⟨h.1, ih h.2⟩

/-- Only what stands between the positions counts. -/
theorem congr (h : Laid cap mem p items q)
    (hmem : ∀ x, p ≤ x → x < q → mem' (x % cap) = mem (x % cap)) : Laid cap mem' p items q := by
  induction items generalizing p with
  | nil => exact h
  | cons it rest ih =>
    have hle := le h.2
    refine ⟨h.1.congr fun a h1 h2 => ?_, ih h.2 fun x h1 h2 => hmem x (by omega) h2⟩
    have hwhole := h.1.whole
    have hx : (p + (a - p % cap)) % cap = a := by
      have hcap : 0 < cap := by have := h.1.room; omega
      rw [Nat.add_mod, Nat.mod_eq_of_lt (show a - p % cap < cap by omega), Nat.add_sub_cancel' h1]
      exact Nat.mod_eq_of_lt (by omega)
    rw [← hx]
    exact hmem _ (Nat.le_add_right ..) (by omega)

/-- A write in one piece behind the items and less than a turn ahead of them. -/
theorem ahead (h : Laid cap mem p items q) {y : ℕ} {bs : Bytes} (hy : q ≤ y) (hturn : y + bs.length ≤ p + cap)
    (hwhole : y % cap + bs.length ≤ cap) : Laid cap (store mem (y % cap) bs) p items q :=
  h.congr fun _ _ _ => store_ahead (by omega) (by omega) hwhole

theorem append {items' : List Item} {r : ℕ} (h : Laid cap mem p items q) (h' : Laid cap mem q items' r) :
    Laid cap mem p (items ++ items') r := by
  induction items generalizing p with
  | nil =>
    cases h
    exact h'
  | cons it rest ih => exact ⟨h.1, ih h.2⟩

theorem aligned (h : Laid cap mem p items q) (hp : 16 ∣ p) : 16 ∣ q := by
  induction items generalizing p with
  | nil => exact h ▸ hp
  | cons it rest ih => exact ih h.2 (Nat.dvd_add hp h.1.aligned)

end Laid

end PsxRecomp.RenderThread
