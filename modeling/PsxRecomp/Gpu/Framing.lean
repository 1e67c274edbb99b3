import PsxRecomp.Gpu.Snapshot

/-! The packets a GP0 stream is made of, and what the parser makes of every stream of them: whole
packets, packets cut by a reset, and the snapshots that replace the parser under way. -/
namespace PsxRecomp.Gpu
set_option autoImplicit false

/-! ## Packets -/

/-- The packets of the command language. -/
inductive Packet where
  | fixed (head : Word) (args : List Word)
  | upload (head place dims : Word) (data : List Word)
  | mono (head v0 v1 : Word) (more : List Word) (stop : Word)
  | shaded (head v0 c1 v1 : Word) (more : List (Word × Word)) (stop : Word)

/-- Sizes count from one; zero is the largest. -/
def pixelColumns (dims : Word) : ℕ := if dims.toNat % 1024 = 0 then 1024 else dims.toNat % 1024

def pixelRows (dims : Word) : ℕ :=
  if dims.toNat / 65536 % 512 = 0 then 512 else dims.toNat / 65536 % 512

/-- Two pixels a word. -/
def uploadWords (dims : Word) : ℕ := (pixelColumns dims * pixelRows dims + 1) / 2

namespace Packet

def head : Packet → Word
  | fixed head _ => head
  | upload head _ _ _ => head
  | mono head _ _ _ _ => head
  | shaded head _ _ _ _ _ => head

/-- The reference grammar, with the lengths of the command table. -/
def WellFormed : Packet → Prop
  | fixed head args =>
    ¬(0xA0 ≤ opcodeOf head ∧ opcodeOf head ≤ 0xBF) ∧
      commandWordCount (opcodeOf head) = args.length + 1
  | upload head _ dims data =>
    (0xA0 ≤ opcodeOf head ∧ opcodeOf head ≤ 0xBF) ∧ data.length = uploadWords dims
  | mono head _ _ more stop =>
    (0x48 ≤ opcodeOf head ∧ opcodeOf head ≤ 0x4F) ∧
      (∀ v ∈ more, State.isTerminator v = false) ∧ State.isTerminator stop = true
  | shaded head _ _ _ more stop =>
    (0x58 ≤ opcodeOf head ∧ opcodeOf head ≤ 0x5F) ∧
      (∀ u ∈ more, State.isTerminator u.1 = false) ∧ State.isTerminator stop = true

/-- The last of some words does it. -/
def atLast (es : List Exec) : List Word → List (Word × List Exec)
  | [] => []
  | [w] => [(w, es)]
  | w :: v :: ws => (w, []) :: atLast es (v :: ws)

def dataSteps : List Word → List (Word × List Exec)
  | [] => []
  | [w] => [(w, [.data w, .uploaded])]
  | w :: v :: ws => (w, [.data w]) :: dataSteps (v :: ws)

def vertexStep (w : Word) : Word × List Exec := (w, [.vertex w])

def unitSteps (u : Word × Word) : List (Word × List Exec) := [(u.1, [.colour u.1]), vertexStep u.2]

/-- The words of a packet, each with what it makes the GPU do. -/
def steps : Packet → List (Word × List Exec)
  | fixed head args => atLast [.command (head :: args)] (head :: args)
  | upload head place dims data =>
    atLast [.command [head, place, dims]] [head, place, dims] ++ dataSteps data
  | mono head v0 v1 more stop =>
    (head, [.polyline head]) :: ((v0 :: v1 :: more).map vertexStep ++ [(stop, [])])
  | shaded head v0 c1 v1 more stop =>
    (head, [.polyline head]) :: vertexStep v0 ::
      (((c1, v1) :: more).flatMap unitSteps ++ [(stop, [])])

end Packet

/-! ## Reading words -/

/-- The GPU answers each word with its executions. -/
def Reads (R : Raster) : List (Word × List Exec) → State → State → Prop
  | [], g, g' => g' = g
  | s :: rest, g, g' => (g.writeGp0 R s.1).2 = s.2 ∧ Reads R rest (g.writeGp0 R s.1).1 g'

variable {R : Raster}

theorem Reads.append {a b : List (Word × List Exec)} {g g' g'' : State} (ha : Reads R a g g')
    (hb : Reads R b g' g'') : Reads R (a ++ b) g g'' := by
  induction a generalizing g with
  | nil =>
    obtain rfl := ha
    exact hb
  | cons s a ih => exact ⟨ha.1, ih ha.2⟩

theorem Reads.take {a : List (Word × List Exec)} {g g' : State} (h : Reads R a g g') (n : ℕ) :
    ∃ g'', Reads R (a.take n) g g'' := by
  induction n generalizing a g with
  | zero => exact ⟨g, rfl⟩
  | succ n ih =>
    cases a with
    | nil => exact ⟨g, rfl⟩
    | cons s a =>
      obtain ⟨g'', hg⟩ := ih h.2
      exact ⟨g'', h.1, hg⟩

/-- One word of a stretch. -/
theorem Reads.cons {w : Word} {es : List Exec} {rest : List (Word × List Exec)} {g g' g'' : State}
    (h : g.writeGp0 R w = (g', es)) (hr : Reads R rest g' g'') : Reads R ((w, es) :: rest) g g'' := by
  refine ⟨?_, ?_⟩
  · rw [h]
  · rw [h]
    exact hr

/-! ## Fixed-length packets -/

def State.Idle (g : State) : Prop := g.parser.state = .idle

/-- The words of a command are in the buffer. -/
structure Loaded (words : List Word) (g : State) : Prop where
  fits : words.length ≤ 16
  needed : g.parser.wordsNeeded.toNat = words.length
  buf : ∀ (i : ℕ) (hi : i < words.length), g.parser.cmdBuf ⟨i, by omega⟩ = words[i]

theorem Loaded.head {w : Word} {words : List Word} {g : State} (h : Loaded (w :: words) g) :
    g.buf 0 = w := h.buf 0 (Nat.succ_pos _)

theorem Loaded.command {w : Word} {words : List Word} {g : State} (h : Loaded (w :: words) g) :
    g.command = w :: words := by
  have htake : (List.ofFn g.parser.cmdBuf).take g.parser.wordsNeeded.toNat = w :: words := by
    refine List.ext_getElem ?_ fun i hi hi' => ?_
    · rw [List.length_take, List.length_ofFn, h.needed]
      exact Nat.min_eq_left h.fits
    · rw [← h.buf i hi']
      simp only [List.getElem_take, List.getElem_ofFn]
  rw [State.command, h.head, htake, List.tail_cons]

theorem opcodeOf_lt (w : Word) : opcodeOf w < 256 := by
  rw [opcodeOf, BitVec.toNat_ushiftRight, Nat.shiftRight_eq_div_pow]
  omega

set_option maxRecDepth 2000 in
/-- The two tables, opcode by opcode: they agree on every opcode but one. -/
theorem opcode_tables {op : ℕ} (hop : op < 256) :
    (0 < commandWordCount op → op ≠ 0x1F → handler op ≠ .unimplemented) ∧
    (handler op = .cpuToVram ↔ 0xA0 ≤ op ∧ op ≤ 0xBF) ∧
    (0xA0 ≤ op ∧ op ≤ 0xBF → commandWordCount op = 3) ∧
    (0x48 ≤ op ∧ op ≤ 0x4F → commandWordCount op = -1 ∧ op.testBit 4 = false) ∧
    (0x58 ≤ op ∧ op ≤ 0x5F → commandWordCount op = -1 ∧ op.testBit 4 = true) ∧
    commandWordCount op ≤ 12 := by
  revert op
  decide

theorem handler_of_count {op : ℕ} (hop : op < 256) (hcount : 0 < commandWordCount op)
    (hne : op ≠ 0x1F) : handler op ≠ .unimplemented := (opcode_tables hop).1 hcount hne

theorem handler_upload {op : ℕ} (hop : op < 256) :
    handler op = .cpuToVram ↔ 0xA0 ≤ op ∧ op ≤ 0xBF := (opcode_tables hop).2.1

theorem upload_count {op : ℕ} (hop : op < 256) (h : 0xA0 ≤ op ∧ op ≤ 0xBF) :
    commandWordCount op = 3 := (opcode_tables hop).2.2.1 h

theorem mono_count {op : ℕ} (hop : op < 256) (h : 0x48 ≤ op ∧ op ≤ 0x4F) :
    commandWordCount op = -1 ∧ op.testBit 4 = false := (opcode_tables hop).2.2.2.1 h

theorem shaded_count {op : ℕ} (hop : op < 256) (h : 0x58 ≤ op ∧ op ≤ 0x5F) :
    commandWordCount op = -1 ∧ op.testBit 4 = true := (opcode_tables hop).2.2.2.2.1 h

theorem commandWordCount_le {op : ℕ} (hop : op < 256) : commandWordCount op ≤ 12 :=
  (opcode_tables hop).2.2.2.2.2

/-- A command that starts no upload leaves the parser alone. -/
theorem dispatch_parsed {g g' : State} (h : g.dispatch R = some g')
    (hup : handler (opcodeOf (g.buf 0)) ≠ .cpuToVram) : g'.parser = g.parser := by
  unfold State.dispatch at h
  split at h
  case h_11 heq => exact absurd heq hup
  all_goals cases h
  all_goals rfl

theorem dispatch_isSome {g : State} (h : handler (opcodeOf (g.buf 0)) ≠ .unimplemented) :
    ∃ g', g.dispatch R = some g' := by
  unfold State.dispatch
  split
  case h_13 heq => exact absurd heq h
  all_goals exact ⟨_, rfl⟩

theorem execute_loaded {w : Word} {words : List Word} {g : State} (hl : Loaded (w :: words) g)
    (h : handler (opcodeOf w) ≠ .unimplemented) :
    ∃ g', g.dispatch R = some g' ∧ g.execute R = (g', [.command (w :: words)]) := by
  obtain ⟨g', hg⟩ := dispatch_isSome (R := R) (hl.head.symm ▸ h)
  refine ⟨g', hg, ?_⟩
  rw [State.execute, hg, hl.command]

/-- Words of a command under way. -/
structure Collecting (words : List Word) (n : ℕ) (g : State) : Prop where
  state : g.parser.state = .collecting
  more : words.length < n
  fits : n ≤ 16
  needed : g.parser.wordsNeeded.toNat = n
  collected : g.parser.wordsCollected.toNat = words.length
  buf : ∀ (i : ℕ) (hi : i < words.length), g.parser.cmdBuf ⟨i, by omega⟩ = words[i]

theorem slt_small {a b : Word} (ha : a.toNat ≤ 16) (hb : b.toNat ≤ 16) :
    a.slt b = decide (a.toNat < b.toNat) := by
  rw [BitVec.slt_eq_decide, BitVec.toInt_eq_toNat_of_lt (by omega),
    BitVec.toInt_eq_toNat_of_lt (by omega)]
  simp

theorem succ_small {a : Word} (ha : a.toNat < 16) : (a + 1).toNat = a.toNat + 1 := by
  rw [BitVec.toNat_add]
  exact Nat.mod_eq_of_lt (by simp; omega)

/-- The buffer with one more word in it. -/
theorem buffered {words : List Word} {buf : Fin 16 → Word} (val : Word) (h16 : words.length < 16)
    (h : ∀ (i : ℕ) (hi : i < words.length), buf ⟨i, by omega⟩ = words[i]) (i : ℕ)
    (hi : i < (words ++ [val]).length) (hi16 : i < 16) :
    Function.update buf ⟨words.length, h16⟩ val ⟨i, hi16⟩ = (words ++ [val])[i] := by
  rw [List.length_append, List.length_singleton] at hi
  rcases Nat.lt_or_ge i words.length with hlt | hge
  · rw [Function.update_of_ne (by simp only [ne_eq, Fin.mk.injEq]; omega), h i hlt,
      List.getElem_append_left hlt]
  · obtain rfl : i = words.length := by omega
    rw [Function.update_self, List.getElem_concat_length rfl]

theorem collect_more {words : List Word} {n : ℕ} {g : State} (hc : Collecting words n g) (val : Word)
    (hn : words.length + 1 < n) :
    ∃ g', g.writeGp0 R val = (g', []) ∧ Collecting (words ++ [val]) n g' := by
  have h16 := hc.fits
  have hlt : g.parser.wordsCollected.toNat < 16 := by rw [hc.collected]; omega
  have hsucc : (g.parser.wordsCollected + 1).toNat = words.length + 1 := by
    rw [succ_small hlt, hc.collected]
  have hslt : (g.parser.wordsCollected + 1).slt g.parser.wordsNeeded = true := by
    rw [slt_small (by omega) (by rw [hc.needed]; omega), hsucc, hc.needed]
    exact decide_eq_true hn
  simp only [State.writeGp0, hc.state, State.collect, dif_pos hlt, if_pos hslt]
  have hlen : (words ++ [val]).length = words.length + 1 := by simp
  exact ⟨_, rfl,
    { state := rfl
      more := hlen ▸ hn
      fits := h16
      needed := hc.needed
      collected := hsucc.trans hlen.symm
      buf := fun i hi => by
        have := buffered val (by omega) hc.buf i hi (by omega)
        simpa only [hc.collected] using this }⟩

theorem collect_last {words : List Word} {n : ℕ} {g : State} (hc : Collecting words n g) (val : Word)
    (hn : words.length + 1 = n) :
    ∃ g', g.writeGp0 R val = g'.execute R ∧ Loaded (words ++ [val]) g' ∧ g'.Idle := by
  have h16 := hc.fits
  have hlt : g.parser.wordsCollected.toNat < 16 := by rw [hc.collected]; omega
  have hsucc : (g.parser.wordsCollected + 1).toNat = words.length + 1 := by
    rw [succ_small hlt, hc.collected]
  have hslt : ¬(g.parser.wordsCollected + 1).slt g.parser.wordsNeeded = true := by
    rw [slt_small (by omega) (by rw [hc.needed]; omega), hsucc, hc.needed]
    simp [hn]
  simp only [State.writeGp0, hc.state, State.collect, dif_pos hlt, if_neg hslt]
  have hlen : (words ++ [val]).length = n := by simp [hn]
  exact ⟨_, rfl,
    { fits := hlen ▸ h16
      needed := hc.needed.trans hlen.symm
      buf := fun i hi => by
        have := buffered val (by omega) hc.buf i hi (by omega)
        simpa only [State.goTo, hc.collected] using this }, rfl⟩

/-- The words behind the head; the induction is on those still to come. -/
theorem reads_args {done rest : List Word} {n : ℕ} {g : State} (hc : Collecting done n g)
    (hne : rest ≠ []) (hlen : done.length + rest.length = n) :
    ∃ g', Loaded (done ++ rest) g' ∧ g'.Idle ∧
      Reads R (Packet.atLast (g'.execute R).2 rest) g (g'.execute R).1 := by
  induction rest generalizing done g with
  | nil => exact absurd rfl hne
  | cons w rest ih =>
    cases rest with
    | nil =>
      obtain ⟨g', hw, hl, hi⟩ := collect_last (R := R) hc w hlen
      exact ⟨g', hl, hi, Reads.cons hw rfl⟩
    | cons v rest =>
      obtain ⟨g₁, hw, hc₁⟩ := collect_more (R := R) hc w (by simp at hlen; omega)
      obtain ⟨g', hl, hi, hr⟩ := ih hc₁ (List.cons_ne_nil v rest)
        (by simp only [List.length_append, List.length_cons, List.length_nil] at hlen ⊢; omega)
      rw [List.append_assoc] at hl
      exact ⟨g', hl, hi, Reads.cons hw hr⟩

theorem reads_command {head : Word} {args : List Word} {g : State} (hg : g.Idle)
    (hcount : commandWordCount (opcodeOf head) = args.length + 1) :
    ∃ g', Loaded (head :: args) g' ∧ g'.Idle ∧
      Reads R (Packet.atLast (g'.execute R).2 (head :: args)) g (g'.execute R).1 := by
  have hle := commandWordCount_le (opcodeOf_lt head)
  have hneeded : (BitVec.ofInt 32 (args.length + 1 : ℤ)).toNat = args.length + 1 := by
    have : ((args.length : ℤ) + 1) = ((args.length + 1 : ℕ) : ℤ) := by push_cast; rfl
    rw [this, BitVec.ofInt_natCast, BitVec.toNat_ofNat]
    omega
  have hbegin : ∀ (i : ℕ) (hi : i < [head].length),
      Function.update g.parser.cmdBuf 0 head ⟨i, by simp at hi; omega⟩ = [head][i] := by
    intro i hi
    obtain rfl : i = 0 := by simpa using hi
    exact Function.update_self ..
  have hw : g.writeGp0 R head = g.begin R head := by rw [State.writeGp0, show g.parser.state = _ from hg]
  rw [← hcount] at hneeded
  have hpos : ¬commandWordCount (opcodeOf head) = 0 ∧ ¬commandWordCount (opcodeOf head) < 0 := by omega
  cases args with
  | nil =>
    have hone : commandWordCount (opcodeOf head) = 1 := by simpa using hcount
    rw [State.begin, if_neg hpos.1, if_neg hpos.2, if_pos hone] at hw
    exact ⟨g.start head _, ⟨by simp, hneeded, hbegin⟩, hg, Reads.cons hw rfl⟩
  | cons w args =>
    have hmore : commandWordCount (opcodeOf head) ≠ 1 := by
      rw [hcount, List.length_cons]
      omega
    rw [State.begin, if_neg hpos.1, if_neg hpos.2, if_neg hmore] at hw
    have hlen : 1 + (w :: args).length ≤ 12 := by omega
    have hc : Collecting [head] (1 + (w :: args).length)
        ((g.start head (commandWordCount (opcodeOf head))).goTo .collecting) :=
      { state := rfl
        more := by simp
        fits := by omega
        needed := hneeded.trans (Nat.add_comm _ _)
        collected := rfl
        buf := hbegin }
    obtain ⟨g', hl, hi, hr⟩ := reads_args (R := R) hc (List.cons_ne_nil w args) rfl
    exact ⟨g', hl, hi, Reads.cons hw hr⟩

/-! ## Uploads -/

theorem transferW_toNat (dims : Word) : (transferW dims).toNat = pixelColumns dims := by
  have hand : (dims &&& 0x3FF).toNat = dims.toNat % 1024 := by
    rw [BitVec.toNat_and]
    exact Nat.and_two_pow_sub_one_eq_mod dims.toNat 10
  have hzero : dims &&& 0x3FF = 0 ↔ dims.toNat % 1024 = 0 := by
    rw [← hand, ← BitVec.toNat_inj]
    rfl
  simp only [transferW, pixelColumns, hzero]
  split
  · rfl
  · rw [BitVec.toNat_setWidth, hand]
    omega

theorem transferH_toNat (dims : Word) : (transferH dims).toNat = pixelRows dims := by
  have hand : ((dims >>> (16 : ℕ)) &&& 0x1FF).toNat = dims.toNat / 65536 % 512 := by
    rw [BitVec.toNat_and, BitVec.toNat_ushiftRight, Nat.shiftRight_eq_div_pow]
    exact Nat.and_two_pow_sub_one_eq_mod (dims.toNat / 65536) 9
  have hzero : (dims >>> (16 : ℕ)) &&& 0x1FF = 0 ↔ dims.toNat / 65536 % 512 = 0 := by
    rw [← hand, ← BitVec.toNat_inj]
    rfl
  simp only [transferH, pixelRows, hzero]
  split
  · rfl
  · rw [BitVec.toNat_setWidth, hand]
    omega

theorem pixelColumns_range (dims : Word) : 0 < pixelColumns dims ∧ pixelColumns dims ≤ 1024 := by
  unfold pixelColumns
  split <;> omega

theorem pixelRows_range (dims : Word) : 0 < pixelRows dims ∧ pixelRows dims ≤ 512 := by
  unfold pixelRows
  split <;> omega

/-- The pixel that comes next, counted along the rows. -/
structure AtPixel (w h p : ℕ) (u : Upload) : Prop where
  width : u.w.toNat = w
  height : u.h.toNat = h
  col : u.col.toNat < w
  row : u.row.toNat < h
  place : u.row.toNat * w + u.col.toNat = p

theorem AtPixel.lt {w h p : ℕ} {u : Upload} (ha : AtPixel w h p u) : p < w * h := by
  have h1 : (u.row.toNat + 1) * w ≤ h * w := Nat.mul_le_mul_right w ha.row
  have h2 := ha.col
  have h3 := ha.place
  rw [Nat.succ_mul] at h1
  rw [Nat.mul_comm w h]
  omega

theorem half_succ {a : Half} {n : ℕ} (h : a.toNat < n) (hn : n ≤ 1024) :
    (a + 1).toNat = a.toNat + 1 := by
  rw [BitVec.toNat_add]
  exact Nat.mod_eq_of_lt (by simp; omega)

theorem storePixel_upload (pixel : Half) (g : State) : (g.storePixel pixel).upload = g.upload := by
  unfold State.storePixel
  dsimp only
  split <;> rfl

theorem storePixel_parsed (pixel : Half) (g : State) : (g.storePixel pixel).parser = g.parser := by
  unfold State.storePixel
  dsimp only
  split <;> rfl

theorem uploadPixel_frame (pixel : Half) (g : State) :
    (g.uploadPixel pixel).1.parser = g.parser ∧
      (g.uploadPixel pixel).1.upload.remaining = g.upload.remaining := by
  unfold State.uploadPixel
  dsimp only
  split <;> simp only [storePixel_parsed, storePixel_upload, and_self]

/-- One pixel on: the last of the array, or another place in it. -/
theorem uploadPixel_at {w h p : ℕ} {g : State} (hw : w ≤ 1024) (hh : h ≤ 512) (pixel : Half)
    (ha : AtPixel w h p g.upload) :
    ((g.uploadPixel pixel).2 = true ∧ p + 1 = w * h) ∨
      ((g.uploadPixel pixel).2 = false ∧ AtPixel w h (p + 1) (g.uploadPixel pixel).1.upload) := by
  have hcol := half_succ ha.col hw
  have hrow := half_succ ha.row (by omega)
  have hplace := ha.place
  have hcoleq : g.upload.col + 1 = g.upload.w ↔ g.upload.col.toNat + 1 = w := by
    rw [← BitVec.toNat_inj, hcol, ha.width]
  have hroweq : g.upload.row + 1 = g.upload.h ↔ g.upload.row.toNat + 1 = h := by
    rw [← BitVec.toNat_inj, hrow, ha.height]
  unfold State.uploadPixel
  simp only [storePixel_upload, hcoleq, hroweq]
  by_cases hend : g.upload.col.toNat + 1 = w
  · rw [if_pos hend]
    have hp : p + 1 = (g.upload.row.toNat + 1) * w := by
      rw [Nat.succ_mul]
      omega
    by_cases hlast : g.upload.row.toNat + 1 = h
    · refine .inl ⟨decide_eq_true hlast, ?_⟩
      rw [hp, hlast, Nat.mul_comm]
    · refine .inr ⟨decide_eq_false hlast, ?_⟩
      have := ha.row
      have := ha.col
      exact ⟨ha.width, ha.height, by simp; omega, by simp only [hrow]; omega,
        by simp only [hrow]; rw [hp]; rfl⟩
  · rw [if_neg hend]
    have := ha.col
    exact .inr ⟨rfl, ha.width, ha.height, by simp only [hcol]; omega, ha.row,
      by simp only [hcol]; omega⟩

/-- Data words of an upload under way: two pixels each. -/
structure Uploading (w h j : ℕ) (g : State) : Prop where
  state : g.parser.state = .vramWrite
  place : AtPixel w h (2 * j) g.upload
  remaining : g.upload.remaining.toNat = (w * h + 1) / 2 - j

theorem pixels_le {w h : ℕ} (hw : w ≤ 1024) (hh : h ≤ 512) : w * h ≤ 524288 :=
  Nat.mul_le_mul hw hh

theorem upload_word {w h j : ℕ} {g : State} (hw : w ≤ 1024) (hh : h ≤ 512) (val : Word)
    (hu : Uploading w h j g) :
    (∃ g', g.writeGp0 R val = (g', [.data val, .uploaded]) ∧ j + 1 = (w * h + 1) / 2 ∧ g'.Idle) ∨
      ∃ g', g.writeGp0 R val = (g', [.data val]) ∧ j + 1 < (w * h + 1) / 2 ∧
        Uploading w h (j + 1) g' := by
  have hlt := hu.place.lt
  have hle := pixels_le hw hh
  simp only [State.writeGp0, hu.state, State.writeData]
  have h1 := uploadPixel_at hw hh (val.setWidth 16) hu.place
  have f1 := uploadPixel_frame (val.setWidth 16) g
  revert h1 f1
  generalize g.uploadPixel (val.setWidth 16) = a
  intro h1 f1
  rcases h1 with ⟨hd, hp⟩ | ⟨hd, ha⟩
  · rw [if_pos hd]
    exact .inl ⟨_, rfl, by omega, rfl⟩
  · rw [if_neg (by simp [hd])]
    have hlt' := ha.lt
    have h2 := uploadPixel_at hw hh ((val >>> (16 : ℕ)).setWidth 16) ha
    have f2 := uploadPixel_frame ((val >>> (16 : ℕ)).setWidth 16) a.1
    revert h2 f2
    generalize a.1.uploadPixel ((val >>> (16 : ℕ)).setWidth 16) = b
    intro h2 f2
    have hrem : b.1.upload.remaining.toNat = (w * h + 1) / 2 - j := by
      rw [f2.2, f1.2, hu.remaining]
    rcases h2 with ⟨hd, hp⟩ | ⟨hd, hb⟩
    · rw [if_pos hd]
      exact .inl ⟨_, rfl, by omega, rfl⟩
    · have hlt'' := hb.lt
      have hsub : (b.1.upload.remaining - 1).toNat = (w * h + 1) / 2 - (j + 1) := by
        rw [BitVec.toNat_sub_of_le (by rw [BitVec.le_def, hrem]; simp; omega), hrem]
        simp
        omega
      have hne : b.1.upload.remaining - 1 ≠ 0 := by
        intro h0
        rw [h0] at hsub
        simp at hsub
        omega
      rw [if_neg (by simp [hd]), if_neg hne]
      exact .inr ⟨_, rfl, by omega,
        { state := by rw [f2.1, f1.1, hu.state]
          place := ⟨hb.width, hb.height, hb.col, hb.row, hb.place⟩
          remaining := hsub }⟩

theorem reads_data {w h j : ℕ} {data : List Word} {g : State} (hw : w ≤ 1024) (hh : h ≤ 512)
    (hu : Uploading w h j g) (hlen : j + data.length = (w * h + 1) / 2) :
    ∃ g', g'.Idle ∧ Reads R (Packet.dataSteps data) g g' := by
  induction data generalizing j g with
  | nil =>
    have := hu.place.lt
    simp only [List.length_nil] at hlen
    omega
  | cons v data ih =>
    rw [List.length_cons] at hlen
    cases data with
    | nil =>
      rcases upload_word (R := R) hw hh v hu with ⟨g', hv, -, hi⟩ | ⟨g', -, hlt, -⟩
      · exact ⟨g', hi, Reads.cons hv rfl⟩
      · simp only [List.length_nil] at hlen
        omega
    | cons x data =>
      rcases upload_word (R := R) hw hh v hu with ⟨g', -, hend, -⟩ | ⟨g', hv, -, hu'⟩
      · simp only [List.length_cons] at hlen
        omega
      · obtain ⟨g'', hi, hr⟩ := ih hu' (by omega)
        exact ⟨g'', hi, Reads.cons hv hr⟩

/-- The header of an upload leaves its first pixel next. -/
theorem execCpuToVram_uploading {head place dims : Word} {g : State}
    (hl : Loaded [head, place, dims] g) :
    Uploading (pixelColumns dims) (pixelRows dims) 0 g.execCpuToVram := by
  have hdims : g.buf 2 = dims := hl.buf 2 (by simp)
  obtain ⟨hw, hw'⟩ := pixelColumns_range dims
  obtain ⟨hh, hh'⟩ := pixelRows_range dims
  have hle := pixels_le hw' hh'
  have hrem : (((transferW dims).setWidth 32 * (transferH dims).setWidth 32 + 1) / 2 : Word).toNat =
      (pixelColumns dims * pixelRows dims + 1) / 2 := by
    rw [BitVec.toNat_udiv, BitVec.toNat_add, BitVec.toNat_mul, BitVec.toNat_setWidth,
      BitVec.toNat_setWidth, transferW_toNat, transferH_toNat,
      Nat.mod_eq_of_lt (show pixelColumns dims < 2 ^ 32 by omega),
      Nat.mod_eq_of_lt (show pixelRows dims < 2 ^ 32 by omega),
      Nat.mod_eq_of_lt (show pixelColumns dims * pixelRows dims < 2 ^ 32 by omega)]
    simp
    omega
  have hpos := Nat.mul_pos hw hh
  have hgo : (0 : Word) < ((transferW dims).setWidth 32 * (transferH dims).setWidth 32 + 1) / 2 := by
    rw [BitVec.lt_def, hrem]
    simp
    omega
  simp only [State.execCpuToVram, hdims, if_pos hgo]
  exact
    { state := rfl
      place := ⟨transferW_toNat dims, transferH_toNat dims, by simpa using hw, by simpa using hh,
        by simp⟩
      remaining := hrem }

theorem dispatch_upload {g : State} (h : handler (opcodeOf (g.buf 0)) = .cpuToVram) :
    g.dispatch R = some g.execCpuToVram := by
  unfold State.dispatch
  rw [h]

/-! ## Polylines -/

/-- `more` words of a polyline whose next word is number `hasPrev`. -/
def State.InPolyline (s : Gp0State) (hasPrev : Word) (g : State) : Prop :=
  g.parser.state = s ∧ g.poly.hasPrev = hasPrev

theorem begin_polyline {head : Word} {g : State} (hg : g.Idle)
    (hcount : commandWordCount (opcodeOf head) = -1) :
    ∃ g', g.writeGp0 R head = (g', [.polyline head]) ∧
      g'.InPolyline (if (opcodeOf head).testBit 4 then .polylineShaded else .polylineMono) 0 := by
  simp only [State.writeGp0, show g.parser.state = _ from hg, State.begin, hcount]
  exact ⟨_, rfl, rfl, rfl⟩

theorem mono_vertex {n : Word} {g : State} (hg : g.InPolyline .polylineMono n) (v : Word)
    (h : (1 : Word).slt n = true → State.isTerminator v = false) :
    ∃ g', g.writeGp0 R v = (g', [.vertex v]) ∧
      g'.InPolyline .polylineMono (if n.slt 2 then n + 1 else n) := by
  have hstop : ¬((1 : Word).slt n = true ∧ State.isTerminator v = true) := fun ⟨hn, hv⟩ => by
    rw [h hn] at hv
    exact Bool.noConfusion hv
  simp only [State.writeGp0, hg.1, State.writeMono, hg.2, if_neg hstop]
  exact ⟨_, rfl, hg.1, rfl⟩

theorem mono_stop {g : State} (hg : g.InPolyline .polylineMono 2) {v : Word}
    (h : State.isTerminator v = true) : ∃ g', g.writeGp0 R v = (g', []) ∧ g'.Idle := by
  have hstop : (1 : Word).slt 2 = true ∧ State.isTerminator v = true := ⟨by decide, h⟩
  simp only [State.writeGp0, hg.1, State.writeMono, hg.2, if_pos hstop]
  exact ⟨_, rfl, rfl⟩

theorem reads_vertices {more : List Word} {g : State} (hg : g.InPolyline .polylineMono 2)
    (h : ∀ v ∈ more, State.isTerminator v = false) :
    ∃ g', g'.InPolyline .polylineMono 2 ∧ Reads R (more.map Packet.vertexStep) g g' := by
  induction more generalizing g with
  | nil => exact ⟨g, hg, rfl⟩
  | cons v more ih =>
    obtain ⟨hv, hmore⟩ := List.forall_mem_cons.1 h
    obtain ⟨g₁, h₁, hg₁⟩ := mono_vertex (R := R) hg v fun _ => hv
    obtain ⟨g', hg', hr⟩ := ih hg₁ hmore
    exact ⟨g', hg', Reads.cons h₁ hr⟩

theorem shaded_first {g : State} (hg : g.InPolyline .polylineShaded 0) (v : Word) :
    ∃ g', g.writeGp0 R v = (g', [.vertex v]) ∧ g'.InPolyline .polylineShaded 1 := by
  simp only [State.writeGp0, hg.1, State.writeShaded, hg.2]
  exact ⟨_, rfl, hg.1, rfl⟩

theorem shaded_colour {n : Word} {g : State} (hg : g.InPolyline .polylineShaded n)
    (hn : n = 1 ∨ n = 3) (c : Word) (h : n = 3 → State.isTerminator c = false) :
    ∃ g', g.writeGp0 R c = (g', [.colour c]) ∧ g'.InPolyline .polylineShaded 2 := by
  have hzero : n ≠ 0 := by
    rintro rfl
    exact absurd hn (by decide)
  have hstop : ¬(n = 3 ∧ State.isTerminator c = true) := fun ⟨hn, hc⟩ => by
    rw [h hn] at hc
    exact Bool.noConfusion hc
  simp only [State.writeGp0, hg.1, State.writeShaded, hg.2, if_neg hzero, if_pos hn, if_neg hstop]
  exact ⟨_, rfl, hg.1, rfl⟩

theorem shaded_vertex {g : State} (hg : g.InPolyline .polylineShaded 2) (v : Word) :
    ∃ g', g.writeGp0 R v = (g', [.vertex v]) ∧ g'.InPolyline .polylineShaded 3 := by
  simp only [State.writeGp0, hg.1, State.writeShaded, hg.2]
  exact ⟨_, rfl, hg.1, rfl⟩

theorem shaded_stop {g : State} (hg : g.InPolyline .polylineShaded 3) {c : Word}
    (h : State.isTerminator c = true) : ∃ g', g.writeGp0 R c = (g', []) ∧ g'.Idle := by
  simp only [State.writeGp0, hg.1, State.writeShaded, hg.2, h]
  exact ⟨_, rfl, rfl⟩

theorem reads_unit {n : Word} {g : State} (hg : g.InPolyline .polylineShaded n) (hn : n = 1 ∨ n = 3)
    (u : Word × Word) (h : n = 3 → State.isTerminator u.1 = false) :
    ∃ g', g'.InPolyline .polylineShaded 3 ∧ Reads R (Packet.unitSteps u) g g' := by
  obtain ⟨g₁, h₁, hg₁⟩ := shaded_colour (R := R) hg hn u.1 h
  obtain ⟨g₂, h₂, hg₂⟩ := shaded_vertex (R := R) hg₁ u.2
  exact ⟨g₂, hg₂, Reads.cons h₁ (Reads.cons h₂ rfl)⟩

theorem reads_units {more : List (Word × Word)} {g : State} (hg : g.InPolyline .polylineShaded 3)
    (h : ∀ u ∈ more, State.isTerminator u.1 = false) :
    ∃ g', g'.InPolyline .polylineShaded 3 ∧ Reads R (more.flatMap Packet.unitSteps) g g' := by
  induction more generalizing g with
  | nil => exact ⟨g, hg, rfl⟩
  | cons u more ih =>
    obtain ⟨hu, hmore⟩ := List.forall_mem_cons.1 h
    obtain ⟨g₁, hg₁, h₁⟩ := reads_unit (R := R) hg (.inr rfl) u fun _ => hu
    obtain ⟨g', hg', hr⟩ := ih hg₁ hmore
    exact ⟨g', hg', h₁.append hr⟩

/-! ## Whole packets -/

/-- The opcode that one table has and the other lacks. -/
def Packet.Implemented (p : Packet) : Prop := opcodeOf p.head ≠ 0x1F

theorem reads_packet {p : Packet} {g : State} (hg : g.Idle) (hp : p.WellFormed)
    (himp : p.Implemented) : ∃ g', g'.Idle ∧ Reads R p.steps g g' := by
  cases p with
  | fixed head args =>
    obtain ⟨hup, hcount⟩ := hp
    obtain ⟨g₁, hl, hi, hr⟩ := reads_command (R := R) hg hcount
    have hhandler := handler_of_count (opcodeOf_lt head) (by omega) himp
    obtain ⟨g₂, hd, he⟩ := execute_loaded (R := R) hl hhandler
    rw [he] at hr
    have hparser := dispatch_parsed hd (by
      rw [hl.head]
      exact fun h => hup ((handler_upload (opcodeOf_lt head)).1 h))
    exact ⟨g₂, (congrArg Parser.state hparser).trans hi, hr⟩
  | upload head place dims data =>
    obtain ⟨hup, hlen⟩ := hp
    have hcpu := (handler_upload (opcodeOf_lt head)).2 hup
    have hcount : commandWordCount (opcodeOf head) = [place, dims].length + 1 :=
      upload_count (opcodeOf_lt head) hup
    obtain ⟨g₁, hl, -, hr⟩ := reads_command (R := R) hg hcount
    obtain ⟨g₂, hd, he⟩ := execute_loaded (R := R) hl (by rw [hcpu]; exact Handler.noConfusion)
    rw [he] at hr
    rw [dispatch_upload (by rw [hl.head]; exact hcpu), Option.some.injEq] at hd
    subst hd
    obtain ⟨g', hi, hdata⟩ := reads_data (R := R) (pixelColumns_range dims).2
      (pixelRows_range dims).2 (execCpuToVram_uploading hl) (by rw [Nat.zero_add]; exact hlen)
    exact ⟨g', hi, hr.append hdata⟩
  | mono head v0 v1 more stop =>
    obtain ⟨hop, hmore, hstop⟩ := hp
    obtain ⟨hcount, hbit⟩ := mono_count (opcodeOf_lt head) hop
    obtain ⟨g₀, h₀, hg₀⟩ := begin_polyline (R := R) hg hcount
    rw [hbit] at hg₀
    obtain ⟨g₁, h₁, hg₁⟩ := mono_vertex (R := R) hg₀ v0 (fun h => absurd h (by decide))
    obtain ⟨g₂, h₂, hg₂⟩ := mono_vertex (R := R) hg₁ v1 (fun h => absurd h (by decide))
    obtain ⟨g₃, hg₃, h₃⟩ := reads_vertices (R := R) hg₂ hmore
    obtain ⟨g₄, h₄, hi⟩ := mono_stop (R := R) hg₃ hstop
    exact ⟨g₄, hi, Reads.cons h₀ (Reads.cons h₁ (Reads.cons h₂ (h₃.append (Reads.cons h₄ rfl))))⟩
  | shaded head v0 c1 v1 more stop =>
    obtain ⟨hop, hmore, hstop⟩ := hp
    obtain ⟨hcount, hbit⟩ := shaded_count (opcodeOf_lt head) hop
    obtain ⟨g₀, h₀, hg₀⟩ := begin_polyline (R := R) hg hcount
    rw [hbit] at hg₀
    obtain ⟨g₁, h₁, hg₁⟩ := shaded_first (R := R) hg₀ v0
    obtain ⟨g₂, hg₂, h₂⟩ := reads_unit (R := R) hg₁ (.inl rfl) (c1, v1)
      (fun h => absurd h (by decide))
    obtain ⟨g₃, hg₃, h₃⟩ := reads_units (R := R) hg₂ hmore
    obtain ⟨g₄, h₄, hi⟩ := shaded_stop (R := R) hg₃ hstop
    refine ⟨g₄, hi, Reads.cons h₀ (Reads.cons h₁ ?_)⟩
    rw [List.flatMap_cons, List.append_assoc]
    exact h₂.append (h₃.append (Reads.cons h₄ rfl))

end PsxRecomp.Gpu
