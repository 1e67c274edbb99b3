import Mathlib
import PsxRecomp.Gpu.Runs
import PsxRecomp.RenderPass.PacketMemory

/-! Retargeting a list to the other display bank: the words of each node are framed as commands, and the clip
corners and drawing offsets of the source bank are moved to the destination. -/
namespace PsxRecomp.RenderPass
set_option autoImplicit false

open Gpu (opcodeOf commandWordCount State.isTerminator)

/-! ## The code -/

/-- The search for the terminator of a polyline. -/
def terminatorAt (ws : List Word) (stride : ℕ) : ℕ → ℕ → Option ℕ
  | 0, _ => none
  | fuel + 1, i =>
    match ws[i]? with
    | none => none
    | some w => if State.isTerminator w then some i else terminatorAt ws stride fuel (i + stride)

/-- The words of the command at a position, the data of an upload and the terminator of a polyline included. -/
def commandLength (ws : List Word) (i : ℕ) (w : Word) : Option ℕ :=
  let op := opcodeOf w
  let count := commandWordCount op
  let length := if count < 0 then
      (terminatorAt ws (if op.testBit 4 then 2 else 1) ws.length (i + if op.testBit 4 then 4 else 3)).map
        fun stop => stop - i + 1
    else some count.toNat
  match length with
  | none => none
  | some n =>
    if n = 0 ∨ i + n > ws.length then none
    else if 0xA0 ≤ op ∧ op ≤ 0xBF then
      let wh := ws.getD (i + 2) 0
      let width := ((wh - 1) &&& 1023) + 1
      let rows := (((wh >>> (16 : ℕ)) - 1) &&& 511) + 1
      let total := n + ((width * rows + 1) / 2).toNat
      if i + total > ws.length then none else some total
    else some n

/-- The commands of a node with their positions. -/
def scanCommands (ws : List Word) : ℕ → ℕ → Option (List (ℕ × Word))
  | 0, i => if i < ws.length then none else some []
  | fuel + 1, i =>
    match ws[i]? with
    | none => some []
    | some w =>
      match commandLength ws i w with
      | none => none
      | some n => (scanCommands ws fuel (i + n)).map ((i, w) :: ·)

def cornerY (w : Word) : ℤ := ((w >>> (10 : ℕ)) &&& 511).toNat

/-- Eleven bits with a sign. -/
def offsetY (w : Word) : ℤ :=
  let y : ℤ := ((w >>> (11 : ℕ)) &&& 2047).toNat
  if ((w >>> (11 : ℕ)) &&& 1024) ≠ 0 then y - 2048 else y

/-- A command word of the source bank; drawing offsets may shake above it. -/
def inBank (source height : ℤ) (w : Word) : Bool :=
  if opcodeOf w = 0xE3 ∨ opcodeOf w = 0xE4 then source ≤ cornerY w && cornerY w < source + height
  else opcodeOf w = 0xE5 && source - 128 ≤ offsetY w && offsetY w < source + height

def moved (source target : ℤ) (w : Word) : Word :=
  if opcodeOf w = 0xE5 then
    (w &&& ~~~((2047 : Word) <<< (11 : ℕ))) |||
      ((BitVec.ofInt 32 (offsetY w + target - source) &&& 2047) <<< (11 : ℕ))
  else (w &&& ~~~((511 : Word) <<< (10 : ℕ))) ||| (BitVec.ofInt 32 (cornerY w + target - source) <<< (10 : ℕ))

def commandAddress (node : Word) (i : ℕ) : Word := node + 4 + BitVec.ofNat 32 (4 * i)

/-- The edits of one node. -/
def nodeEdits (source target height : ℤ) (node : Word) (cmds : List (ℕ × Word)) : List (Word × Word) :=
  (cmds.filter fun c => inBank source height c.2).map fun c => (commandAddress node c.1, moved source target c.2)

/-- The loop over the nodes, with what is left of their number. -/
def listEdits (m : PacketMemory) (source target height : ℤ) : ℕ → Word → ℕ → Option (List (Word × Word))
  | 0, _, _ => none
  | left + 1, node, total =>
    if m.valid node 4 = false then none
    else
      let n := m.count node
      if total + n > 1048576 ∨ m.valid node (BitVec.ofNat 32 (4 + 4 * n)) = false then none
      else
        match scanCommands (m.payload node) n 0 with
        | none => none
        | some cmds =>
          let edits := nodeEdits source target height node cmds
          if m.link node = 0x00FFFFFF then some edits
          else (listEdits m source target height left (m.link node) (total + n)).map (edits ++ ·)

/-- `PSXOTReplay::retarget_y` -/
def retargetY (active : Bool) (tail : Word) (source target height : ℤ) (m : PacketMemory) : PacketMemory × Bool :=
  if !active ∨ height ≤ 0 ∨ source < 0 ∨ target < 0 ∨ source + height > 512 ∨ target + height > 512 then (m, false)
  else
    match listEdits m source target height 65536 (tail &&& 0x1FFFFFFF) 0 with
    | none => (m, false)
    | some edits => (edits.foldl (fun m e => m.put e.1 e.2) m, true)

/-! ## Framing -/

/-- Words from a position on up to a terminator. -/
theorem terminatorAt_mono {ws : List Word} {fuel i e : ℕ} (h : terminatorAt ws 1 fuel i = some e) :
    i ≤ e ∧ ∃ more stop, ws.drop i = more ++ stop :: ws.drop (e + 1) ∧ more.length = e - i ∧
      (∀ v ∈ more, State.isTerminator v = false) ∧ State.isTerminator stop = true := by
  induction fuel generalizing i with
  | zero => exact absurd h (by simp [terminatorAt])
  | succ fuel ih =>
    unfold terminatorAt at h
    cases hw : ws[i]? with
    | none => simp [hw] at h
    | some w =>
      have hdrop : ws.drop i = w :: ws.drop (i + 1) := by
        obtain ⟨hi, rfl⟩ := List.getElem?_eq_some_iff.1 hw
        exact List.drop_eq_getElem_cons hi
      rw [hw] at h
      dsimp only at h
      split at h
      · next hstop =>
        cases h
        exact ⟨le_refl _, [], w, by rw [hdrop]; rfl, by simp, by simp, hstop⟩
      · next hgo =>
        obtain ⟨hle, more, stop, hmore, hlen, hall, hstop⟩ := ih h
        refine ⟨by omega, w :: more, stop, by rw [hdrop, hmore]; rfl, by simp only [List.length_cons]; omega, ?_, hstop⟩
        exact List.forall_mem_cons.2 ⟨by simpa using hgo, hall⟩

/-- Units of two words from a position on up to a terminator. -/
theorem terminatorAt_shaded {ws : List Word} {fuel i e : ℕ} (h : terminatorAt ws 2 fuel i = some e) :
    i ≤ e ∧ ∃ (more : List (Word × Word)) (stop : Word),
      ws.drop i = (more.flatMap fun u => [u.1, u.2]) ++ stop :: ws.drop (e + 1) ∧ 2 * more.length = e - i ∧
      (∀ u ∈ more, State.isTerminator u.1 = false) ∧ State.isTerminator stop = true := by
  induction fuel generalizing i with
  | zero => exact absurd h (by simp [terminatorAt])
  | succ fuel ih =>
    unfold terminatorAt at h
    cases hw : ws[i]? with
    | none => simp [hw] at h
    | some c =>
      have hdrop : ws.drop i = c :: ws.drop (i + 1) := by
        obtain ⟨hi, rfl⟩ := List.getElem?_eq_some_iff.1 hw
        exact List.drop_eq_getElem_cons hi
      rw [hw] at h
      dsimp only at h
      split at h
      · next hstop =>
        cases h
        exact ⟨le_refl _, [], c, by rw [hdrop]; rfl, by simp, by simp, hstop⟩
      · next hgo =>
        obtain ⟨hle, more, stop, hmore, hlen, hall, hstop⟩ := ih h
        have hnext : i + 1 < ws.length := by
          have := congrArg List.length hmore
          rw [List.length_drop, List.length_append, List.length_cons] at this
          omega
        have hdrop' : ws.drop (i + 1) = ws[i + 1] :: ws.drop (i + 2) := List.drop_eq_getElem_cons hnext
        refine ⟨by omega, (c, ws[i + 1]) :: more, stop, ?_, by simp only [List.length_cons]; omega, ?_, hstop⟩
        · rw [hdrop, hdrop', hmore]
          rfl
        · exact List.forall_mem_cons.2 ⟨by simpa using hgo, hall⟩

theorem upload_total (wh : Word) :
    (((((wh - 1) &&& 1023) + 1) * ((((wh >>> (16 : ℕ)) - 1) &&& 511) + 1) + 1) / 2).toNat = Gpu.uploadWords wh := by
  have hcols : (((wh - 1) &&& 1023) + 1).toNat = Gpu.pixelColumns wh := by
    have hand : ((wh - 1) &&& 1023).toNat = (wh - 1).toNat % 1024 := by
      rw [BitVec.toNat_and]
      exact Nat.and_two_pow_sub_one_eq_mod _ 10
    have hone : (1 : Word).toNat = 1 := rfl
    rw [BitVec.toNat_add, hand, BitVec.toNat_sub, hone]
    unfold Gpu.pixelColumns
    split <;> omega
  have hrows : ((((wh >>> (16 : ℕ)) - 1) &&& 511) + 1).toNat = Gpu.pixelRows wh := by
    have hand : (((wh >>> (16 : ℕ)) - 1) &&& 511).toNat = ((wh >>> (16 : ℕ)) - 1).toNat % 512 := by
      rw [BitVec.toNat_and]
      exact Nat.and_two_pow_sub_one_eq_mod _ 9
    have hone : (1 : Word).toNat = 1 := rfl
    rw [BitVec.toNat_add, hand, BitVec.toNat_sub, BitVec.toNat_ushiftRight, Nat.shiftRight_eq_div_pow, hone]
    unfold Gpu.pixelRows
    split <;> omega
  have hpix := Gpu.pixels_le (Gpu.pixelColumns_range wh).2 (Gpu.pixelRows_range wh).2
  have hone : (1 : Word).toNat = 1 := rfl
  have htwo : (2 : Word).toNat = 2 := rfl
  rw [BitVec.toNat_udiv, BitVec.toNat_add, BitVec.toNat_mul, hcols, hrows, hone, htwo,
    Nat.mod_eq_of_lt (show Gpu.pixelColumns wh * Gpu.pixelRows wh < 2 ^ 32 by omega), Nat.mod_eq_of_lt (by omega)]
  rfl

/-- A command that is found at a position, with the words behind it. -/
structure Found (ws : List Word) (i : ℕ) (w : Word) (n : ℕ) (p : Gpu.Packet) : Prop where
  formed : p.WellFormed
  head : p.head = w
  length : p.words.length = n
  positive : 0 < n
  words : ws.drop i = p.words ++ ws.drop (i + n)

theorem drop_take (ws : List Word) (i n : ℕ) (h : i + n ≤ ws.length) :
    ws.drop i = (ws.drop i).take n ++ ws.drop (i + n) ∧ ((ws.drop i).take n).length = n := by
  refine ⟨?_, ?_⟩
  · rw [← List.drop_drop, List.take_append_drop]
  · rw [List.length_take, List.length_drop]
    omega

theorem drop_cons (ws : List Word) (i : ℕ) (h : i < ws.length) : ws.drop i = ws.getD i 0 :: ws.drop (i + 1) := by
  rw [List.drop_eq_getElem_cons h, List.getD_eq_getElem _ _ h]

/-- The packet walker frames a command as the command language does. -/
theorem commandLength_found {ws : List Word} {i n : ℕ} {w : Word} (hw : ws[i]? = some w)
    (h : commandLength ws i w = some n) : ∃ p, Found ws i w n p := by
  obtain ⟨hi, hget⟩ := List.getElem?_eq_some_iff.1 hw
  have hdrop : ws.drop i = w :: ws.drop (i + 1) := by rw [List.drop_eq_getElem_cons hi, hget]
  unfold commandLength at h
  dsimp only at h
  by_cases hneg : commandWordCount (opcodeOf w) < 0
  · rw [if_pos hneg] at h
    obtain hmono | hshaded := Gpu.polyline_of_count (Gpu.opcodeOf_lt w) hneg
    · have hbit := (Gpu.mono_count (Gpu.opcodeOf_lt w) hmono).2
      have hup : ¬(0xA0 ≤ opcodeOf w ∧ opcodeOf w ≤ 0xBF) := by omega
      simp only [hbit, Bool.false_eq_true, if_false] at h
      cases hstop : terminatorAt ws 1 ws.length (i + 3) with
      | none => simp [hstop] at h
      | some e =>
        obtain ⟨hle, more, stop, hmore, hlen, hall, hterm⟩ := terminatorAt_mono hstop
        simp only [hstop, Option.map_some] at h
        rw [if_neg hup] at h
        split at h
        · exact absurd h (by simp)
        · obtain rfl := Option.some.inj h
          have h1 := drop_cons ws (i + 1) (by omega)
          have h2 := drop_cons ws (i + 1 + 1) (by omega)
          refine ⟨.mono w (ws.getD (i + 1) 0) (ws.getD (i + 1 + 1) 0) more stop, ⟨hmono, hall, hterm⟩, rfl, ?_, by omega,
            ?_⟩
          · rw [Gpu.mono_words]
            simp only [List.length_cons, List.length_append, List.length_nil]
            omega
          · have hend : i + (e - i + 1) = e + 1 := by omega
            rw [Gpu.mono_words, hdrop, h1, h2, hend, show i + 1 + 1 + 1 = i + 3 from rfl, hmore]
            simp
    · have hbit := (Gpu.shaded_count (Gpu.opcodeOf_lt w) hshaded).2
      have hup : ¬(0xA0 ≤ opcodeOf w ∧ opcodeOf w ≤ 0xBF) := by omega
      simp only [hbit, if_true] at h
      cases hstop : terminatorAt ws 2 ws.length (i + 4) with
      | none => simp [hstop] at h
      | some e =>
        obtain ⟨hle, more, stop, hmore, hlen, hall, hterm⟩ := terminatorAt_shaded hstop
        simp only [hstop, Option.map_some] at h
        rw [if_neg hup] at h
        split at h
        · exact absurd h (by simp)
        · obtain rfl := Option.some.inj h
          have h1 := drop_cons ws (i + 1) (by omega)
          have h2 := drop_cons ws (i + 1 + 1) (by omega)
          have h3 := drop_cons ws (i + 1 + 1 + 1) (by omega)
          refine ⟨.shaded w (ws.getD (i + 1) 0) (ws.getD (i + 1 + 1) 0) (ws.getD (i + 1 + 1 + 1) 0) more stop,
            ⟨hshaded, hall, hterm⟩, rfl, ?_, by omega, ?_⟩
          · have hunits : (more.flatMap fun u => [u.1, u.2]).length = 2 * more.length := by
              simp [List.length_flatMap, mul_comm]
            rw [Gpu.shaded_words]
            simp only [List.length_cons, List.length_append, List.length_nil, hunits]
            omega
          · have hend : i + (e - i + 1) = e + 1 := by omega
            rw [Gpu.shaded_words, hdrop, h1, h2, h3, hend, show i + 1 + 1 + 1 + 1 = i + 4 from rfl, hmore]
            simp
  · rw [if_neg hneg] at h
    dsimp only at h
    split at h
    · exact absurd h (by simp)
    · next hno =>
      rw [not_or] at hno
      split at h
      · next hup =>
        have hthree := Gpu.upload_count (Gpu.opcodeOf_lt w) hup
        rw [hthree, upload_total] at h
        rw [hthree] at hno
        split at h
        · exact absurd h (by simp)
        · next hfits =>
          obtain rfl := Option.some.inj h
          have hthree' : Int.toNat 3 = 3 := rfl
          rw [hthree'] at hno hfits ⊢
          have h1 := drop_cons ws (i + 1) (by omega)
          have h2 := drop_cons ws (i + 1 + 1) (by omega)
          obtain ⟨hdata, hlen⟩ := drop_take ws (i + 3) (Gpu.uploadWords (ws.getD (i + 2) 0)) (by omega)
          refine ⟨.upload w (ws.getD (i + 1) 0) (ws.getD (i + 2) 0)
            ((ws.drop (i + 3)).take (Gpu.uploadWords (ws.getD (i + 2) 0))), ⟨hup, hlen⟩, rfl, ?_, by omega, ?_⟩
          · rw [Gpu.upload_words, List.length_cons, List.length_cons, List.length_cons, hlen]
            omega
          · rw [Nat.add_assoc] at hdata
            rw [Gpu.upload_words, hdrop, h1, h2, List.cons_append, List.cons_append, List.cons_append, ← hdata]
      · next hup =>
        obtain rfl := Option.some.inj h
        obtain ⟨hdata, hlen⟩ := drop_take ws (i + 1) ((commandWordCount (opcodeOf w)).toNat - 1)
          (by omega)
        refine ⟨.fixed w ((ws.drop (i + 1)).take ((commandWordCount (opcodeOf w)).toNat - 1)), ⟨hup, ?_⟩, rfl, ?_,
          by omega, ?_⟩
        · rw [hlen]
          omega
        · rw [Gpu.fixed_words, List.length_cons, hlen]
          omega
        · have hend : i + 1 + ((commandWordCount (opcodeOf w)).toNat - 1) = i + (commandWordCount (opcodeOf w)).toNat := by
            omega
          rw [hend] at hdata
          rw [Gpu.fixed_words, hdrop, List.cons_append, ← hdata]

/-- The heads of packets one after another, with their positions. -/
def heads : ℕ → List Gpu.Packet → List (ℕ × Word)
  | _, [] => []
  | i, p :: ps => (i, p.head) :: heads (i + p.words.length) ps

theorem scanCommands_packets {ws : List Word} {fuel i : ℕ} {cmds : List (ℕ × Word)} (hi : i ≤ ws.length)
    (h : scanCommands ws fuel i = some cmds) :
    ∃ ps : List Gpu.Packet, (∀ p ∈ ps, p.WellFormed) ∧ ws.drop i = ps.flatMap Gpu.Packet.words ∧ cmds = heads i ps := by
  induction fuel generalizing i cmds with
  | zero =>
    unfold scanCommands at h
    split at h
    · exact absurd h (by simp)
    · cases h
      exact ⟨[], by simp, by rw [List.drop_eq_nil_of_le (by omega)]; rfl, rfl⟩
  | succ fuel ih =>
    unfold scanCommands at h
    cases hw : ws[i]? with
    | none =>
      rw [hw] at h
      cases h
      exact ⟨[], by simp, by rw [List.drop_eq_nil_of_le (List.getElem?_eq_none_iff.1 hw)]; rfl, rfl⟩
    | some w =>
      rw [hw] at h
      dsimp only at h
      split at h
      · exact absurd h (by simp)
      · next n hn =>
        obtain ⟨p, hp⟩ := commandLength_found hw hn
        obtain ⟨rest, hrest, rfl⟩ := Option.map_eq_some_iff.1 h
        have hfits : i + n ≤ ws.length := by
          have hlen := congrArg List.length hp.words
          rw [List.length_append, List.length_drop, List.length_drop, hp.length] at hlen
          have := hp.positive
          omega
        obtain ⟨ps, hps, hwords, rfl⟩ := ih hfits hrest
        refine ⟨p :: ps, List.forall_mem_cons.2 ⟨hp.formed, hps⟩, ?_, ?_⟩
        · rw [hp.words, hwords, List.flatMap_cons]
        · rw [heads, hp.head, hp.length]

/-! ## Lists -/

/-- A node with the packets that its words are. -/
abbrev Framed := Word × List Gpu.Packet

def framedNode (n : Framed) : Word × List Word := (n.1, n.2.flatMap Gpu.Packet.words)

/-- The addresses of the environment commands of the source bank. -/
def bankCommands (source height : ℤ) (q : List Framed) : List Word :=
  q.flatMap fun n => ((heads 0 n.2).filter fun c => inBank source height c.2).map fun c => commandAddress n.1 c.1

section Lists

variable {m : PacketMemory} {source target height : ℤ}

theorem listEdits_framed {left total : ℕ} {node : Word} {es : List (Word × Word)}
    (h : listEdits m source target height left node total = some es) : ∃ q : List Framed,
      m.Walks (· = 0x00FFFFFF) node (q.map framedNode) 0x00FFFFFF ∧ (∀ n ∈ q, ∀ p ∈ n.2, p.WellFormed) ∧
        es = q.flatMap fun n => nodeEdits source target height n.1 (heads 0 n.2) := by
  induction left generalizing node total es with
  | zero => exact absurd h (by simp [listEdits])
  | succ left ih =>
    unfold listEdits at h
    split at h
    · exact absurd h (by simp)
    · next hnode =>
      dsimp only at h
      split at h
      · exact absurd h (by simp)
      · next hno =>
        rw [not_or, Bool.not_eq_false] at hno
        have hstop : node ≠ 0x00FFFFFF := by
          rintro rfl
          rw [Bool.not_eq_false] at hnode
          unfold PacketMemory.valid at hnode
          exact absurd (of_decide_eq_true (Bool.and_eq_true_iff.1 hnode).1) (by decide)
        have hvalid : m.valid node (BitVec.ofNat 32 (4 * (m.count node + 1))) = true := by
          rw [show 4 * (m.count node + 1) = 4 + 4 * m.count node by omega]
          exact hno.2
        split at h
        · exact absurd h (by simp)
        · next cmds hcmds =>
          obtain ⟨ps, hps, hwords, rfl⟩ := scanCommands_packets (Nat.zero_le _) hcmds
          have hframe : framedNode (node, ps) = (node, m.payload node) := by
            rw [framedNode, ← hwords, List.drop_zero]
          split at h
          · next hend =>
            cases h
            refine ⟨[(node, ps)], ⟨hstop, hvalid, hframe, hend, hend.symm⟩, ?_, by simp⟩
            exact List.forall_mem_cons.2 ⟨hps, by simp⟩
          · obtain ⟨rest, hrest, rfl⟩ := Option.map_eq_some_iff.1 h
            obtain ⟨q, hwalk, hq, rfl⟩ := ih hrest
            refine ⟨(node, ps) :: q, ⟨hstop, hvalid, hframe, hwalk⟩, ?_, rfl⟩
            exact List.forall_mem_cons.2 ⟨hps, hq⟩

theorem heads_word {i : ℕ} {ps : List Gpu.Packet} {k : ℕ} {w : Word} (h : (k, w) ∈ heads i ps) :
    i ≤ k ∧ (ps.flatMap Gpu.Packet.words)[k - i]? = some w := by
  have hhead : ∀ p : Gpu.Packet, ∃ ws, p.words = p.head :: ws := by
    intro p
    cases p with
    | fixed head args => exact ⟨_, Gpu.fixed_words head args⟩
    | upload head place dims data => exact ⟨_, Gpu.upload_words head place dims data⟩
    | mono head v0 v1 more stop => exact ⟨_, Gpu.mono_words head v0 v1 more stop⟩
    | shaded head v0 c1 v1 more stop => exact ⟨_, Gpu.shaded_words head v0 c1 v1 more stop⟩
  induction ps generalizing i with
  | nil => exact absurd h List.not_mem_nil
  | cons p ps ih =>
    rw [heads] at h
    rw [List.flatMap_cons]
    cases List.mem_cons.1 h with
    | inl heq =>
      obtain ⟨rfl, rfl⟩ := Prod.mk.inj heq
      obtain ⟨ws, hws⟩ := hhead p
      refine ⟨le_refl _, ?_⟩
      rw [hws]
      simp
    | inr hmem =>
      obtain ⟨hle, hget⟩ := ih hmem
      refine ⟨by omega, ?_⟩
      rw [List.getElem?_append_right (by omega), show k - i - p.words.length = k - (i + p.words.length) by omega]
      exact hget

/-- A command word of a framed node is the word of its address. -/
theorem heads_memory {node : Word} {ps : List Gpu.Packet} (hframe : framedNode (node, ps) = (node, m.payload node))
    {k : ℕ} {w : Word} (h : (k, w) ∈ heads 0 ps) : m.word (commandAddress node k) = w := by
  obtain ⟨-, hget⟩ := heads_word h
  have hwords : ps.flatMap Gpu.Packet.words = m.payload node := congrArg Prod.snd hframe
  rw [hwords, Nat.sub_zero] at hget
  unfold PacketMemory.payload at hget
  obtain ⟨hk, hget⟩ := List.getElem?_eq_some_iff.1 hget
  rw [List.getElem_map, List.getElem_range] at hget
  rw [← hget, commandAddress, BitVec.add_assoc]
  congr 2
  rw [show (4 : Word) = BitVec.ofNat 32 4 from rfl, ← BitVec.ofNat_add]
  congr 1
  omega

theorem walks_framed {node last : Word} {q : List Framed} {stop : Word → Prop}
    (h : m.Walks stop node (q.map framedNode) last) : ∀ n ∈ q, framedNode n = (n.1, m.payload n.1) := by
  induction q generalizing node with
  | nil => exact fun n hn => absurd hn List.not_mem_nil
  | cons n q ih =>
    obtain ⟨-, -, hn, hrest⟩ := h
    refine List.forall_mem_cons.2 ⟨?_, ih hrest⟩
    have hnode : n.1 = node := congrArg Prod.fst hn
    rw [hn, hnode]

end Lists

/-! ## Moved fields -/

/-- A field of a word that is replaced: the rest stays, and the field reads as what was put. -/
theorem field_bits (mask w v : Word) (k : ℕ) (hmask : ((~~~(mask <<< k)) >>> k) &&& mask = 0#32)
    (hback : ((v &&& mask) <<< k) >>> k = v &&& mask) :
    ((w &&& ~~~(mask <<< k)) ||| ((v &&& mask) <<< k)) &&& ~~~(mask <<< k) = w &&& ~~~(mask <<< k) ∧
      (((w &&& ~~~(mask <<< k)) ||| ((v &&& mask) <<< k)) >>> k) &&& mask = v &&& mask := by
  have hout : ((v &&& mask) <<< k) &&& ~~~(mask <<< k) = 0#32 := by
    rw [BitVec.shiftLeft_and_distrib, BitVec.and_assoc, BitVec.and_not_self]
    exact BitVec.and_zero
  refine ⟨?_, ?_⟩
  · rw [BitVec.and_or_distrib_right, hout, BitVec.or_zero, BitVec.and_assoc, BitVec.and_self]
  · rw [BitVec.ushiftRight_or_distrib, BitVec.ushiftRight_and_distrib, BitVec.and_or_distrib_right, BitVec.and_assoc,
      hmask, BitVec.and_zero, BitVec.zero_or, hback, BitVec.and_assoc, BitVec.and_self]

theorem corner_bits (w v : Word) (hv : v.toNat < 512) :
    ((w &&& ~~~((511 : Word) <<< (10 : ℕ))) ||| (v <<< (10 : ℕ))) &&& ~~~((511 : Word) <<< (10 : ℕ)) =
      w &&& ~~~((511 : Word) <<< (10 : ℕ)) ∧
    ((((w &&& ~~~((511 : Word) <<< (10 : ℕ))) ||| (v <<< (10 : ℕ))) >>> (10 : ℕ)) &&& 511).toNat = v.toNat := by
  have hself : v &&& 511 = v := BitVec.eq_of_toNat_eq (by
    rw [BitVec.toNat_and]
    exact (Nat.and_two_pow_sub_one_eq_mod _ 9).trans (Nat.mod_eq_of_lt hv))
  have h := field_bits 511 w v 10 (by decide) (BitVec.eq_of_toNat_eq (by
    rw [hself, BitVec.toNat_ushiftRight, BitVec.toNat_shiftLeft, Nat.shiftLeft_eq, Nat.shiftRight_eq_div_pow]
    omega))
  rw [hself] at h
  exact h.imp_right (congrArg BitVec.toNat)

theorem offset_bits (w v : Word) :
    ((w &&& ~~~((2047 : Word) <<< (11 : ℕ))) ||| ((v &&& 2047) <<< (11 : ℕ))) &&& ~~~((2047 : Word) <<< (11 : ℕ)) =
      w &&& ~~~((2047 : Word) <<< (11 : ℕ)) ∧
    ((((w &&& ~~~((2047 : Word) <<< (11 : ℕ))) ||| ((v &&& 2047) <<< (11 : ℕ))) >>> (11 : ℕ)) &&& 2047).toNat =
      v.toNat % 2048 := by
  have hand : (v &&& 2047).toNat = v.toNat % 2048 := by
    rw [BitVec.toNat_and]
    exact Nat.and_two_pow_sub_one_eq_mod _ 11
  have h := field_bits 2047 w v 11 (by decide) (BitVec.eq_of_toNat_eq (by
    rw [BitVec.toNat_ushiftRight, BitVec.toNat_shiftLeft, hand, Nat.shiftLeft_eq, Nat.shiftRight_eq_div_pow]
    omega))
  exact h.imp_right fun hfield => (congrArg BitVec.toNat hfield).trans hand

theorem offsetY_eq (w : Word) : offsetY w =
    if 1024 ≤ ((w >>> (11 : ℕ)) &&& 2047).toNat then (((w >>> (11 : ℕ)) &&& 2047).toNat : ℤ) - 2048
    else ((w >>> (11 : ℕ)) &&& 2047).toNat := by
  have hsign : ((w >>> (11 : ℕ)) &&& 1024) ≠ 0 ↔ 1024 ≤ ((w >>> (11 : ℕ)) &&& 2047).toNat := by
    generalize w >>> (11 : ℕ) = x
    have hhigh : (x &&& 1024).toNat = x.toNat / 1024 % 2 * 1024 := by
      have hbit : (1024 : Word).toNat = 2 ^ 10 := rfl
      rw [BitVec.toNat_and, hbit, Nat.and_two_pow, Nat.testBit_eq_decide_div_mod_eq, show 2 ^ 10 = 1024 from rfl]
      obtain hzero | hone := Nat.mod_two_eq_zero_or_one (x.toNat / 1024)
      · rw [hzero]
        rfl
      · rw [hone]
        rfl
    have hall : (x &&& 2047).toNat = x.toNat % 2048 := by
      rw [BitVec.toNat_and]
      exact Nat.and_two_pow_sub_one_eq_mod _ 11
    have hne : (x &&& 1024) ≠ 0 ↔ (x &&& 1024).toNat ≠ 0 := by
      rw [ne_eq, ne_eq, ← BitVec.toNat_inj]
      rfl
    rw [hne, hhigh, hall]
    omega
  unfold offsetY
  simp only [hsign]

/-- A command whose y has moved, and nothing else of it. -/
structure Shifted (source target : ℤ) (w w' : Word) : Prop where
  corner : opcodeOf w ≠ 0xE5 → cornerY w' = cornerY w + (target - source) ∧
    w' &&& ~~~((511 : Word) <<< (10 : ℕ)) = w &&& ~~~((511 : Word) <<< (10 : ℕ))
  offset : opcodeOf w = 0xE5 → offsetY w' = offsetY w + (target - source) ∧
    w' &&& ~~~((2047 : Word) <<< (11 : ℕ)) = w &&& ~~~((2047 : Word) <<< (11 : ℕ))

theorem moved_shifted {source target height : ℤ} {w : Word} (hs : 0 ≤ source) (ht : 0 ≤ target)
    (hfrom : source + height ≤ 512) (hto : target + height ≤ 512) (h : inBank source height w = true) :
    Shifted source target w (moved source target w) := by
  refine ⟨fun hop => ?_, fun hop => ?_⟩
  · have hy : source ≤ cornerY w ∧ cornerY w < source + height := by
      unfold inBank at h
      split at h
      · simpa using h
      · exact absurd h (by simp [hop])
    have hv : (BitVec.ofInt 32 (cornerY w + target - source)).toNat = (cornerY w + target - source).toNat := by
      rw [BitVec.toNat_ofInt, Int.emod_eq_of_lt (by omega) (by omega)]
    obtain ⟨hout, hin⟩ := corner_bits w _ (show (BitVec.ofInt 32 (cornerY w + target - source)).toNat < 512 by omega)
    unfold moved
    rw [if_neg hop]
    refine ⟨?_, hout⟩
    have hnew : ∀ x : Word, cornerY x = (((x >>> (10 : ℕ)) &&& 511).toNat : ℤ) := fun _ => rfl
    rw [hnew (_ ||| _), hin, hv]
    omega
  · have hy : source - 128 ≤ offsetY w ∧ offsetY w < source + height := by
      unfold inBank at h
      rw [hop] at h
      simpa using h
    obtain ⟨hout, hin⟩ := offset_bits w (BitVec.ofInt 32 (offsetY w + target - source))
    unfold moved
    rw [if_pos hop]
    refine ⟨?_, hout⟩
    rw [offsetY_eq]
    have hv : (BitVec.ofInt 32 (offsetY w + target - source)).toNat % 2048 =
        ((offsetY w + target - source) % 2048).toNat := by
      rw [BitVec.toNat_ofInt]
      omega
    rw [hin, hv]
    split <;> omega

/-- What a retargeted list is: framed as the command language has it, read so by the GPU, and changed in the y
fields of the environment commands of the bank only. -/
structure Retargeted (source target height : ℤ) (tail : Word) (m m' : PacketMemory) (q : List Framed) : Prop where
  walk : m.Walks (· = 0x00FFFFFF) (tail &&& 0x1FFFFFFF) (q.map framedNode) 0x00FFFFFF
  formed : ∀ n ∈ q, ∀ p ∈ n.2, p.WellFormed
  read : ∀ (R : Gpu.Raster) (g : Gpu.State), g.Idle → (∀ n ∈ q, ∀ p ∈ n.2, p.Implemented) →
    ∃ g', g'.Idle ∧ Gpu.Reads R ((q.flatMap Prod.snd).flatMap Gpu.Packet.steps) g g'
  edited : ∀ a ∈ bankCommands source height q, m'.word a = moved source target (m.word a) ∧
    inBank source height (m.word a) = true ∧ Shifted source target (m.word a) (m'.word a)
  same : ∀ a ∉ bankCommands source height q, m'.word a = m.word a

/-- Display retargeting writes nothing, or moves the environment commands of the source bank, the drawing offsets
up to 128 lines above it included. -/
theorem retarget_y_edits (active : Bool) (tail : Word) (source target height : ℤ) (m : PacketMemory) :
    retargetY active tail source target height m = (m, false) ∨
      ((retargetY active tail source target height m).2 = true ∧
        ∃ q, Retargeted source target height tail m (retargetY active tail source target height m).1 q) := by
  unfold retargetY
  split
  · exact Or.inl rfl
  · next hguard =>
    simp only [not_or, not_le, not_lt] at hguard
    obtain ⟨-, hheight, hs, ht, hfrom, hto⟩ := hguard
    split
    · exact Or.inl rfl
    · next es hes =>
      obtain ⟨q, hwalk, hformed, rfl⟩ := listEdits_framed hes
      have hframed := walks_framed hwalk
      have haddr : (q.flatMap fun n => nodeEdits source target height n.1 (heads 0 n.2)).map Prod.fst =
          bankCommands source height q := by
        unfold bankCommands nodeEdits
        simp only [List.map_flatMap, List.map_map]
        rfl
      have hval : ∀ e ∈ q.flatMap fun n => nodeEdits source target height n.1 (heads 0 n.2),
          e.2 = moved source target (m.word e.1) := by
        intro e he
        obtain ⟨n, hn, hmem⟩ := List.mem_flatMap.1 he
        obtain ⟨c, hc, rfl⟩ := List.mem_map.1 hmem
        have hc' := (List.mem_filter.1 hc).1
        rw [show m.word (commandAddress n.1 c.1) = c.2 from heads_memory (hframed n hn) hc']
      have hword := foldl_put Prod.fst Prod.snd (fun a => moved source target (m.word a)) _ hval m
      rw [haddr] at hword
      have hbank : ∀ a ∈ bankCommands source height q, inBank source height (m.word a) = true := by
        intro a ha
        obtain ⟨n, hn, hmem⟩ := List.mem_flatMap.1 ha
        obtain ⟨c, hc, rfl⟩ := List.mem_map.1 hmem
        obtain ⟨hc', hin⟩ := List.mem_filter.1 hc
        rw [show m.word (commandAddress n.1 c.1) = c.2 from heads_memory (hframed n hn) hc']
        exact hin
      refine Or.inr ⟨rfl, q, hwalk, hformed, fun R g hg himp => ?_, fun a ha => ?_, fun a ha => ?_⟩
      · refine Gpu.reads_packets hg (fun p hp => ?_) fun p hp => ?_
        · obtain ⟨n, hn, hmem⟩ := List.mem_flatMap.1 hp
          exact hformed n hn p hmem
        · obtain ⟨n, hn, hmem⟩ := List.mem_flatMap.1 hp
          exact himp n hn p hmem
      · have hnew := hword a
        rw [if_pos ha] at hnew
        refine ⟨hnew, hbank a ha, ?_⟩
        rw [hnew]
        exact moved_shifted hs ht hfrom hto (hbank a ha)
      · rw [hword a, if_neg ha]

/-- A drawing offset at line 200. -/
def offsetRam : PacketMemory where
  geometry := .retail
  apertureUsed := 0
  word a := if a = 0x00030000 then 0x01FFFFFF else if a = 0x00030004 then 0xE5064000 else 0

/-- It lies in the first bank, and moves with the second. -/
theorem shaken_offset_moves : offsetY (offsetRam.word 0x00030004) = 200 ∧
    (retargetY true 0x00030000 256 0 240 offsetRam).2 = true ∧
    (retargetY true 0x00030000 256 0 240 offsetRam).1.word 0x00030004 ≠ offsetRam.word 0x00030004 := by
  refine ⟨?_, ?_, ?_⟩ <;> decide

end PsxRecomp.RenderPass
