import PsxRecomp.Library.BitString
import PsxRecomp.Mods.Plan

/-! `inflate_deflate` of the package reader, with its bit buffer and its Huffman tables. A vector is
a list; the sizes stay far below the widths of the source's integers. -/
namespace PsxRecomp.Mods
set_option autoImplicit false

/-! ## Bits -/

/-- The bytes from `at` to `end`, and the bits taken from the bytes before them. -/
structure DeflateBits where
  rest : List Byte
  hold : ℕ
  bits : ℕ
  fits : hold < 2 ^ bits

def DeflateBits.start (data : List Byte) : DeflateBits := ⟨data, 0, 0, by decide⟩

theorem or_shift_lt {hold bits : ℕ} (h : hold < 2 ^ bits) (b : Byte) :
    hold ||| b.toNat <<< bits < 2 ^ (bits + 8) := by
  refine Nat.or_lt_two_pow (h.trans_le (Nat.pow_le_pow_right (by decide) (by omega))) ?_
  rw [Nat.shiftLeft_eq, Nat.pow_add, Nat.mul_comm]
  exact Nat.mul_lt_mul_of_pos_left b.isLt (Nat.two_pow_pos bits)

theorem shiftRight_fits {hold bits : ℕ} (h : hold < 2 ^ bits) {count : ℕ} (hc : count ≤ bits) :
    hold >>> count < 2 ^ (bits - count) := by
  rw [Nat.shiftRight_eq_div_pow, Nat.div_lt_iff_lt_mul (Nat.two_pow_pos _), ← Nat.pow_add,
    Nat.sub_add_cancel hc]
  exact h

/-- `while (bits < count)` -/
def fill (count : ℕ) : (rest : List Byte) → (hold bits : ℕ) → hold < 2 ^ bits → Option DeflateBits
  | [], hold, bits, h => if bits < count then none else some ⟨[], hold, bits, h⟩
  | b :: rest, hold, bits, h =>
    if bits < count then fill count rest (hold ||| b.toNat <<< bits) (bits + 8) (or_shift_lt h b)
    else some ⟨b :: rest, hold, bits, h⟩

theorem fill_bits {count : ℕ} {rest : List Byte} {hold bits : ℕ} {h : hold < 2 ^ bits}
    {d : DeflateBits} (hd : fill count rest hold bits h = some d) : count ≤ d.bits := by
  induction rest generalizing hold bits with
  | nil =>
    simp only [fill] at hd
    split at hd
    · cases hd
    · obtain rfl := Option.some.inj hd
      exact Nat.le_of_not_lt ‹_›
  | cons b rest ih =>
    simp only [fill] at hd
    split at hd
    · exact ih hd
    · obtain rfl := Option.some.inj hd
      exact Nat.le_of_not_lt ‹_›

def DeflateBits.read (d : DeflateBits) (count : ℕ) : Option (ℕ × DeflateBits) :=
  match h : fill count d.rest d.hold d.bits d.fits with
  | none => none
  | some e => some (e.hold &&& (2 ^ count - 1),
      ⟨e.rest, e.hold >>> count, e.bits - count, shiftRight_fits e.fits (fill_bits h)⟩)

def DeflateBits.alignByte (d : DeflateBits) : DeflateBits :=
  ⟨d.rest, d.hold >>> (d.bits &&& 7), d.bits - (d.bits &&& 7), shiftRight_fits d.fits Nat.and_le_left⟩

/-- Bits that are still to come. -/
def DeflateBits.remaining (d : DeflateBits) : ℕ := d.bits + 8 * d.rest.length

theorem fill_remaining {count : ℕ} {rest : List Byte} {hold bits : ℕ} {h : hold < 2 ^ bits}
    {d : DeflateBits} (hd : fill count rest hold bits h = some d) :
    d.remaining = bits + 8 * rest.length := by
  induction rest generalizing hold bits with
  | nil =>
    simp only [fill] at hd
    split at hd
    · cases hd
    · obtain rfl := Option.some.inj hd
      rfl
  | cons b rest ih =>
    simp only [fill] at hd
    split at hd
    · rw [ih hd, List.length_cons]
      omega
    · obtain rfl := Option.some.inj hd
      rfl

theorem read_remaining {d e : DeflateBits} {count v : ℕ} (h : d.read count = some (v, e)) :
    e.remaining + count = d.remaining := by
  unfold DeflateBits.read at h
  split at h
  · cases h
  · next f hf =>
    have hbits := fill_bits hf
    have hrem := fill_remaining hf
    cases h
    unfold DeflateBits.remaining at *
    simp only
    omega

/-! ## Tables -/

structure DeflateHuffman where
  count : List ℕ
  symbols : List ℕ

/-- Codes of each length; a length over 15 is refused. -/
def countLengths : List ℕ → List ℕ → Option (List ℕ)
  | [], count => some count
  | length :: lengths, count =>
    if 15 < length then none else countLengths lengths (count.modify length (· + 1))

/-- `left` over the lengths from 1 on. -/
def roomLeft (count : List ℕ) : List ℕ → ℤ → Bool
  | [], _ => true
  | length :: rest, left =>
    let left := 2 * left - count.getD length 0
    if left < 0 then false else roomLeft count rest left

def offsetsOf (count : List ℕ) : List ℕ :=
  (List.range' 1 14).foldl
    (fun offsets length => offsets.set (length + 1) (offsets.getD length 0 + count.getD length 0))
    (List.replicate 16 0)

def placeSymbol (p : List ℕ × List ℕ) (c : ℕ × ℕ) : List ℕ × List ℕ :=
  if c.1 = 0 then p
  else (p.1.modify c.1 (· + 1), p.2.set (p.1.getD c.1 0) c.2)

def buildHuffman (lengths : List ℕ) : Option DeflateHuffman :=
  match countLengths lengths (List.replicate 16 0) with
  | none => none
  | some count =>
    if count.getD 0 0 = lengths.length then none
    else if roomLeft count (List.range' 1 15) 1 = false then none
    else
      let symbols := List.replicate (lengths.length - count.getD 0 0) 0
      some ⟨count, (lengths.zipIdx.foldl placeSymbol (offsetsOf count, symbols)).2⟩

/-- The loop over the code lengths of `decode_symbol`. The code read never falls below `first`. -/
def decodeFrom (table : DeflateHuffman) :
    List ℕ → (code first index : ℕ) → DeflateBits → Option (ℕ × DeflateBits)
  | [], _, _, _, _ => none
  | length :: lengths, code, first, index, bits =>
    match bits.read 1 with
    | none => none
    | some (bit, bits) =>
      let code := code ||| bit
      let count := table.count.getD length 0
      if code < first + count then
        (table.symbols[index + code - first]?).map fun symbol => (symbol, bits)
      else decodeFrom table lengths (code <<< 1) ((first + count) <<< 1) (index + count) bits

def decodeSymbol (table : DeflateHuffman) (bits : DeflateBits) : Option (ℕ × DeflateBits) :=
  decodeFrom table (List.range' 1 15) 0 0 0 bits

theorem decodeFrom_remaining {table : DeflateHuffman} {lengths : List ℕ} {code first index v : ℕ}
    {d e : DeflateBits} (h : decodeFrom table lengths code first index d = some (v, e)) :
    e.remaining < d.remaining := by
  induction lengths generalizing code first index d with
  | nil => cases h
  | cons length lengths ih =>
    simp only [decodeFrom] at h
    split at h
    · cases h
    · next bit f hf =>
      have hread := read_remaining hf
      split at h
      · obtain ⟨s, -, hs⟩ := Option.map_eq_some_iff.1 h
        cases hs
        omega
      · have := ih h
        omega

theorem decodeSymbol_remaining {table : DeflateHuffman} {v : ℕ} {d e : DeflateBits}
    (h : decodeSymbol table d = some (v, e)) : e.remaining < d.remaining :=
  decodeFrom_remaining h

/-! ## Code lengths of a block -/

def fixedLiteralLengths : List ℕ :=
  List.replicate 144 8 ++ List.replicate 112 9 ++ List.replicate 24 7 ++ List.replicate 8 8

def fixedDistanceLengths : List ℕ := List.replicate 32 5

def order : List ℕ := [16, 17, 18, 0, 8, 7, 9, 6, 10, 5, 11, 4, 12, 3, 13, 2, 14, 1, 15]

/-- `for (i = 0; i < hclen; ++i)`, over the symbols in `order`. -/
def readCodeLengths : List ℕ → List ℕ → DeflateBits → Option (List ℕ × DeflateBits)
  | [], codeLengths, input => some (codeLengths, input)
  | symbol :: symbols, codeLengths, input =>
    match input.read 3 with
    | none => none
    | some (value, input) => readCodeLengths symbols (codeLengths.set symbol value) input

/-- One symbol of the run-length code: how often a length is put, and which. -/
def readRepeat (symbol : ℕ) (lengths : List ℕ) (input : DeflateBits) :
    Option (ℕ × ℕ × DeflateBits) :=
  if symbol ≤ 15 then some (1, symbol, input)
  else if symbol = 16 then
    match lengths.getLast?, input.read 2 with
    | some value, some (extra, input) => some (extra + 3, value, input)
    | _, _ => none
  else if symbol = 17 then (input.read 3).map fun r => (r.1 + 3, 0, r.2)
  else if symbol = 18 then (input.read 7).map fun r => (r.1 + 11, 0, r.2)
  else none

theorem readRepeat_pos {symbol : ℕ} {lengths : List ℕ} {input : DeflateBits} {n v : ℕ}
    {e : DeflateBits} (h : readRepeat symbol lengths input = some (n, v, e)) : 0 < n := by
  unfold readRepeat at h
  split_ifs at h
  · cases h
    decide
  · split at h
    · cases h
      omega
    · cases h
  · obtain ⟨r, -, hr⟩ := Option.map_eq_some_iff.1 h
    cases hr
    omega
  · obtain ⟨r, -, hr⟩ := Option.map_eq_some_iff.1 h
    cases hr
    omega

/-- `while (lengths.size() < hlit + hdist)` -/
def readLengths (table : DeflateHuffman) (total : ℕ) (lengths : List ℕ) (input : DeflateBits) :
    Option (List ℕ × DeflateBits) :=
  if lengths.length < total then
    match decodeSymbol table input with
    | none => none
    | some (symbol, input) =>
      match _h : readRepeat symbol lengths input with
      | none => none
      | some (n, value, input) =>
        if total < lengths.length + n then none
        else readLengths table total (lengths ++ List.replicate n value) input
  else some (lengths, input)
termination_by total - lengths.length
decreasing_by
  have := readRepeat_pos _h
  simp only [List.length_append, List.length_replicate]
  omega

/-- The two lists of lengths of a dynamic block. -/
def readDynamic (input : DeflateBits) : Option ((List ℕ × List ℕ) × DeflateBits) := do
  let (hlit, input) ← input.read 5
  let (hdist, input) ← input.read 5
  let (hclen, input) ← input.read 4
  let (codeLengths, input) ← readCodeLengths (order.take (hclen + 4)) (List.replicate 19 0) input
  let codeTable ← buildHuffman codeLengths
  let (lengths, input) ← readLengths codeTable (hlit + 257 + (hdist + 1)) [] input
  return ((lengths.take (hlit + 257), lengths.drop (hlit + 257)), input)

/-! ## Output -/

/-- How a loop ends: it is left, or `false` is returned, or a byte outside the output was read. -/
inductive Ending where
  | done (out : List Byte) (input : DeflateBits)
  | rejected (out : List Byte)
  | wild

/-- One turn of a loop. -/
inductive Turn where
  | next (out : List Byte) (input : DeflateBits)
  | ended (e : Ending)

def lengthBase : List ℕ :=
  [3, 4, 5, 6, 7, 8, 9, 10, 11, 13, 15, 17, 19, 23, 27, 31, 35, 43, 51, 59, 67, 83, 99, 115, 131,
    163, 195, 227, 258]

def lengthExtra : List ℕ :=
  [0, 0, 0, 0, 0, 0, 0, 0, 1, 1, 1, 1, 2, 2, 2, 2, 3, 3, 3, 3, 4, 4, 4, 4, 5, 5, 5, 5, 0]

def distanceBase : List ℕ :=
  [1, 2, 3, 4, 5, 7, 9, 13, 17, 25, 33, 49, 65, 97, 129, 193, 257, 385, 513, 769, 1025, 1537, 2049,
    3073, 4097, 6145, 8193, 12289, 16385, 24577]

def distanceExtra : List ℕ :=
  [0, 0, 0, 0, 1, 1, 2, 2, 3, 3, 4, 4, 5, 5, 6, 6, 7, 7, 8, 8, 9, 9, 10, 10, 11, 11, 12, 12, 13, 13]

/-- `for (i = 0; i < length; ++i)`, one byte of the output after the other. -/
def copyBack (distance : ℕ) : ℕ → List Byte → Option (List Byte)
  | 0, out => some out
  | length + 1, out =>
    match out[out.length - distance]? with
    | none => none
    | some b => copyBack distance length (out ++ [b])

def readStored : ℕ → List Byte → DeflateBits → List Byte × Option DeflateBits
  | 0, out, input => (out, some input)
  | length + 1, out, input =>
    match input.read 8 with
    | none => (out, none)
    | some (byte, input) => readStored length (out ++ [BitVec.ofNat 8 byte]) input

/-- A copy, once its first symbol is known: the length and the distance. -/
def readCopy (distances : DeflateHuffman) (symbol : ℕ) (input : DeflateBits) :
    Option (ℕ × ℕ × DeflateBits) := do
  let (extra, input) ← input.read (lengthExtra.getD (symbol - 257) 0)
  let length := lengthBase.getD (symbol - 257) 0 + extra
  let (distanceSymbol, input) ← decodeSymbol distances input
  if 30 ≤ distanceSymbol then none
  let (extra, input) ← input.read (distanceExtra.getD distanceSymbol 0)
  return (length, distanceBase.getD distanceSymbol 0 + extra, input)

/-- One turn of `for (;;)`. -/
def readToken (literals distances : DeflateHuffman) (expected : ℕ) (out : List Byte)
    (input : DeflateBits) : Turn :=
  match decodeSymbol literals input with
  | none => .ended (.rejected out)
  | some (symbol, input) =>
    if symbol < 256 then
      if expected ≤ out.length then .ended (.rejected out)
      else .next (out ++ [BitVec.ofNat 8 symbol]) input
    else if symbol = 256 then .ended (.done out input)
    else if 285 < symbol then .ended (.rejected out)
    else
      match readCopy distances symbol input with
      | none => .ended (.rejected out)
      | some (length, distance, input) =>
        if distance = 0 ∨ out.length < distance ∨ expected < out.length + length then
          .ended (.rejected out)
        else
          match copyBack distance length out with
          | none => .ended .wild
          | some out => .next out input

theorem readCopy_remaining {distances : DeflateHuffman} {symbol length distance : ℕ}
    {d e : DeflateBits} (h : readCopy distances symbol d = some (length, distance, e)) :
    e.remaining < d.remaining := by
  simp only [readCopy, Option.bind_eq_bind, Option.bind_eq_some_iff, Prod.exists] at h
  obtain ⟨x, d₁, h₁, s, d₂, h₂, h⟩ := h
  split at h
  · cases h
  · simp only [Option.bind_eq_some_iff, Prod.exists] at h
    obtain ⟨y, d₃, h₃, h⟩ := h
    cases h
    have := read_remaining h₁
    have := decodeSymbol_remaining h₂
    have := read_remaining h₃
    omega

def Turn.Shrinks (n : ℕ) : Turn → Prop
  | .next _ e => e.remaining < n
  | .ended (.done _ e) => e.remaining < n
  | .ended _ => True

theorem readToken_shrinks (literals distances : DeflateHuffman) (expected : ℕ) (out : List Byte)
    (d : DeflateBits) :
    (readToken literals distances expected out d).Shrinks d.remaining := by
  unfold readToken
  split
  · trivial
  · next symbol f hf =>
    have hdecode := decodeSymbol_remaining hf
    split_ifs
    · trivial
    · exact hdecode
    · exact hdecode
    · trivial
    · split
      · trivial
      · next length distance g hg =>
        have hcopy := readCopy_remaining hg
        split_ifs
        · trivial
        · split
          · trivial
          · exact hcopy.trans hdecode

/-- `for (;;)`, to the end-of-block symbol. -/
def readTokens (literals distances : DeflateHuffman) (expected : ℕ) (out : List Byte)
    (input : DeflateBits) : Ending :=
  match _h : readToken literals distances expected out input with
  | .next out₁ input₁ => readTokens literals distances expected out₁ input₁
  | .ended e => e
termination_by input.remaining
decreasing_by
  have hshrink := readToken_shrinks literals distances expected out input
  rw [_h] at hshrink
  exact hshrink

/-- A block of type 0. -/
def storedBlock (expected : ℕ) (out : List Byte) (input : DeflateBits) : Ending :=
  match input.alignByte.read 16 with
  | none => .rejected out
  | some (length, input) =>
    match input.read 16 with
    | none => .rejected out
    | some (complement, input) =>
      if length ^^^ 0xFFFF ≠ complement ∨ expected < out.length + length then .rejected out
      else
        match readStored length out input with
        | (out, none) => .rejected out
        | (out, some input) => .done out input

/-- The two tables, and then the symbols of a block. -/
def codedBlock (expected : ℕ) (lengths : List ℕ × List ℕ) (out : List Byte)
    (input : DeflateBits) : Ending :=
  match buildHuffman lengths.1, buildHuffman lengths.2 with
  | some literals, some distances => readTokens literals distances expected out input
  | _, _ => .rejected out

/-- What follows the three bits of a block's head. -/
def blockBody (expected type : ℕ) (out : List Byte) (input : DeflateBits) : Ending :=
  if type = 0 then storedBlock expected out input
  else if type = 3 then .rejected out
  else if type = 1 then
    codedBlock expected (fixedLiteralLengths, fixedDistanceLengths) out input
  else
    match readDynamic input with
    | none => .rejected out
    | some (lengths, input) => codedBlock expected lengths out input

/-- The loop over the blocks ends after a final one. -/
def blockEnd (final : ℕ) : Ending → Turn
  | .done out input => if final = 0 then .next out input else .ended (.done out input)
  | .rejected out => .ended (.rejected out)
  | .wild => .ended .wild

/-- One turn of `while (!final)`. -/
def readBlock (expected : ℕ) (out : List Byte) (input : DeflateBits) : Turn :=
  match input.read 1 with
  | none => .ended (.rejected out)
  | some (final, input) =>
    match input.read 2 with
    | none => .ended (.rejected out)
    | some (type, input) => blockEnd final (blockBody expected type out input)

theorem readTokens_remaining {literals distances : DeflateHuffman} {expected : ℕ}
    {out out' : List Byte} {d e : DeflateBits}
    (h : readTokens literals distances expected out d = .done out' e) :
    e.remaining < d.remaining := by
  fun_induction readTokens literals distances expected out d with
  | case1 out d out₁ d₁ ht ih =>
    have hshrink := readToken_shrinks literals distances expected out d
    rw [ht] at hshrink
    exact (ih h).trans hshrink
  | case2 out d en ht =>
    have hshrink := readToken_shrinks literals distances expected out d
    rw [ht, h] at hshrink
    exact hshrink

theorem readStored_remaining {length : ℕ} {out out' : List Byte} {d e : DeflateBits}
    (h : readStored length out d = (out', some e)) : e.remaining ≤ d.remaining := by
  induction length generalizing out d with
  | zero =>
    cases h
    exact le_rfl
  | succ length ih =>
    simp only [readStored] at h
    split at h
    · cases h
    · next byte f hf =>
      have := read_remaining hf
      have := ih h
      omega

theorem storedBlock_remaining {expected : ℕ} {out out' : List Byte} {d e : DeflateBits}
    (h : storedBlock expected out d = .done out' e) : e.remaining < d.remaining := by
  have halign : d.alignByte.remaining ≤ d.remaining :=
    Nat.add_le_add_right (Nat.sub_le _ _) _
  unfold storedBlock at h
  split at h
  · cases h
  · next d₁ h₁ =>
    split at h
    · cases h
    · next d₂ h₂ =>
      split_ifs at h
      split at h
      · cases h
      · next h₃ =>
        have := read_remaining h₁
        have := read_remaining h₂
        have := readStored_remaining h₃
        cases h
        omega

theorem codedBlock_remaining {expected : ℕ} {lengths : List ℕ × List ℕ} {out out' : List Byte}
    {d e : DeflateBits} (h : codedBlock expected lengths out d = .done out' e) :
    e.remaining < d.remaining := by
  unfold codedBlock at h
  split at h
  · exact readTokens_remaining h
  · cases h

theorem readCodeLengths_remaining {symbols codeLengths codeLengths' : List ℕ} {d e : DeflateBits}
    (h : readCodeLengths symbols codeLengths d = some (codeLengths', e)) :
    e.remaining ≤ d.remaining := by
  induction symbols generalizing codeLengths d with
  | nil =>
    cases h
    exact le_rfl
  | cons symbol symbols ih =>
    simp only [readCodeLengths] at h
    split at h
    · cases h
    · next hf =>
      have := read_remaining hf
      have := ih h
      omega

theorem readRepeat_remaining {symbol : ℕ} {lengths : List ℕ} {n v : ℕ} {d e : DeflateBits}
    (h : readRepeat symbol lengths d = some (n, v, e)) : e.remaining ≤ d.remaining := by
  unfold readRepeat at h
  split_ifs at h
  · cases h
    exact le_rfl
  · split at h
    · next hf =>
      have := read_remaining hf
      cases h
      omega
    · cases h
  · obtain ⟨r, hr, hv⟩ := Option.map_eq_some_iff.1 h
    have := read_remaining (e := r.2) hr
    cases hv
    omega
  · obtain ⟨r, hr, hv⟩ := Option.map_eq_some_iff.1 h
    have := read_remaining (e := r.2) hr
    cases hv
    omega

theorem readLengths_remaining {table : DeflateHuffman} {total : ℕ} {lengths lengths' : List ℕ}
    {d e : DeflateBits} (h : readLengths table total lengths d = some (lengths', e)) :
    e.remaining ≤ d.remaining := by
  fun_induction readLengths table total lengths d with
  | case1 => cases h
  | case2 => cases h
  | case3 => cases h
  | case4 lengths d hlt symbol d₁ hdecode n value d₂ hrepeat hle ih =>
    have := decodeSymbol_remaining hdecode
    have := readRepeat_remaining hrepeat
    have := ih h
    omega
  | case5 =>
    cases h
    exact le_rfl

theorem readDynamic_remaining {lengths : List ℕ × List ℕ} {d e : DeflateBits}
    (h : readDynamic d = some (lengths, e)) : e.remaining ≤ d.remaining := by
  simp only [readDynamic, Option.bind_eq_bind, Option.bind_eq_some_iff, Prod.exists] at h
  obtain ⟨hlit, d₁, h₁, hdist, d₂, h₂, hclen, d₃, h₃, cl, d₄, h₄, t, -, ls, d₅, h₅, h⟩ := h
  have := read_remaining h₁
  have := read_remaining h₂
  have := read_remaining h₃
  have := readCodeLengths_remaining h₄
  have := readLengths_remaining h₅
  cases h
  omega

theorem blockBody_remaining {expected type : ℕ} {out out' : List Byte} {d e : DeflateBits}
    (h : blockBody expected type out d = .done out' e) : e.remaining < d.remaining := by
  unfold blockBody at h
  split_ifs at h
  · exact storedBlock_remaining h
  · exact codedBlock_remaining h
  · split at h
    · cases h
    · next hd => exact (codedBlock_remaining h).trans_le (readDynamic_remaining hd)

theorem readBlock_shrinks (expected : ℕ) (out : List Byte) (d : DeflateBits) :
    (readBlock expected out d).Shrinks d.remaining := by
  unfold readBlock
  split
  · trivial
  · next h₁ =>
    have := read_remaining h₁
    split
    · trivial
    · next h₂ =>
      have := read_remaining h₂
      cases h₃ : blockBody expected _ out _ with
      | done out e =>
        have := blockBody_remaining h₃
        unfold blockEnd
        split_ifs <;> simp only [Turn.Shrinks] <;> omega
      | rejected out => trivial
      | wild => trivial

/-- `while (!final)` -/
def readBlocks (expected : ℕ) (out : List Byte) (input : DeflateBits) : Ending :=
  match _h : readBlock expected out input with
  | .next out₁ input₁ => readBlocks expected out₁ input₁
  | .ended e => e
termination_by input.remaining
decreasing_by
  have hshrink := readBlock_shrinks expected out input
  rw [_h] at hshrink
  exact hshrink

/-- What `inflate_deflate` returns, and `out`. -/
inductive Inflation where
  | accepted (out : List Byte)
  | rejected (out : List Byte)
  | wild

def inflateDeflate (data : List Byte) (expected : ℕ) : Inflation :=
  match readBlocks expected [] (.start data) with
  | .done out _ => if out.length = expected then .accepted out else .rejected out
  | .rejected out => .rejected out
  | .wild => .wild

end PsxRecomp.Mods
