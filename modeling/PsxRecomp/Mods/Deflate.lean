import PsxRecomp.Library.CanonicalCode
import PsxRecomp.Mods.Plan

/-! DEFLATE streams: blocks and their symbols, the bytes they stand for, and the bits they are
written in. -/
namespace PsxRecomp.Mods.Deflate
open BitString CanonicalCode
set_option autoImplicit false

/-! ## Symbols -/

/-- A byte, or a copy: the two symbols, counted from the first of their kind, with extra bits. -/
inductive Token where
  | literal (b : Byte)
  | copy (lengthIndex lengthRest distanceIndex distanceRest : ℕ)
  deriving DecidableEq

def lengthBits (i : ℕ) : ℕ := if i = 28 then 0 else i / 4 - 1

def lengthStart (i : ℕ) : ℕ :=
  if i < 4 then 3 + i else if i = 28 then 258 else 3 + (4 + i % 4) * 2 ^ (i / 4 - 1)

def distanceBits (j : ℕ) : ℕ := j / 2 - 1

def distanceStart (j : ℕ) : ℕ := if j < 2 then 1 + j else 1 + (2 + j % 2) * 2 ^ (j / 2 - 1)

/-- The last bytes of the output, over and over. -/
def repeated (out : List Byte) (distance length : ℕ) : List Byte :=
  (List.range length).map fun i => out.getD (out.length - distance + i % distance) 0

def Token.apply (out : List Byte) : Token → Option (List Byte)
  | .literal b => some (out ++ [b])
  | .copy i x j y =>
    if distanceStart j + y ≤ out.length then
      some (out ++ repeated out (distanceStart j + y) (lengthStart i + x))
    else none

def Token.bits (literals distances : List ℕ) : Token → List Bool
  | .literal b => codeword literals b.toNat
  | .copy i x j y =>
    codeword literals (257 + i) ++ lsb x (lengthBits i) ++
      (codeword distances j ++ lsb y (distanceBits j))

/-- The symbols exist and have a codeword. -/
def Token.Conforming (literals distances : List ℕ) : Token → Prop
  | .literal b => lengthOf literals b.toNat ≠ 0
  | .copy i x j y =>
    (i < 29 ∧ x < 2 ^ lengthBits i ∧ lengthOf literals (257 + i) ≠ 0) ∧
      j < 30 ∧ y < 2 ^ distanceBits j ∧ lengthOf distances j ≠ 0

instance (literals distances : List ℕ) : (t : Token) → Decidable (t.Conforming literals distances)
  | .literal b => inferInstanceAs (Decidable (lengthOf literals b.toNat ≠ 0))
  | .copy i x j y =>
    inferInstanceAs (Decidable ((i < 29 ∧ x < 2 ^ lengthBits i ∧ lengthOf literals (257 + i) ≠ 0) ∧
      j < 30 ∧ y < 2 ^ distanceBits j ∧ lengthOf distances j ≠ 0))

/-! ## Code lengths -/

/-- A symbol of the code for code lengths: one length, the last one again, or zeros. -/
inductive Run where
  | length (l : ℕ)
  | again (extra : ℕ)
  | zeros (extra : ℕ)
  | manyZeros (extra : ℕ)
  deriving DecidableEq

def Run.apply (lengths : List ℕ) : Run → Option (List ℕ)
  | .length l => some (lengths ++ [l])
  | .again x => lengths.getLast?.map fun l => lengths ++ List.replicate (3 + x) l
  | .zeros x => some (lengths ++ List.replicate (3 + x) 0)
  | .manyZeros x => some (lengths ++ List.replicate (11 + x) 0)

def Run.symbol : Run → ℕ
  | .length l => l
  | .again _ => 16
  | .zeros _ => 17
  | .manyZeros _ => 18

def Run.extra : Run → List Bool
  | .length _ => []
  | .again x => lsb x 2
  | .zeros x => lsb x 3
  | .manyZeros x => lsb x 7

def Run.Fits : Run → Prop
  | .length l => l ≤ 15
  | .again x => x < 4
  | .zeros x => x < 8
  | .manyZeros x => x < 128

instance : (r : Run) → Decidable r.Fits
  | .length l => inferInstanceAs (Decidable (l ≤ 15))
  | .again x => inferInstanceAs (Decidable (x < 4))
  | .zeros x => inferInstanceAs (Decidable (x < 8))
  | .manyZeros x => inferInstanceAs (Decidable (x < 128))

/-- The order in which the lengths of the code for code lengths are written. -/
def codeLengthOrder : List ℕ := [16, 17, 18, 0, 8, 7, 9, 6, 10, 5, 11, 4, 12, 3, 13, 2, 14, 1, 15]

structure Header where
  hclen : ℕ
  codeLengths : List ℕ
  runs : List Run
  literals : List ℕ
  distances : List ℕ

def Header.bits (h : Header) : List Bool :=
  lsb (h.literals.length - 257) 5 ++ lsb (h.distances.length - 1) 5 ++ lsb (h.hclen - 4) 4 ++
    (codeLengthOrder.take h.hclen).flatMap (fun s => lsb (lengthOf h.codeLengths s) 3) ++
    h.runs.flatMap fun r => codeword h.codeLengths r.symbol ++ r.extra

structure Header.Conforming (h : Header) : Prop where
  hclen : 4 ≤ h.hclen ∧ h.hclen ≤ 19
  codeLengths : h.codeLengths.length = 19 ∧ Feasible h.codeLengths 7
  unwritten : ∀ s ∈ codeLengthOrder.drop h.hclen, lengthOf h.codeLengths s = 0
  runs : ∀ r ∈ h.runs, r.Fits ∧ lengthOf h.codeLengths r.symbol ≠ 0
  yields : h.runs.foldlM Run.apply [] = some (h.literals ++ h.distances)
  literals : (257 ≤ h.literals.length ∧ h.literals.length ≤ 286) ∧ Feasible h.literals 15
  distances : (1 ≤ h.distances.length ∧ h.distances.length ≤ 32) ∧ Feasible h.distances 15

/-! ## Blocks -/

inductive Block where
  | stored (padding : List Bool) (bytes : List Byte)
  | fixed (tokens : List Token)
  | dynamic (header : Header) (tokens : List Token)

def fixedLiterals : List ℕ :=
  (List.range 288).map fun s => if s < 144 then 8 else if s < 256 then 9 else if s < 280 then 7 else 8

def fixedDistances : List ℕ := (List.range 32).map fun _ => 5

/-- The symbols of a block and the end-of-block symbol. -/
def codedBits (literals distances : List ℕ) (tokens : List Token) : List Bool :=
  tokens.flatMap (Token.bits literals distances) ++ codeword literals 256

def CodedConforming (literals distances : List ℕ) (tokens : List Token) : Prop :=
  (∀ t ∈ tokens, t.Conforming literals distances) ∧ lengthOf literals 256 ≠ 0

instance (literals distances : List ℕ) (tokens : List Token) :
    Decidable (CodedConforming literals distances tokens) :=
  inferInstanceAs (Decidable (_ ∧ _ ≠ _))

/-- A block without the bit that says whether it is the last. -/
def Block.bits : Block → List Bool
  | .stored padding bytes =>
    lsb 0 2 ++ padding ++ lsb bytes.length 16 ++ lsb (65535 - bytes.length) 16 ++
      bytes.flatMap fun b => lsb b.toNat 8
  | .fixed tokens => lsb 1 2 ++ codedBits fixedLiterals fixedDistances tokens
  | .dynamic h tokens => lsb 2 2 ++ h.bits ++ codedBits h.literals h.distances tokens

/-- At this bit of the stream: the bytes of a stored block start at a byte. -/
def Block.Conforming (pos : ℕ) : Block → Prop
  | .stored padding bytes =>
    (padding.length < 8 ∧ 8 ∣ pos + 3 + padding.length) ∧ bytes.length < 65536
  | .fixed tokens => CodedConforming fixedLiterals fixedDistances tokens
  | .dynamic h tokens => h.Conforming ∧ CodedConforming h.literals h.distances tokens

def Block.apply (out : List Byte) : Block → Option (List Byte)
  | .stored _ bytes => some (out ++ bytes)
  | .fixed tokens => tokens.foldlM Token.apply out
  | .dynamic _ tokens => tokens.foldlM Token.apply out

/-- A block of literals only, whose distance code has no codeword. -/
def Block.NoDistanceCode : Block → Prop
  | .dynamic h _ => ∀ l ∈ h.distances, l = 0
  | _ => False

/-! ## Streams -/

structure Stream where
  blocks : List Block
  last : Block

def Stream.bits (s : Stream) : List Bool :=
  s.blocks.flatMap (fun b => false :: b.bits) ++ true :: s.last.bits

def ConformingFrom (last : Block) : ℕ → List Block → Prop
  | pos, [] => last.Conforming pos
  | pos, b :: blocks => b.Conforming pos ∧ ConformingFrom last (pos + 1 + b.bits.length) blocks

def Stream.Conforming (s : Stream) : Prop := ConformingFrom s.last 0 s.blocks

def Stream.decompressed (s : Stream) : Option (List Byte) :=
  (s.blocks ++ [s.last]).foldlM Block.apply []

/-- The bits of the bytes of a file. -/
def dataBits (data : List Byte) : List Bool := data.flatMap fun b => lsb b.toNat 8

end PsxRecomp.Mods.Deflate
