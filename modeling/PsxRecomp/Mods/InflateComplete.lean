import PsxRecomp.Mods.HuffmanTable
import PsxRecomp.Mods.InflateBounded

/-! Conforming streams run through `inflate_deflate`: each reader on the bits of what it reads, and
then blocks and whole streams. -/
namespace PsxRecomp.Mods
open BitString CanonicalCode Deflate
set_option autoImplicit false

/-! ## Lengths grow -/

theorem Token.apply_length {out out' : List Byte} {t : Token} (h : t.apply out = some out') :
    out.length ≤ out'.length := by
  cases t with
  | literal b =>
    cases h
    simp
  | copy i x j y =>
    simp only [Token.apply] at h
    split at h
    · cases h
      simp
    · cases h

theorem foldlM_length {α β : Type*} {f : List α → β → Option (List α)}
    (hf : ∀ {out b out'}, f out b = some out' → out.length ≤ out'.length) {bs : List β}
    {out out' : List α} (h : bs.foldlM f out = some out') : out.length ≤ out'.length := by
  induction bs generalizing out with
  | nil =>
    cases h
    exact le_rfl
  | cons b bs ih =>
    rw [List.foldlM_cons, Option.bind_eq_bind, Option.bind_eq_some_iff] at h
    obtain ⟨out₁, h₁, h₂⟩ := h
    exact (hf h₁).trans (ih h₂)

theorem Block.apply_length {out out' : List Byte} {b : Block} (h : b.apply out = some out') :
    out.length ≤ out'.length := by
  cases b with
  | stored padding bytes =>
    cases h
    simp
  | fixed tokens => exact foldlM_length (fun h => Token.apply_length h) h
  | dynamic header tokens => exact foldlM_length (fun h => Token.apply_length h) h

/-! ## Symbols -/

theorem lengthExtra_eq : ∀ i < 29, lengthExtra.getD i 0 = lengthBits i := by decide

theorem lengthBase_eq : ∀ i < 29, lengthBase.getD i 0 = lengthStart i := by decide

theorem distanceExtra_eq : ∀ j < 30, distanceExtra.getD j 0 = distanceBits j := by decide

theorem distanceBase_eq : ∀ j < 30, distanceBase.getD j 0 = distanceStart j := by decide

theorem distanceStart_pos (j : ℕ) : 0 < distanceStart j := by
  unfold distanceStart
  split <;> omega

variable {literals distances : List ℕ} {lt dt : DeflateHuffman}

theorem readCopy_bits (hd : dt.Reads distances) (hfd : Feasible distances 15) {i x j y : ℕ}
    (hi : i < 29) (hx : x < 2 ^ lengthBits i) (hj : j < 30) (hy : y < 2 ^ distanceBits j)
    (hs : lengthOf distances j ≠ 0) {d : DeflateBits} {rest : List Bool}
    (h : d.pending =
      lsb x (lengthBits i) ++ (codeword distances j ++ (lsb y (distanceBits j) ++ rest))) :
    ∃ e, readCopy dt (257 + i) d = some (lengthStart i + x, distanceStart j + y, e) ∧
      e.pending = rest := by
  obtain ⟨d₁, h₁, hp₁⟩ := read_lsb hx h
  obtain ⟨d₂, h₂, hp₂⟩ := decodeSymbol_codeword hd hfd hs hp₁
  obtain ⟨d₃, h₃, hp₃⟩ := read_lsb hy hp₂
  refine ⟨d₃, ?_, hp₃⟩
  simp only [readCopy, Nat.add_sub_cancel_left, lengthExtra_eq i hi, lengthBase_eq i hi, h₁,
    Option.bind_eq_bind, Option.bind_some, h₂, if_neg (Nat.not_le.2 hj), distanceExtra_eq j hj,
    distanceBase_eq j hj, h₃]
  rfl

theorem readToken_bits (hl : lt.Reads literals) (hfl : Feasible literals 15)
    (hd : (∃ l ∈ distances, l ≠ 0) → dt.Reads distances) (hfd : Feasible distances 15) {t : Token}
    (ht : t.Conforming literals distances) {out out' : List Byte} (ha : t.apply out = some out')
    {expected : ℕ} (hle : out'.length ≤ expected) {d : DeflateBits} {rest : List Bool}
    (h : d.pending = t.bits literals distances ++ rest) :
    ∃ e, readToken lt dt expected out d = .next out' e ∧ e.pending = rest := by
  cases t with
  | literal b =>
    cases ha
    obtain ⟨e, he, hp⟩ := decodeSymbol_codeword hl hfl ht h
    refine ⟨e, ?_, hp⟩
    rw [List.length_append, List.length_singleton] at hle
    simp only [readToken, he, if_pos b.isLt, if_neg (show ¬expected ≤ out.length by omega),
      BitVec.ofNat_toNat, BitVec.setWidth_eq]
  | copy i x j y =>
    obtain ⟨⟨hi, hx, hsl⟩, hj, hy, hsd⟩ := ht
    simp only [Token.bits, List.append_assoc] at h
    obtain ⟨d₁, h₁, hp₁⟩ := decodeSymbol_codeword hl hfl hsl h
    obtain ⟨e, he, hp⟩ := readCopy_bits (hd ⟨_, lengthOf_mem hsd, hsd⟩) hfd hi hx hj hy hsd hp₁
    refine ⟨e, ?_, hp⟩
    simp only [Token.apply] at ha
    split at ha
    · next hdist =>
      have hpos : 0 < distanceStart j + y := Nat.add_pos_left (distanceStart_pos j) y
      cases ha
      rw [List.length_append, repeated_length] at hle
      simp only [readToken, h₁, he, if_neg (show ¬257 + i < 256 by omega),
        if_neg (show ¬257 + i = 256 by omega), if_neg (show ¬285 < 257 + i by omega),
        copyBack_eq hpos _ hdist]
      rw [if_neg]
      omega
    · cases ha

theorem readTokens_bits (hl : lt.Reads literals) (hfl : Feasible literals 15)
    (hd : (∃ l ∈ distances, l ≠ 0) → dt.Reads distances) (hfd : Feasible distances 15)
    {tokens : List Token} (hc : CodedConforming literals distances tokens)
    {out out' : List Byte} (ha : tokens.foldlM Token.apply out = some out')
    {expected : ℕ} (hle : out'.length ≤ expected) {d : DeflateBits} {rest : List Bool}
    (h : d.pending = codedBits literals distances tokens ++ rest) :
    ∃ e, readTokens lt dt expected out d = .done out' e ∧ e.pending = rest := by
  obtain ⟨htokens, hend⟩ := hc
  induction tokens generalizing out d with
  | nil =>
    cases ha
    obtain ⟨e, he, hp⟩ := decodeSymbol_codeword hl hfl hend h
    refine ⟨e, ?_, hp⟩
    have hturn : readToken lt dt expected out' d = .ended (.done out' e) := by
      simp [readToken, he]
    rw [readTokens]
    split
    · next hn => exact absurd (hturn.symm.trans hn) (by simp)
    · next hn => exact (Turn.ended.inj (hturn.symm.trans hn)).symm
  | cons t tokens ih =>
    rw [List.foldlM_cons, Option.bind_eq_bind, Option.bind_eq_some_iff] at ha
    obtain ⟨out₁, ha₁, ha₂⟩ := ha
    obtain ⟨ht, hrest⟩ := List.forall_mem_cons.1 htokens
    have hgrow := foldlM_length (fun h => Token.apply_length h) ha₂
    simp only [codedBits, List.flatMap_cons, List.append_assoc] at h
    obtain ⟨d₁, h₁, hp₁⟩ := readToken_bits hl hfl hd hfd ht ha₁ (hgrow.trans hle) h
    obtain ⟨e, he, hp⟩ := ih ha₂ (by rw [hp₁, codedBits, List.append_assoc]) hrest
    refine ⟨e, ?_, hp⟩
    rw [readTokens]
    split
    · next hn =>
      obtain ⟨rfl, rfl⟩ := Turn.next.inj (h₁.symm.trans hn)
      exact he
    · next hn => exact absurd (h₁.symm.trans hn) (by simp)

/-! ## Headers -/

theorem readCodeLengths_bits (cl : List ℕ) (hcl : ∀ s, lengthOf cl s < 8) (symbols : List ℕ)
    (acc : List ℕ) {d : DeflateBits} {rest : List Bool}
    (h : d.pending = symbols.flatMap (fun s => lsb (lengthOf cl s) 3) ++ rest) :
    ∃ e, readCodeLengths symbols acc d =
      some (symbols.foldl (fun acc s => acc.set s (lengthOf cl s)) acc, e) ∧ e.pending = rest := by
  induction symbols generalizing acc d with
  | nil => exact ⟨d, rfl, h⟩
  | cons s symbols ih =>
    rw [List.flatMap_cons, List.append_assoc] at h
    obtain ⟨d₁, h₁, hp₁⟩ := read_lsb (hcl s) h
    obtain ⟨e, he, hp⟩ := ih (acc.set s (lengthOf cl s)) hp₁
    exact ⟨e, by rw [readCodeLengths, h₁]; exact he, hp⟩

theorem foldl_set_getElem? (f : ℕ → ℕ) (symbols acc : List ℕ) (i : ℕ) (hi : i < acc.length) :
    (symbols.foldl (fun acc s => acc.set s (f s)) acc)[i]? =
      if i ∈ symbols then some (f i) else acc[i]? := by
  induction symbols generalizing acc with
  | nil => simp
  | cons s symbols ih =>
    rw [List.foldl_cons, ih _ (by simpa using hi), List.getElem?_set]
    by_cases hs : s = i
    · subst hs
      simp [hi]
    · simp [hs, Ne.symm hs]

theorem foldl_set_length (f : ℕ → ℕ) (symbols acc : List ℕ) :
    (symbols.foldl (fun acc s => acc.set s (f s)) acc).length = acc.length := by
  induction symbols generalizing acc with
  | nil => rfl
  | cons s symbols ih => rw [List.foldl_cons, ih, List.length_set]

/-- The lengths that are not written are zero, so the others make up the whole code. -/
theorem codeLengths_written {cl : List ℕ} (hlen : cl.length = 19) (n : ℕ)
    (hzero : ∀ s ∈ codeLengthOrder.drop n, lengthOf cl s = 0) :
    (order.take n).foldl (fun acc s => acc.set s (lengthOf cl s)) (List.replicate 19 0) = cl := by
  refine List.ext_getElem? fun i => ?_
  rcases Nat.lt_or_ge i 19 with hi | hi
  · have hval : cl[i]? = some (lengthOf cl i) := by
      rw [lengthOf_eq_getElem (hlen.symm ▸ hi)]
      exact List.getElem?_eq_getElem _
    rw [foldl_set_getElem? _ _ _ _ (by simpa using hi), hval]
    split_ifs with hmem
    · rfl
    · have hall : ∀ i < 19, i ∈ order := by decide
      have hdrop : i ∈ order.drop n := by
        have := hall i hi
        rw [← List.take_append_drop n order, List.mem_append] at this
        exact this.resolve_left hmem
      rw [hzero i hdrop, List.getElem?_replicate, if_pos hi]
  · rw [List.getElem?_eq_none (by rw [foldl_set_length]; simpa using hi),
      List.getElem?_eq_none (by omega)]

theorem readRepeat_bits {r : Run} (hr : r.Fits) {lengths lengths' : List ℕ}
    (ha : r.apply lengths = some lengths') {d : DeflateBits} {rest : List Bool}
    (h : d.pending = r.extra ++ rest) :
    ∃ n v e, readRepeat r.symbol lengths d = some (n, v, e) ∧
      lengths' = lengths ++ List.replicate n v ∧ e.pending = rest := by
  cases r with
  | length l =>
    cases ha
    exact ⟨1, l, d, if_pos hr, rfl, h⟩
  | again x =>
    obtain ⟨v, hv, rfl⟩ := Option.map_eq_some_iff.1 ha
    obtain ⟨e, he, hp⟩ := read_lsb (n := 2) hr h
    exact ⟨x + 3, v, e, by simp [readRepeat, Run.symbol, hv, he], by rw [Nat.add_comm], hp⟩
  | zeros x =>
    cases ha
    obtain ⟨e, he, hp⟩ := read_lsb (n := 3) hr h
    exact ⟨x + 3, 0, e, by simp [readRepeat, Run.symbol, he], by rw [Nat.add_comm], hp⟩
  | manyZeros x =>
    cases ha
    obtain ⟨e, he, hp⟩ := read_lsb (n := 7) hr h
    exact ⟨x + 11, 0, e, by simp [readRepeat, Run.symbol, he], by rw [Nat.add_comm], hp⟩

theorem Run.apply_length {lengths lengths' : List ℕ} {r : Run} (h : r.apply lengths = some lengths') :
    lengths.length < lengths'.length := by
  cases r with
  | length l =>
    cases h
    simp
  | again x =>
    obtain ⟨v, -, rfl⟩ := Option.map_eq_some_iff.1 h
    simp
  | zeros x =>
    cases h
    simp
  | manyZeros x =>
    cases h
    simp

theorem readLengths_bits {cl : List ℕ} {t : DeflateHuffman} (ht : t.Reads cl)
    (hf : Feasible cl 15) {runs : List Run}
    (hruns : ∀ r ∈ runs, r.Fits ∧ lengthOf cl r.symbol ≠ 0) {lengths all : List ℕ}
    (ha : runs.foldlM Run.apply lengths = some all) {d : DeflateBits} {rest : List Bool}
    (h : d.pending = runs.flatMap (fun r => codeword cl r.symbol ++ r.extra) ++ rest) :
    ∃ e, readLengths t all.length lengths d = some (all, e) ∧ e.pending = rest := by
  induction runs generalizing lengths d with
  | nil =>
    cases ha
    refine ⟨d, ?_, h⟩
    rw [readLengths, if_neg (Nat.lt_irrefl _)]
  | cons r runs ih =>
    rw [List.foldlM_cons, Option.bind_eq_bind, Option.bind_eq_some_iff] at ha
    obtain ⟨lengths₁, ha₁, ha₂⟩ := ha
    obtain ⟨hr, hrest⟩ := List.forall_mem_cons.1 hruns
    simp only [List.flatMap_cons, List.append_assoc] at h
    obtain ⟨d₁, h₁, hp₁⟩ := decodeSymbol_codeword ht hf hr.2 h
    obtain ⟨n, v, d₂, h₂, hgrow, hp₂⟩ := readRepeat_bits hr.1 ha₁ hp₁
    obtain ⟨e, he, hp⟩ := ih hrest ha₂ hp₂
    have hlt := Run.apply_length ha₁
    have hle := foldlM_length (fun h => (Run.apply_length h).le) ha₂
    refine ⟨e, ?_, hp⟩
    rw [readLengths, if_pos (by omega), h₁]
    simp only
    split
    · next hn => exact absurd (h₂.symm.trans hn) (by simp)
    · next hn =>
      obtain ⟨rfl, rfl, rfl⟩ : n = _ ∧ v = _ ∧ d₂ = _ := by
        simpa using h₂.symm.trans hn
      rw [if_neg, ← hgrow]
      · exact he
      · rw [hgrow, List.length_append, List.length_replicate] at hle
        omega

theorem lengthOf_le {lengths : List ℕ} {m : ℕ} (h : Feasible lengths m) (s : ℕ) :
    lengthOf lengths s ≤ m := by
  by_cases hs : lengthOf lengths s = 0
  · omega
  · exact h.1 _ (lengthOf_mem hs)

theorem readDynamic_bits {h : Header} (hc : h.Conforming) {d : DeflateBits} {rest : List Bool}
    (hd : d.pending = h.bits ++ rest) :
    ∃ e, readDynamic d = some ((h.literals, h.distances), e) ∧ e.pending = rest := by
  have hlit := hc.literals.1
  have hdist := hc.distances.1
  have hclen := hc.hclen
  simp only [Header.bits, List.append_assoc] at hd
  obtain ⟨d₁, h₁, hp₁⟩ := read_lsb (by omega) hd
  obtain ⟨d₂, h₂, hp₂⟩ := read_lsb (by omega) hp₁
  obtain ⟨d₃, h₃, hp₃⟩ := read_lsb (by omega) hp₂
  have hcl := hc.codeLengths.2
  obtain ⟨d₄, h₄, hp₄⟩ := readCodeLengths_bits h.codeLengths
    (fun s => Nat.lt_succ_of_le (lengthOf_le hcl s)) _ (List.replicate 19 0) hp₃
  have hwritten := codeLengths_written hc.codeLengths.1 h.hclen hc.unwritten
  have hne : ∃ l ∈ h.codeLengths, l ≠ 0 := by
    -- a header yields more than no lengths, so it has a run, and the run a codeword
    cases hruns : h.runs with
    | nil =>
      have hy := hc.yields
      rw [hruns] at hy
      have := congrArg (Option.map List.length) hy
      simp at this
      omega
    | cons r runs =>
      have hr := (hc.runs r (by rw [hruns]; exact List.mem_cons_self)).2
      exact ⟨_, lengthOf_mem hr, hr⟩
  obtain ⟨t, htable, ht⟩ := buildHuffman_reads (hcl.mono (by decide)) hne
  obtain ⟨e, he, hp⟩ := readLengths_bits ht (hcl.mono (by decide)) hc.runs hc.yields hp₄
  refine ⟨e, ?_, hp⟩
  have htotal : h.literals.length + (h.distances.length - 1 + 1) =
      (h.literals ++ h.distances).length := by
    rw [List.length_append]
    omega
  have hfirst : h.literals.length - 257 + 257 = h.literals.length := by omega
  simp only [readDynamic, Option.bind_eq_bind, h₁, h₂, h₃, Option.bind_some,
    Nat.sub_add_cancel hclen.1, show order = codeLengthOrder from rfl] at h₄ hwritten ⊢
  simp only [h₄, hwritten, htable, Option.bind_some, hfirst]
  rw [htotal, he, Option.bind_some, List.take_left, List.drop_left]
  rfl

/-! ## Blocks -/

theorem codedBlock_bits (lengths : List ℕ × List ℕ) (hfl : Feasible lengths.1 15)
    (hfd : Feasible lengths.2 15) (hne : ∃ l ∈ lengths.2, l ≠ 0) {tokens : List Token}
    (hc : CodedConforming lengths.1 lengths.2 tokens) {out out' : List Byte}
    (ha : tokens.foldlM Token.apply out = some out') {expected : ℕ} (hle : out'.length ≤ expected)
    {d : DeflateBits} {rest : List Bool}
    (h : d.pending = codedBits lengths.1 lengths.2 tokens ++ rest) :
    ∃ e, codedBlock expected lengths out d = .done out' e ∧ e.pending = rest := by
  obtain ⟨lt, hlt, hl⟩ := buildHuffman_reads hfl ⟨_, lengthOf_mem hc.2, hc.2⟩
  obtain ⟨dt, hdt, hd⟩ := buildHuffman_reads hfd hne
  obtain ⟨e, he, hp⟩ := readTokens_bits hl hfl (fun _ => hd) hfd hc ha hle h
  refine ⟨e, ?_, hp⟩
  unfold codedBlock
  rw [hlt, hdt]
  exact he

/-- Without a codeword for a distance there is no second table. -/
theorem codedBlock_dead (lengths : List ℕ × List ℕ) (hz : ∀ l ∈ lengths.2, l = 0) (expected : ℕ)
    (out : List Byte) (d : DeflateBits) :
    codedBlock expected lengths out d = .rejected out := by
  unfold codedBlock
  rw [buildHuffman_none hz]
  split
  · next hsome => cases hsome
  · rfl

theorem readStored_bits {bytes : List Byte} (out : List Byte) {d : DeflateBits} {rest : List Bool}
    (h : d.pending = bytes.flatMap (fun b => lsb b.toNat 8) ++ rest) :
    ∃ e, readStored bytes.length out d = (out ++ bytes, some e) ∧ e.pending = rest := by
  induction bytes generalizing out d with
  | nil => exact ⟨d, by rw [List.append_nil]; rfl, h⟩
  | cons b bytes ih =>
    rw [List.flatMap_cons, List.append_assoc] at h
    obtain ⟨d₁, h₁, hp₁⟩ := read_lsb b.isLt h
    obtain ⟨e, he, hp⟩ := ih (out ++ [b]) hp₁
    refine ⟨e, ?_, hp⟩
    rw [List.length_cons, readStored, h₁]
    simpa using he

theorem alignByte_pending {d : DeflateBits} {padding rest : List Bool}
    (hlen : padding.length = d.bits % 8) (h : d.pending = padding ++ rest) :
    d.alignByte.pending = rest := by
  have hand : d.bits &&& 7 = d.bits % 8 := Nat.and_two_pow_sub_one_eq_mod d.bits 3
  have hsplit : d.pending = lsb d.hold (d.bits % 8) ++ d.alignByte.pending := by
    rw [DeflateBits.pending, DeflateBits.pending, DeflateBits.alignByte, ← List.append_assoc]
    simp only [hand, Nat.shiftRight_eq_div_pow]
    rw [← lsb_add, Nat.add_sub_cancel' (Nat.mod_le _ _)]
  rw [hsplit] at h
  exact (List.append_inj h (by rw [lsb_length, hlen])).2

theorem complement_eq : ∀ n < 65536, n ^^^ 0xFFFF = 65535 - n := by
  intro n hn
  have h := congrArg BitVec.toNat (BitVec.xor_allOnes (x := BitVec.ofNat 16 n))
  rw [BitVec.toNat_xor, BitVec.toNat_not, BitVec.toNat_ofNat, Nat.mod_eq_of_lt hn] at h
  simpa using h

theorem storedBlock_bits {padding : List Bool} {bytes out : List Byte} {expected : ℕ}
    (hbytes : bytes.length < 65536) (hle : (out ++ bytes).length ≤ expected) {d : DeflateBits}
    (hlen : padding.length = d.bits % 8) {rest : List Bool}
    (h : d.pending = padding ++ (lsb bytes.length 16 ++ (lsb (65535 - bytes.length) 16 ++
      (bytes.flatMap (fun b => lsb b.toNat 8) ++ rest)))) :
    ∃ e, storedBlock expected out d = .done (out ++ bytes) e ∧ e.pending = rest := by
  obtain ⟨d₁, h₁, hp₁⟩ := read_lsb hbytes (alignByte_pending hlen h)
  obtain ⟨d₂, h₂, hp₂⟩ := read_lsb (by omega) hp₁
  obtain ⟨e, he, hp⟩ := readStored_bits out hp₂
  refine ⟨e, ?_, hp⟩
  rw [List.length_append] at hle
  rw [storedBlock, h₁]
  simp only [h₂, complement_eq _ hbytes]
  rw [if_neg (by simpa using hle), he]

set_option maxRecDepth 2000 in
theorem fixedLiterals_eq : fixedLiterals = fixedLiteralLengths := by decide

theorem fixedDistances_eq : fixedDistances = fixedDistanceLengths := by decide

set_option maxRecDepth 2000 in
theorem fixed_feasible : Feasible fixedLiterals 15 ∧ Feasible fixedDistances 15 := by
  decide

theorem readBlock_head {final : Bool} {type : ℕ} (ht : type < 4) {d : DeflateBits}
    {rest : List Bool} (h : d.pending = final :: (lsb type 2 ++ rest)) (expected : ℕ)
    (out : List Byte) :
    ∃ e, readBlock expected out d = blockEnd final.toNat (blockBody expected type out e) ∧
      e.pending = rest := by
  obtain ⟨d₁, h₁, hp₁⟩ := read_bit h
  obtain ⟨e, he, hp⟩ := read_lsb (n := 2) ht hp₁
  refine ⟨e, ?_, hp⟩
  rw [readBlock, h₁]
  simp only [he]

/-- A block ends the loop if it is the last one. -/
def afterBlock (final : Bool) (out : List Byte) (d : DeflateBits) : Turn :=
  if final then .ended (.done out d) else .next out d

theorem blockEnd_done (final : Bool) (out : List Byte) (d : DeflateBits) :
    blockEnd final.toNat (.done out d) = afterBlock final out d := by
  cases final <;> rfl

theorem readBlock_bits {b : Block} {pos : ℕ} (hc : b.Conforming pos) (hlive : ¬b.NoDistanceCode)
    {out out' : List Byte} (ha : b.apply out = some out') {expected : ℕ}
    (hle : out'.length ≤ expected) {d : DeflateBits} (hpos : 8 ∣ pos + d.remaining) {final : Bool}
    {rest : List Bool} (h : d.pending = final :: (b.bits ++ rest)) :
    ∃ e, readBlock expected out d = afterBlock final out' e ∧ e.pending = rest := by
  have hcount := congrArg List.length h
  rw [pending_length] at hcount
  cases b with
  | stored padding bytes =>
    obtain ⟨⟨hshort, halign⟩, hbytes⟩ := hc
    cases ha
    simp only [Block.bits, List.append_assoc] at h
    obtain ⟨d₁, h₁, hp₁⟩ := readBlock_head (by decide) h expected out
    have hlen : padding.length = d₁.bits % 8 := by
      have hrest := congrArg List.length hp₁
      rw [pending_length] at hrest
      simp only [Block.bits, List.length_cons, List.length_append, lsb_length] at hcount hrest
      unfold DeflateBits.remaining at hrest
      omega
    obtain ⟨e, he, hp⟩ := storedBlock_bits hbytes hle hlen hp₁
    refine ⟨e, ?_, hp⟩
    rw [h₁, blockBody, if_pos rfl, he, blockEnd_done]
  | fixed tokens =>
    rw [Block.bits, List.append_assoc] at h
    obtain ⟨d₁, h₁, hp₁⟩ := readBlock_head (by decide) h expected out
    obtain ⟨e, he, hp⟩ := codedBlock_bits (fixedLiterals, fixedDistances)
      fixed_feasible.1 fixed_feasible.2 ⟨5, by decide, by decide⟩ hc ha hle hp₁
    refine ⟨e, ?_, hp⟩
    rw [h₁, blockBody, if_neg (by decide), if_neg (by decide), if_pos rfl, ← fixedLiterals_eq,
      ← fixedDistances_eq, he, blockEnd_done]
  | dynamic header tokens =>
    obtain ⟨hheader, hcoded⟩ := hc
    simp only [Block.bits, List.append_assoc] at h
    obtain ⟨d₁, h₁, hp₁⟩ := readBlock_head (by decide) h expected out
    obtain ⟨d₂, h₂, hp₂⟩ := readDynamic_bits hheader hp₁
    have hne : ∃ l ∈ header.distances, l ≠ 0 := by
      simpa [Block.NoDistanceCode] using hlive
    obtain ⟨e, he, hp⟩ := codedBlock_bits (header.literals, header.distances)
      hheader.literals.2 hheader.distances.2 hne hcoded ha hle hp₂
    refine ⟨e, ?_, hp⟩
    rw [h₁, blockBody, if_neg (by decide), if_neg (by decide), if_neg (by decide), h₂]
    simp only
    rw [he, blockEnd_done]

theorem readBlock_dead {b : Block} {pos : ℕ} (hc : b.Conforming pos) (hdead : b.NoDistanceCode)
    (expected : ℕ) (out : List Byte) {d : DeflateBits} {final : Bool} {rest : List Bool}
    (h : d.pending = final :: (b.bits ++ rest)) :
    readBlock expected out d = .ended (.rejected out) := by
  cases b with
  | stored padding bytes => exact absurd hdead id
  | fixed tokens => exact absurd hdead id
  | dynamic header tokens =>
    simp only [Block.bits, List.append_assoc] at h
    obtain ⟨d₁, h₁, hp₁⟩ := readBlock_head (by decide) h expected out
    obtain ⟨d₂, h₂, hp₂⟩ := readDynamic_bits hc.1 hp₁
    rw [h₁, blockBody, if_neg (by decide), if_neg (by decide), if_neg (by decide), h₂]
    simp only
    rw [codedBlock_dead (header.literals, header.distances) hdead]
    rfl

/-! ## Streams -/

theorem readBlocks_next {expected : ℕ} {out out₁ : List Byte} {d d₁ : DeflateBits}
    (h : readBlock expected out d = .next out₁ d₁) :
    readBlocks expected out d = readBlocks expected out₁ d₁ := by
  rw [readBlocks]
  split
  · next hn =>
    obtain ⟨rfl, rfl⟩ := Turn.next.inj (h.symm.trans hn)
    rfl
  · next hn => exact absurd (h.symm.trans hn) (by simp)

theorem readBlocks_ended {expected : ℕ} {out : List Byte} {d : DeflateBits} {e : Ending}
    (h : readBlock expected out d = .ended e) : readBlocks expected out d = e := by
  rw [readBlocks]
  split
  · next hn => exact absurd (h.symm.trans hn) (by simp)
  · next hn => exact (Turn.ended.inj (h.symm.trans hn)).symm

/-- What the loop makes of a stream: all of it, or `false` at the first block without a distance
code. -/
theorem readBlocks_bits {last : Block} {blocks : List Block} {pos : ℕ}
    (hc : ConformingFrom last pos blocks) {out out' : List Byte}
    (ha : (blocks ++ [last]).foldlM Block.apply out = some out') {expected : ℕ}
    (hle : out'.length ≤ expected) {d : DeflateBits} (hpos : 8 ∣ pos + d.remaining)
    {trailing : List Bool}
    (h : d.pending =
      (blocks.flatMap (fun b => false :: b.bits) ++ true :: last.bits) ++ trailing) :
    ((∀ b ∈ blocks ++ [last], ¬b.NoDistanceCode) ∧
        ∃ e, readBlocks expected out d = .done out' e) ∨
      (∃ b ∈ blocks ++ [last], b.NoDistanceCode) ∧
        ∃ out₁, readBlocks expected out d = .rejected out₁ := by
  induction blocks generalizing pos out d with
  | nil =>
    have ha : last.apply out = some out' := by simpa using ha
    simp only [List.flatMap_nil, List.nil_append, List.cons_append] at h
    by_cases hdead : last.NoDistanceCode
    · exact Or.inr ⟨⟨last, by simp, hdead⟩, out, readBlocks_ended (readBlock_dead hc hdead _ _ h)⟩
    · obtain ⟨e, he, -⟩ := readBlock_bits hc hdead ha hle hpos h
      exact Or.inl ⟨by simpa using hdead, e, readBlocks_ended he⟩
  | cons b blocks ih =>
    obtain ⟨hb, hrest⟩ := hc
    rw [List.cons_append, List.foldlM_cons, Option.bind_eq_bind, Option.bind_eq_some_iff] at ha
    obtain ⟨out₁, ha₁, ha₂⟩ := ha
    simp only [List.flatMap_cons, List.cons_append, List.append_assoc] at h
    by_cases hdead : b.NoDistanceCode
    · exact Or.inr ⟨⟨b, by simp, hdead⟩, out, readBlocks_ended (readBlock_dead hb hdead _ _ h)⟩
    · have hgrow := foldlM_length (fun h => Block.apply_length h) ha₂
      obtain ⟨d₁, h₁, hp₁⟩ := readBlock_bits hb hdead ha₁ (hgrow.trans hle) hpos h
      have hcount : d.remaining = 1 + b.bits.length + d₁.remaining := by
        rw [← pending_length, h, ← pending_length, hp₁]
        simp only [List.length_cons, List.length_append]
        omega
      have hpos₁ : 8 ∣ pos + 1 + b.bits.length + d₁.remaining := by
        rw [hcount] at hpos
        convert hpos using 1
        omega
      rw [readBlocks_next h₁]
      rcases ih hrest ha₂ hpos₁ (by rw [hp₁]; simp) with ⟨hlive, he⟩ | ⟨hd, he⟩
      · refine Or.inl ⟨fun c hmem => ?_, he⟩
        rcases List.mem_cons.1 hmem with rfl | hmem
        · exact hdead
        · exact hlive c hmem
      · obtain ⟨c, hmem, hcd⟩ := hd
        exact Or.inr ⟨⟨c, List.mem_cons_of_mem b hmem, hcd⟩, he⟩

theorem inflateDeflate_stream {s : Stream} (hc : s.Conforming) {data out : List Byte}
    {trailing : List Bool} (hdata : dataBits data = s.bits ++ trailing)
    (ha : s.decompressed = some out) :
    ((∀ b ∈ s.blocks ++ [s.last], ¬b.NoDistanceCode) ∧
        inflateDeflate data out.length = .accepted out) ∨
      (∃ b ∈ s.blocks ++ [s.last], b.NoDistanceCode) ∧
        ∃ out₁, inflateDeflate data out.length = .rejected out₁ := by
  have hpos : 8 ∣ 0 + (DeflateBits.start data).remaining := by
    rw [DeflateBits.start, DeflateBits.remaining, Nat.zero_add, Nat.zero_add]
    exact Nat.dvd_mul_right _ _
  unfold inflateDeflate
  rcases readBlocks_bits hc ha le_rfl hpos hdata with ⟨hlive, e, he⟩ | ⟨hdead, out₁, he⟩
  · exact Or.inl ⟨hlive, by simp [he]⟩
  · exact Or.inr ⟨hdead, out₁, by rw [he]⟩

/-- Every conforming stream is decompressed, but for those with a dynamic block that has no distance
code; and on no input is more than the expected size written, or a byte before the output read. -/
theorem inflate_decompresses_iff (input : List Byte) (expected : ℕ) (s : Stream) (data out : List Byte)
    (trailing : List Bool) (hc : s.Conforming) (hdata : dataBits data = s.bits ++ trailing)
    (ha : s.decompressed = some out) :
    (inflateDeflate input expected).Within expected ∧
      (inflateDeflate data out.length = .accepted out ↔ ∀ b ∈ s.blocks ++ [s.last], ¬b.NoDistanceCode) := by
  refine ⟨inflateDeflate_within input expected, ?_⟩
  rcases inflateDeflate_stream hc hdata ha with ⟨hlive, hresult⟩ | ⟨⟨b, hmem, hdead⟩, out₁, hresult⟩
  · exact iff_of_true hresult hlive
  · refine iff_of_false (fun h => ?_) fun hlive => hlive b hmem hdead
    cases hresult.symm.trans h

/-- Codewords for one byte, the end of the block and a length, and one for a distance. -/
def copiesHeader : Header where
  hclen := 18
  codeLengths := [0, 2, 2, 0, 0, 0, 0, 0, 0, 0, 0, 0, 0, 0, 0, 0, 0, 0, 1]
  runs := [.manyZeros 87, .length 2, .manyZeros 127, .manyZeros 8, .length 2, .length 1, .length 1]
  literals := List.replicate 98 0 ++ [2] ++ List.replicate 157 0 ++ [2, 1]
  distances := [1]

/-- A stored byte, a fixed block that copies it three times, and a dynamic one with a byte and its
copies. -/
def eightBytes : Stream where
  blocks := [.stored (List.replicate 5 false) [97], .fixed [.copy 0 0 0 0]]
  last := .dynamic copiesHeader [.literal 98, .copy 0 0 0 0]

set_option maxRecDepth 2000 in
theorem eightBytes_conforming : eightBytes.Conforming := by
  refine ⟨⟨⟨by decide, ?_⟩, by decide⟩, ?_, ?_, ?_⟩
  · decide
  · change CodedConforming _ _ _
    decide
  · exact {
      hclen := by decide
      codeLengths := by decide
      unwritten := by decide
      runs := by decide
      yields := by decide
      literals := by decide
      distances := by decide }
  · decide

set_option maxRecDepth 2000 in
theorem inflate_decompresses_eightBytes :
    inflateDeflate [0, 1, 0, 254, 255, 97, 2, 2, 64, 3, 112, 32, 0, 0, 0, 0, 32, 200, 117, 127, 136, 43, 6] 8 =
      .accepted [97, 97, 97, 97, 98, 98, 98, 98] :=
  (inflate_decompresses_iff [] 0 eightBytes _ [97, 97, 97, 97, 98, 98, 98, 98]
    (List.replicate 5 false) eightBytes_conforming (by decide) (by decide)).2.2 (by
      intro b hb
      simp only [eightBytes, List.cons_append, List.nil_append, List.mem_cons, List.not_mem_nil,
        or_false] at hb
      rcases hb with rfl | rfl | rfl
      · exact id
      · exact id
      · exact fun hdead => absurd (hdead 1 (List.mem_singleton.2 rfl)) (by decide))

/-- Codewords for one byte and the end of the block, and one distance of no bits. -/
def literalsHeader : Header where
  hclen := 18
  codeLengths := [2, 2, 0, 0, 0, 0, 0, 0, 0, 0, 0, 0, 0, 0, 0, 0, 0, 0, 1]
  runs := [.manyZeros 86, .length 1, .manyZeros 127, .manyZeros 9, .length 1, .length 0]
  literals := List.replicate 97 0 ++ [1] ++ List.replicate 158 0 ++ [1]
  distances := [0]

def oneLiteral : Stream := ⟨[], .dynamic literalsHeader [.literal 97]⟩

set_option maxRecDepth 2000 in
theorem oneLiteral_conforming : oneLiteral.Conforming :=
  ⟨{ hclen := by decide
     codeLengths := by decide
     unwritten := by decide
     runs := by decide
     yields := by decide
     literals := by decide
     distances := by decide }, by decide⟩

set_option maxRecDepth 2000 in
/-- The stream decompresses to one byte and is refused. -/
theorem oneLiteral_refused :
    ¬∀ (s : Stream) (data out : List Byte) (trailing : List Bool), s.Conforming →
      dataBits data = s.bits ++ trailing → s.decompressed = some out →
        inflateDeflate data out.length = .accepted out := by
  intro h
  have hdata : dataBits [5, 192, 129, 8, 0, 0, 0, 0, 32, 214, 253, 37, 78] =
      oneLiteral.bits ++ [false] := by decide
  have hout : oneLiteral.decompressed = some [97] := by decide
  have haccepted := h _ _ _ _ oneLiteral_conforming hdata hout
  rcases inflateDeflate_stream oneLiteral_conforming hdata hout with ⟨hlive, -⟩ | ⟨-, out₁, hresult⟩
  · exact hlive oneLiteral.last (by simp [oneLiteral])
      (show ∀ l ∈ literalsHeader.distances, l = 0 by decide)
  · cases hresult.symm.trans haccepted

end PsxRecomp.Mods
