import PsxRecomp.Mdec.Commands

/-! The ports of the decoder: a burst of words is the words one at a time, and what a decode
command leaves is as long as its macroblocks. -/
namespace PsxRecomp.Mdec
set_option autoImplicit false

/-! ## Ports -/

/-- `mdec_dma_read_ready` -/
def dmaReadReady (s : MDECState) : Bool := s.outputPos < s.output.length

/-- `mdec_dma_write_ready` -/
def dmaWriteReady (s : MDECState) : Bool :=
  !dmaReadReady s && (!s.busy || s.input.length < s.expectedHalfwords)

/-- `mdec_write` -/
def mdecWrite (addr value : Word) (s : MDECState) : MDECState :=
  if addr &&& 7 = 0 then writeData value s
  else
    let s := if value.getLsbD 31 then softReset s else s
    { s with enableDmaIn := value.getLsbD 30, enableDmaOut := value.getLsbD 29 }

/-- `mdec_dma_write_words` over the words left, in at most so many rounds of its loop. -/
def burstLoop : ℕ → List Word → MDECState → ℕ × MDECState
  | 0, _, s => (0, s)
  | _ + 1, [], s => (0, s)
  | fuel + 1, value :: rest, s =>
    if dmaWriteReady s = false then (0, s)
    else if collecting s then
      let src := value :: rest
      let needWords := (s.expectedHalfwords - s.input.length + 1) / 2
      let n := min src.length needWords
      let s := completeCommand ((src.take n).foldl (fun s value => fillWord value s) s)
      let r := burstLoop fuel (src.drop n) s
      (n + r.1, r.2)
    else
      let r := burstLoop fuel rest (writeData value s)
      (1 + r.1, r.2)

/-- `mdec_dma_write_words` -/
def dmaWriteWords (src : List Word) (s : MDECState) : ℕ × MDECState := burstLoop src.length src s

/-- `mdec_dma_write_word` for as long as the decoder is ready. -/
def writeWords : List Word → MDECState → ℕ × MDECState
  | [], s => (0, s)
  | value :: rest, s =>
    if dmaWriteReady s then
      let r := writeWords rest (writeData value s)
      (1 + r.1, r.2)
    else (0, s)

/-! ## One fill -/

variable {s : MDECState} {value : Word} {src rest : List Word}

theorem collecting_iff : collecting s = true ↔ s.busy = true ∧ s.input.length < s.expectedHalfwords := by
  simp [collecting]

theorem writeData_collecting (h : collecting s = true) :
    writeData value s = completeCommand (fillWord value s) := if_pos h

/-- The words a collecting command still asks for. -/
def needed (s : MDECState) : ℕ := (s.expectedHalfwords - s.input.length + 1) / 2

theorem fillWord_expected (value : Word) (s : MDECState) :
    (fillWord value s).expectedHalfwords = s.expectedHalfwords := by
  unfold fillWord
  dsimp only
  split <;> rfl

theorem fillWord_length (value : Word) (h : collecting s = true) : (fillWord value s).input.length =
    min s.expectedHalfwords (s.input.length + 2) := by
  obtain ⟨-, hlt⟩ := collecting_iff.mp h
  unfold fillWord
  dsimp only
  split
  case isTrue hsecond =>
    simp only [List.length_append, List.length_singleton] at hsecond ⊢
    omega
  case isFalse hsecond =>
    simp only [List.length_append, List.length_singleton] at hsecond ⊢
    omega

/-- Where more than one word is asked for, a word leaves the command collecting. -/
theorem fillWord_collecting (value : Word) (h : collecting s = true) (hneed : 1 < needed s) :
    collecting (fillWord value s) = true ∧ needed (fillWord value s) = needed s - 1 ∧
      dmaWriteReady (fillWord value s) = dmaWriteReady s := by
  have hlength := fillWord_length value h
  have hexpected := fillWord_expected value s
  obtain ⟨hbusy, hlt⟩ := collecting_iff.mp h
  unfold needed at hneed ⊢
  have hbusy' : (fillWord value s).busy = s.busy := by
    unfold fillWord
    dsimp only
    split <;> rfl
  have hready : dmaReadReady (fillWord value s) = dmaReadReady s := by
    unfold fillWord dmaReadReady
    dsimp only
    split <;> rfl
  have hmore : (fillWord value s).input.length < (fillWord value s).expectedHalfwords := by omega
  refine ⟨collecting_iff.mpr ⟨hbusy'.trans hbusy, hmore⟩, by omega, ?_⟩
  unfold dmaWriteReady
  rw [hready, hbusy', hbusy]
  simp [hmore, hlt]

theorem needed_pos (h : collecting s = true) : 0 < needed s := by
  obtain ⟨-, hlt⟩ := collecting_iff.mp h
  unfold needed
  omega

/-- A command that is still collecting is not executed. -/
theorem completeCommand_collecting (h : collecting s = true) : completeCommand s = s := by
  obtain ⟨-, hlt⟩ := collecting_iff.mp h
  exact if_neg (by omega)

/-- The fill loop against its words one at a time: none but the last can complete the command. -/
theorem writeWords_fill (rest : List Word) (hcollecting : collecting s = true) (hready : dmaWriteReady s = true)
    (hne : src ≠ []) (hlength : src.length ≤ needed s) :
    writeWords (src ++ rest) s =
      (src.length + (writeWords rest (completeCommand (src.foldl (fun s value => fillWord value s) s))).1,
        (writeWords rest (completeCommand (src.foldl (fun s value => fillWord value s) s))).2) := by
  induction src generalizing s with
  | nil => exact absurd rfl hne
  | cons value src ih =>
    rw [List.cons_append, writeWords, if_pos hready, writeData_collecting hcollecting]
    cases src with
    | nil => rfl
    | cons value' src =>
      have hmore : 1 < needed s := by
        rw [List.length_cons, List.length_cons] at hlength
        omega
      obtain ⟨hcollecting', hneed, hready'⟩ := fillWord_collecting value hcollecting hmore
      have hlength' : (value' :: src).length ≤ needed (fillWord value s) := by
        rw [hneed]
        rw [List.length_cons] at hlength
        omega
      rw [completeCommand_collecting hcollecting',
        ih hcollecting' (hready'.trans hready) (List.cons_ne_nil _ _) hlength']
      simp only [List.foldl_cons, List.length_cons]
      refine Prod.ext ?_ rfl
      dsimp only
      omega

/-! ## The burst -/

theorem burstLoop_eq {fuel : ℕ} (hfuel : src.length ≤ fuel) : burstLoop fuel src s = writeWords src s := by
  induction fuel generalizing src s with
  | zero =>
    obtain rfl := List.length_eq_zero_iff.mp (Nat.le_zero.mp hfuel)
    rfl
  | succ fuel ih =>
    cases src with
    | nil => rfl
    | cons value rest =>
      rw [List.length_cons] at hfuel
      cases hready : dmaWriteReady s with
      | false => rw [burstLoop, writeWords, if_pos hready, hready, if_neg Bool.false_ne_true]
      | true =>
        rw [burstLoop, if_neg (by rw [hready]; decide)]
        by_cases hcollecting : collecting s = true
        · rw [if_pos hcollecting]
          dsimp only
          have hpos := needed_pos hcollecting
          generalize hn : min (value :: rest).length ((s.expectedHalfwords - s.input.length + 1) / 2) = n
          have hn' : n ≤ (value :: rest).length ∧ n ≤ needed s ∧ 0 < n := by
            unfold needed at hpos ⊢
            rw [← hn, List.length_cons]
            omega
          have htake : ((value :: rest).take n).length = n := by
            rw [List.length_take]
            omega
          have hne : (value :: rest).take n ≠ [] := by
            intro hnil
            rw [hnil, List.length_nil] at htake
            omega
          have hfill := writeWords_fill ((value :: rest).drop n) hcollecting hready hne
            (by omega)
          rw [List.take_append_drop, htake] at hfill
          rw [hfill, ih]
          rw [List.length_drop, List.length_cons]
          omega
        · rw [if_neg hcollecting]
          dsimp only
          rw [ih (by omega), writeWords, if_pos hready]

/-! ## Decode commands -/

/-- Bytes of a macroblock at a depth. -/
def macroblockBytes (depth : ℕ) : ℕ := if depth < 2 then 64 else if depth = 3 then 512 else 768

theorem decodeAc_rest (quant : Quant) (qscale : ℕ) (words : List Halfword) (k : ℕ) (block : Block) :
    (decodeAc quant qscale words k block).2.length ≤ words.length := by
  induction words generalizing k block with
  | nil => exact le_rfl
  | cons word words ih =>
    unfold decodeAc
    split_ifs
    · exact le_rfl
    · exact Nat.le_succ _
    · exact (ih _ _).trans (Nat.le_succ _)
    · exact Nat.le_succ _

theorem skipPadding_rest (word : Halfword) (words : List Halfword) :
    (skipPadding word words).2.length ≤ words.length := by
  induction words generalizing word with
  | nil => exact le_rfl
  | cons next words ih =>
    unfold skipPadding
    split_ifs
    · exact (ih next).trans (Nat.le_succ _)
    · exact le_rfl

/-- A block takes at least one halfword. -/
theorem decodeRleBlock_rest {quant : Quant} {idct : Block → Block} {words words' : List Halfword}
    {block : Block} (h : decodeRleBlock quant idct words = some (block, words')) :
    words'.length < words.length := by
  cases words with
  | nil => cases h
  | cons first words =>
    have hwords : words' = (decodeAc quant (run (skipPadding first words).1)
        (skipPadding first words).2 0 _).2 := (congrArg Prod.snd (Option.some.inj h)).symm
    have hac := decodeAc_rest quant (run (skipPadding first words).1) (skipPadding first words).2 0
      (Function.update 0 0 (dequantise 0 (level (skipPadding first words).1) (quant 0).toNat))
    have hpadding := skipPadding_rest first words
    rw [hwords, List.length_cons]
    exact Nat.lt_succ_of_le (hac.trans hpadding)

/-- Blocks have been taken, and nothing is put out yet. -/
structure Taken (d d' : Decoding) : Prop where
  output : d'.output = d.output
  macroblocks : d'.macroblocks = d.macroblocks
  rest : d'.rest.length ≤ d.rest.length

/-- A macroblock has been put out. -/
structure Grown (s : MDECState) (d d' : Decoding) : Prop where
  output : d'.output.length = d.output.length + macroblockBytes s.outputDepth
  macroblocks : d'.macroblocks = d.macroblocks + 1
  rest : d'.rest.length < d.rest.length

/-- A macroblock is put out as a whole, or the input ends before it is. -/
def MacroblockStep (s : MDECState) (d : Decoding) : Except Decoding Decoding → Prop
  | .error e => Taken d e
  | .ok d' => Grown s d d'

theorem step_bind {d₀ d : Decoding} {quant : Quant} {stop : Stop}
    {f : Block × Decoding → Except Decoding Decoding} (h : Taken d₀ d)
    (hf : ∀ block d', Taken d₀ d' → d'.rest.length < d₀.rest.length →
      MacroblockStep s d₀ (f (block, d'))) :
    MacroblockStep s d₀ (nextBlock s quant stop d >>= f) := by
  cases hblock : decodeRleBlock quant (idctBlockScalar s.scale) d.rest with
  | none =>
    have herror : nextBlock s quant stop d = .error { d with stop := stop } := by
      unfold nextBlock
      rw [hblock]
    rw [herror]
    exact ⟨h.output, h.macroblocks, h.rest⟩
  | some taken =>
    obtain ⟨block, words⟩ := taken
    have hok : nextBlock s quant stop d =
        .ok (block, { d with rest := words, blocks := d.blocks + 1 }) := by
      unfold nextBlock
      rw [hblock]
    have hlt := (decodeRleBlock_rest hblock).trans_le h.rest
    rw [hok]
    exact hf block _ ⟨h.output, h.macroblocks, hlt.le⟩ hlt

theorem Taken.refl (d : Decoding) : Taken d d := ⟨rfl, rfl, le_rfl⟩

theorem Taken.grown {d d' : Decoding} {bytes : List Byte} (h : Taken d d')
    (hlt : d'.rest.length < d.rest.length) (hbytes : bytes.length = macroblockBytes s.outputDepth) :
    Grown s d { d' with output := d'.output ++ bytes, macroblocks := d'.macroblocks + 1 } := by
  refine ⟨?_, by rw [h.macroblocks], hlt⟩
  rw [List.length_append, hbytes, h.output]

theorem lumaMacroblock_step (hdepth : s.outputDepth < 2) (d : Decoding) :
    MacroblockStep s d (lumaMacroblock s d) := by
  refine step_bind (Taken.refl d) fun yblk d' h hlt => h.grown hlt ?_
  unfold lumaBlock macroblockBytes
  rw [List.length_ofFn, if_pos hdepth]

theorem emitRgbPixel_length (s : MDECState) (y cr cb : ℤ) :
    (emitRgbPixel s y cr cb).length = if s.outputDepth = 3 then 2 else 3 := by
  unfold emitRgbPixel
  dsimp only
  split <;> rfl

theorem colorMacroblock_length (s : MDECState) (cr cb : Block) (yblk : Fin 4 → Block) :
    (colorMacroblock s cr cb yblk).length = 256 * if s.outputDepth = 3 then 2 else 3 := by
  unfold colorMacroblock
  simp only [List.length_flatMap, emitRgbPixel_length, List.map_const', List.length_finRange,
    List.sum_replicate, smul_eq_mul]
  split <;> rfl

theorem colourMacroblock_step (hdepth : ¬s.outputDepth < 2) (d : Decoding) :
    MacroblockStep s d (colourMacroblock s d) := by
  unfold colourMacroblock
  refine step_bind (Taken.refl d) fun cr d₁ h₁ _ => step_bind h₁ fun cb d₂ h₂ _ => ?_
  refine step_bind h₂ fun y0 d₃ h₃ _ => step_bind h₃ fun y1 d₄ h₄ _ => ?_
  refine step_bind h₄ fun y2 d₅ h₅ _ => step_bind h₅ fun y3 d₆ h₆ hlt => h₆.grown hlt ?_
  rw [colorMacroblock_length]
  unfold macroblockBytes
  rw [if_neg hdepth]
  split <;> rfl

/-- The output so far is that of the macroblocks. -/
structure Sound (s : MDECState) (total : ℕ) (d : Decoding) : Prop where
  output : d.output.length = d.macroblocks * macroblockBytes s.outputDepth
  rest : d.rest.length ≤ total

theorem Sound.loop {total n : ℕ} {macroblock : Decoding → Except Decoding Decoding} {d : Decoding}
    (hstep : ∀ d, MacroblockStep s d (macroblock d)) (h : Sound s total d) :
    Sound s total (decodeLoop macroblock n d) := by
  induction n generalizing d with
  | zero => exact h
  | succ n ih =>
    unfold decodeLoop
    split
    · exact h
    · have hd := hstep d
      split
      case h_1 e he =>
        rw [he] at hd
        have hd : Taken d e := hd
        refine ⟨?_, hd.rest.trans h.rest⟩
        rw [hd.output, hd.macroblocks]
        exact h.output
      case h_2 d' hd' =>
        rw [hd'] at hd
        have hd : Grown s d d' := hd
        refine ih ⟨?_, hd.rest.le.trans h.rest⟩
        rw [hd.output, hd.macroblocks, h.output, Nat.add_mul, Nat.one_mul]

theorem macroblock_step (s : MDECState) (d : Decoding) : MacroblockStep s d
    ((if s.outputDepth < 2 then lumaMacroblock s else colourMacroblock s) d) := by
  split
  case isTrue hdepth => exact lumaMacroblock_step hdepth d
  case isFalse hdepth => exact colourMacroblock_step hdepth d

/-- What a decode leaves: the bytes of its macroblocks, from no more input than it was given. -/
structure Decoded (given : ℕ) (t : MDECState) : Prop where
  output : t.output.length = t.decodeMacroblocks * macroblockBytes t.outputDepth
  undrained : t.outputPos = 0
  given : t.decodeInputEnd = given
  consumed : t.decodeInputPos ≤ t.decodeInputEnd

theorem executeDecode_decoded (s : MDECState) : Decoded s.input.length (executeDecode s) := by
  have hstart : Sound s s.input.length ⟨s.input, [], 0, 0, .none⟩ := ⟨(Nat.zero_mul _).symm, le_rfl⟩
  have hsound := hstart.loop (n := s.input.length) (macroblock_step s)
  exact ⟨hsound.output, rfl, rfl, Nat.sub_le _ _⟩

/-- The word that completes a decode command. -/
def CompletesDecode (value : Word) (s : MDECState) : Prop :=
  collecting s = true ∧ s.expectedHalfwords ≤ (fillWord value s).input.length ∧
    s.command >>> 29 = opDecode

theorem completesDecode_decoded (h : CompletesDecode value s) :
    Decoded s.expectedHalfwords (writeData value s) := by
  obtain ⟨hcollecting, hfull, hop⟩ := h
  have hlength := fillWord_length value hcollecting
  have hcommand : (fillWord value s).command = s.command := by
    unfold fillWord
    dsimp only
    split <;> rfl
  have hexecute : executeCommand (fillWord value s) =
      finishCommand (executeDecode (fillWord value s)) := by
    unfold executeCommand
    dsimp only
    rw [hcommand, hop, if_neg (by decide), if_neg (by decide), if_pos rfl]
  have hdecoded := executeDecode_decoded (fillWord value s)
  have hgiven : (fillWord value s).input.length = s.expectedHalfwords := by omega
  rw [hgiven] at hdecoded
  rw [writeData_collecting hcollecting, completeCommand, fillWord_expected, if_pos hfull, hexecute]
  exact ⟨hdecoded.output, hdecoded.undrained, hdecoded.given, hdecoded.consumed⟩

/-- A burst is its words one at a time, as far as the decoder is ready; and a decode command that
was given words leaves the bytes of its macroblocks. -/
theorem burst_equals_words (s : MDECState) :
    (∀ src : List Word, dmaWriteWords src s = writeWords src s) ∧
      ∀ value : Word, CompletesDecode value s → Decoded s.expectedHalfwords (writeData value s) :=
  ⟨fun _ => burstLoop_eq le_rfl, fun _ h => completesDecode_decoded h⟩

/-- One luma block of one word, its command begun. -/
def begunDecode : MDECState := mdecWrite 0 0x20000001 mdecInit

theorem burst_equals_words_block :
    dmaWriteWords [0xFE000000] begunDecode = writeWords [0xFE000000] begunDecode ∧
      Decoded 2 (writeData 0xFE000000 begunDecode) :=
  ⟨(burst_equals_words begunDecode).1 [0xFE000000],
    (burst_equals_words begunDecode).2 0xFE000000 ⟨by decide, by decide, by decide⟩⟩

/-- A decode command without input words ends at once: behind it the depth is the new one, the
output and its macroblocks are those of the block before. -/
theorem empty_decode_keeps_output :
    let s := [0x20000001, 0xFE000000, 0x38000000].foldl (fun s value => mdecWrite 0 value s) mdecInit
    s.command >>> 29 = opDecode ∧ s.busy = false ∧ s.output.length = 64 ∧
      s.decodeMacroblocks * macroblockBytes s.outputDepth = 512 :=
  ⟨by decide, by decide, by rfl, by rfl⟩

end PsxRecomp.Mdec
