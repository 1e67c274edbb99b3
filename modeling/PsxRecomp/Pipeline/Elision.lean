import PsxRecomp.Pipeline.Icache

/-! A fetch the emitter leaves out is a hit: what is valid in a line is valid to the end of the
line. -/
namespace PsxRecomp.Pipeline
set_option autoImplicit false

/-! ## Addresses -/

theorem wordIndex_toNat (a : Word) : (wordIndex a).toNat = a.toNat / 4 % 1024 := by
  have h : wordIndex a = (a >>> 2).setWidth 10 := by
    unfold wordIndex
    ext i hi
    simp
    interval_cases i <;> simp
  rw [h, BitVec.toNat_setWidth, BitVec.toNat_ushiftRight, Nat.shiftRight_eq_div_pow]

theorem lineIndex_toNat (a : Word) : (lineIndex a).toNat = a.toNat / 16 % 256 * 4 := by
  have h : lineIndex a = ((a >>> 4).setWidth 8).setWidth 10 <<< 2 := by
    unfold lineIndex
    ext i hi
    simp
    interval_cases i <;> simp
  rw [h]
  simp only [BitVec.toNat_setWidth, BitVec.toNat_shiftLeft, BitVec.toNat_ushiftRight,
    Nat.shiftRight_eq_div_pow, Nat.shiftLeft_eq]
  omega

theorem wordOf_toNat (a : Word) : (wordOf a).toNat = a.toNat / 4 % 4 := by
  have h : wordOf a = ((a >>> 2).setWidth 2).setWidth 32 := by
    unfold wordOf
    ext i hi
    simp
    interval_cases i <;> simp
  rw [h]
  simp only [BitVec.toNat_setWidth, BitVec.toNat_ushiftRight, Nat.shiftRight_eq_div_pow]
  omega

theorem lineAddr_toNat (a : Word) : (lineAddr a).toNat = a.toNat / 16 * 16 := by
  have h : lineAddr a = (a >>> 4) <<< 4 := by
    unfold lineAddr
    ext i hi
    simp
    interval_cases i <;> simp
  rw [h]
  simp only [BitVec.toNat_shiftLeft, BitVec.toNat_ushiftRight, Nat.shiftRight_eq_div_pow,
    Nat.shiftLeft_eq]
  omega

theorem aligned_toNat (a : Word) : a &&& 0x3#32 = 0#32 ↔ a.toNat % 4 = 0 := by
  have h : a &&& 0x3#32 = (a.setWidth 2).setWidth 32 := by
    ext i hi
    simp
    interval_cases i <;> simp
  rw [h, ← BitVec.toNat_inj]
  simp only [BitVec.toNat_setWidth, BitVec.toNat_ofNat]
  omega

/-- The tag of the word `i` of a line. -/
theorem tag_toNat (a i : Word) (hi : i.toNat < 4) :
    (lineAddr a ||| i <<< 2).toNat = a.toNat / 16 * 16 + i.toNat * 4 := by
  have hd : lineAddr a &&& i <<< 2 = 0#32 := by
    have hi' : i = 0#32 ∨ i = 1#32 ∨ i = 2#32 ∨ i = 3#32 := by
      simp only [← BitVec.toNat_inj, BitVec.toNat_ofNat]
      omega
    unfold lineAddr
    rw [BitVec.and_assoc]
    obtain rfl | rfl | rfl | rfl := hi' <;> simp
  rw [← BitVec.add_eq_or_of_and_eq_zero _ _ hd, BitVec.toNat_add, lineAddr_toNat]
  simp only [BitVec.toNat_shiftLeft, Nat.shiftLeft_eq]
  omega

theorem wordIndex_eq_iff (a b : Word) {j : ℕ} (hj : j < 4) :
    wordIndex a = lineIndex b + BitVec.ofNat 10 j ↔
      lineIndex a = lineIndex b ∧ wordOf a = BitVec.ofNat 32 j := by
  simp only [← BitVec.toNat_inj, BitVec.toNat_add, BitVec.toNat_ofNat, wordIndex_toNat,
    lineIndex_toNat, wordOf_toNat]
  omega

theorem wordOf_cases (a : Word) :
    wordOf a = 0#32 ∨ wordOf a = 1#32 ∨ wordOf a = 2#32 ∨ wordOf a = 3#32 := by
  have h := wordOf_toNat a
  simp only [← BitVec.toNat_inj, BitVec.toNat_ofNat]
  omega

/-- The line written is the line of `b`; the word looked up is that of `a`. -/
theorem writeLine_wordIndex (tv : Tags) (tag : Word → Word) (b a : Word) :
    writeLine tv (lineIndex b) tag (wordIndex a) =
      if lineIndex a = lineIndex b then tag (wordOf a) else tv (wordIndex a) := by
  have h0 : wordIndex a = lineIndex b ↔ lineIndex a = lineIndex b ∧ wordOf a = 0 := by
    have h := wordIndex_eq_iff a b (j := 0) (by decide)
    rwa [BitVec.add_zero] at h
  have h1 : wordIndex a = lineIndex b + 1 ↔ lineIndex a = lineIndex b ∧ wordOf a = 1 :=
    wordIndex_eq_iff a b (by decide)
  have h2 : wordIndex a = lineIndex b + 2 ↔ lineIndex a = lineIndex b ∧ wordOf a = 2 :=
    wordIndex_eq_iff a b (by decide)
  have h3 : wordIndex a = lineIndex b + 3 ↔ lineIndex a = lineIndex b ∧ wordOf a = 3 :=
    wordIndex_eq_iff a b (by decide)
  unfold writeLine
  simp only [Function.update_apply, h0, h1, h2, h3]
  by_cases hl : lineIndex a = lineIndex b
  · obtain hw | hw | hw | hw := wordOf_cases a <;> simp [hl, hw]
  · simp [hl]

/-! ## Followers -/

/-- The address after `a`, in the same line. -/
theorem lineAddr_next (a : Word) (h : wordOf a ≠ 3#32) : lineAddr (a + 4#32) = lineAddr a := by
  have hw := wordOf_toNat a
  rw [Ne, ← BitVec.toNat_inj, hw] at h
  simp only [← BitVec.toNat_inj, lineAddr_toNat, BitVec.toNat_add, BitVec.toNat_ofNat] at h ⊢
  have := a.isLt
  omega

theorem lineIndex_next (a : Word) (h : wordOf a ≠ 3#32) : lineIndex (a + 4#32) = lineIndex a := by
  have hw := wordOf_toNat a
  rw [Ne, ← BitVec.toNat_inj, hw] at h
  simp only [← BitVec.toNat_inj, lineIndex_toNat, BitVec.toNat_add, BitVec.toNat_ofNat] at h ⊢
  have := a.isLt
  omega

theorem wordOf_next (a : Word) (h : wordOf a ≠ 3#32) : wordOf (a + 4#32) = wordOf a + 1#32 := by
  have hw := wordOf_toNat a
  rw [Ne, ← BitVec.toNat_inj, hw] at h
  simp only [← BitVec.toNat_inj, wordOf_toNat, BitVec.toNat_add, BitVec.toNat_ofNat] at h ⊢
  have := a.isLt
  omega

theorem aligned_next (a : Word) (h : a &&& 0x3#32 = 0#32) : (a + 4#32) &&& 0x3#32 = 0#32 := by
  rw [aligned_toNat] at h ⊢
  rw [BitVec.toNat_add, BitVec.toNat_ofNat]
  omega

/-- Not at a line start: not behind the last word of a line. -/
theorem wordOf_ne_of_follower (a : Word) (h : (a + 4#32) &&& 0xC#32 ≠ 0#32) : wordOf a ≠ 3#32 := by
  intro hw
  apply h
  have hz : wordOf (a + 4#32) = 0#32 := by
    simp only [← BitVec.toNat_inj, wordOf_toNat, BitVec.toNat_add, BitVec.toNat_ofNat] at hw ⊢
    omega
  have hs : (a + 4#32) &&& 0xC#32 = wordOf (a + 4#32) <<< 2 := by
    unfold wordOf
    ext i hi
    simp
    interval_cases i <;> simp
  rw [hs, hz]
  rfl

/-! ## Tags -/

/-- A valid tag of the line of `b` is the address `a` where the two lines are one. -/
theorem valid_tag_eq_iff (a b : Word) (ha : a &&& 0x3#32 = 0#32) :
    lineAddr b ||| wordOf a <<< 2 = a ↔ lineAddr a = lineAddr b := by
  have hw := wordOf_toNat a
  rw [aligned_toNat] at ha
  rw [← BitVec.toNat_inj, ← BitVec.toNat_inj, tag_toNat b (wordOf a) (by omega), lineAddr_toNat,
    lineAddr_toNat, hw]
  omega

/-- A tag with bit 1 set is no instruction's address. -/
theorem invalid_tag_ne (a t : Word) (ha : a &&& 0x3#32 = 0#32) : t ||| 0x2#32 ≠ a := by
  intro h
  have hb := congrArg (fun w : Word => w.getLsbD 1) (h ▸ ha : (t ||| 0x2#32) &&& 0x3#32 = 0#32)
  simp at hb

/-! ## Validity is upward closed -/

/-- Behind a valid word of a line the words are valid. -/
def UpwardClosed (tv : Tags) : Prop :=
  ∀ a, a &&& 0x3#32 = 0#32 → wordOf a ≠ 3#32 → tv (wordIndex a) = a →
    tv (wordIndex (a + 4#32)) = a + 4#32

theorem resetTags_upwardClosed : UpwardClosed resetTags := by
  intro a ha _ h
  have h1 : (0x1 : Word) = a := h
  rw [← h1] at ha
  exact absurd ha (by decide)

/-- A line rewritten with valid tags from some word on. -/
theorem writeLine_upwardClosed {tv : Tags} (b : Word) (tag : Word → Word) (valid : Word → Prop)
    (hvalid : ∀ i, i.toNat < 4 → valid i → tag i = lineAddr b ||| i <<< 2)
    (hinvalid : ∀ i, i.toNat < 4 → ¬valid i → ∃ t, tag i = t ||| 0x2#32)
    (hup : ∀ i, i.toNat < 3 → valid i → valid (i + 1#32)) (h : UpwardClosed tv) :
    UpwardClosed (writeLine tv (lineIndex b) tag) := by
  intro a ha hw hres
  have hn := wordOf_toNat a
  have hlt : (wordOf a).toNat < 3 := by
    rw [Ne, ← BitVec.toNat_inj, BitVec.toNat_ofNat] at hw
    omega
  rw [writeLine_wordIndex] at hres
  rw [writeLine_wordIndex, lineIndex_next a hw]
  by_cases hl : lineIndex a = lineIndex b
  · rw [if_pos hl] at hres ⊢
    by_cases hv : valid (wordOf a)
    · rw [hvalid _ (by omega) hv, valid_tag_eq_iff a b ha] at hres
      have hnext := wordOf_next a hw
      rw [hvalid _ (by rw [wordOf_toNat]; omega) (by rw [hnext]; exact hup _ hlt hv),
        valid_tag_eq_iff _ b (aligned_next a ha), lineAddr_next a hw]
      exact hres
    · obtain ⟨t, ht⟩ := hinvalid _ (by omega) hv
      rw [ht] at hres
      exact absurd hres (invalid_tag_ne a t ha)
  · rw [if_neg hl] at hres ⊢
    exact h a ha hw hres

/-- Taking the invalid mark off a tag. -/
theorem clear_valid_tag (b i : Word) :
    (lineAddr b ||| i <<< 2 ||| 0x2#32) &&& ~~~0x2#32 = lineAddr b ||| i <<< 2 := by
  unfold lineAddr
  ext k hk
  simp
  interval_cases k <;> simp

theorem refill_upwardClosed {tv : Tags} (b : Word) (h : UpwardClosed tv) :
    UpwardClosed (refill tv b) := by
  unfold refill
  refine writeLine_upwardClosed b _ (fun i => wordOf b ≤ i) ?_ ?_ ?_ h
  · intro i hi hv
    show (if wordOf b ≤ i then _ else _) = _
    rw [if_pos hv, clear_valid_tag]
  · intro i hi hv
    exact ⟨_, if_neg hv⟩
  · intro i hi hv
    rw [BitVec.le_def] at hv ⊢
    rw [BitVec.toNat_add, BitVec.toNat_ofNat]
    omega

theorem bit_ne_zero_iff (v i : Word) : v &&& (1#32 <<< i) ≠ 0 ↔ v.getLsbD i.toNat = true := by
  have hp : 1#32 <<< i = BitVec.twoPow 32 i.toNat := by
    rw [BitVec.shiftLeft_eq', BitVec.twoPow]
  rw [hp, BitVec.and_twoPow]
  cases hb : v.getLsbD i.toNat with
  | false => simp
  | true =>
    have hlt := BitVec.lt_of_getLsbD hb
    refine iff_of_true (fun h => ?_) rfl
    have hbit := congrArg (fun w : Word => w.getLsbD i.toNat) h
    simp [hlt] at hbit

theorem iscStore_upwardClosed {tv : Tags} (G : Gates) (biu addr value : Word)
    (hc : clearsFront biu addr value) (h : UpwardClosed tv) :
    UpwardClosed (iscStore G biu addr value tv) := by
  unfold iscStore
  split_ifs
  · exact h
  · exact h
  · exact h
  · refine writeLine_upwardClosed addr _
      (fun i => iscValid biu addr value &&& (1#32 <<< i) ≠ 0) ?_ ?_ ?_ h
    · intro i hi hv
      show (if _ then _ else _) ||| _ ||| _ = _
      rw [if_pos hv, BitVec.zero_or]
    · intro i hi hv
      refine ⟨lineAddr addr ||| i <<< 2, ?_⟩
      show (if _ then _ else _) ||| _ ||| _ = _
      rw [if_neg hv, BitVec.or_assoc, BitVec.or_comm]
    · intro i hi hv
      have hn : (i + 1#32).toNat = i.toNat + 1 := by
        rw [BitVec.toNat_add, BitVec.toNat_ofNat]
        omega
      rw [bit_ne_zero_iff] at hv ⊢
      rw [hn]
      exact hc _ hi hv

theorem icacheFetch_upwardClosed (G : Gates) (addr : Word) (m : Tags × LoadPipe)
    (h : UpwardClosed m.1) : UpwardClosed (icacheFetch G addr m).1 := by
  unfold icacheFetch
  split_ifs
  · exact h
  · exact h
  · exact h
  · exact refill_upwardClosed addr h

theorem reachable_upwardClosed {tv : Tags} (h : Reachable tv) : UpwardClosed tv := by
  induction h with
  | reset => exact resetTags_upwardClosed
  | fetch G addr p _ ih => exact icacheFetch_upwardClosed G addr (_, p) ih
  | store G biu addr value hc _ ih => exact iscStore_upwardClosed G biu addr value hc ih

/-! ## The path -/

variable {σ : Type}

/-- The word at `pc` is valid. -/
def Resident (tv : Tags) (pc : Word) : Prop := tv (wordIndex pc) = pc

/-- A fetch of a cached address leaves its word valid. -/
theorem icacheFetch_resident (G : Gates) (pc : Word) (m : Tags × LoadPipe)
    (ha : pc &&& 0x3#32 = 0#32) (hg : G.live = true) (hu : fetchUncached pc = false) :
    Resident (icacheFetch G pc m).1 pc := by
  unfold icacheFetch
  rw [hg, hu]
  split_ifs with h0 hit h1
  · exact absurd h0 (by decide)
  · exact hit
  · exact absurd h1 (by decide)
  · show refill m.1 pc (wordIndex pc) = pc
    unfold refill
    rw [writeLine_wordIndex, if_pos rfl, if_pos (BitVec.le_refl _), clear_valid_tag,
      valid_tag_eq_iff pc pc ha]

theorem icacheFetch_hit (G : Gates) (pc : Word) (m : Tags × LoadPipe) (h : Resident m.1 pc) :
    icacheFetch G pc m = m := by
  unfold icacheFetch
  split
  · rfl
  · exact if_pos h

/-- A follower: its word is valid, or the cache model stands still. -/
theorem follower_fetch (G : Gates) (pc : Word) (m : Machine σ) (leader : Bool)
    (h : emitsFetch leader pc = false → G.live = true → Resident m.tv pc) :
    (if emitsFetch leader pc then m.fetch G pc else m) = m.fetch G pc := by
  cases he : emitsFetch leader pc with
  | true => rfl
  | false =>
    have hf : icacheFetch G pc (m.tv, m.pipe) = (m.tv, m.pipe) := by
      cases hg : G.live with
      | true => exact icacheFetch_hit G pc _ (h he hg)
      | false =>
        unfold icacheFetch
        rw [hg]
        rfl
    unfold Machine.fetch
    rw [hf]
    rfl

/-- Behind a fetched instruction the next one is a leader, a line start, uncached or valid. -/
theorem next_resident (G : Gates) (pc : Word) (m : Tags × LoadPipe) (leader : Bool)
    (ha : pc &&& 0x3#32 = 0#32) (hup : UpwardClosed m.1)
    (he : emitsFetch leader (pc + 4#32) = false) (hg : G.live = true) :
    Resident (icacheFetch G pc m).1 (pc + 4#32) := by
  simp only [emitsFetch, Bool.or_eq_false_iff, decide_eq_false_iff_not] at he
  obtain ⟨⟨hu, -⟩, hline⟩ := he
  have hw := wordOf_ne_of_follower pc hline
  have hu' : fetchUncached pc = false := by
    have hw' := wordOf_toNat pc
    rw [Ne, ← BitVec.toNat_inj, hw'] at hw
    simp only [fetchUncached, decide_eq_false_iff_not, BitVec.le_def, BitVec.toNat_add,
      BitVec.toNat_ofNat] at hu hw ⊢
    omega
  exact icacheFetch_upwardClosed G pc m hup pc ha hw (icacheFetch_resident G pc m ha hg hu')

/-- The runs agree from an instruction whose fetch, if left out, is a hit. -/
theorem runEmitted_eq (G : Gates) (path : List (Insn σ)) (pc : Word) (m : Machine σ)
    (ha : pc &&& 0x3#32 = 0#32) (hup : UpwardClosed m.tv)
    (hres : ∀ leader, emitsFetch leader pc = false → G.live = true → Resident m.tv pc) :
    runEmitted G pc path m = runFetching G pc path m := by
  induction path generalizing pc m with
  | nil => rfl
  | cons i path ih =>
    unfold runEmitted runFetching
    rw [follower_fetch G pc m i.leader (hres i.leader)]
    refine ih (pc + 4#32) _ (aligned_next pc ha) ?_ ?_
    · exact icacheFetch_upwardClosed G pc (m.tv, m.pipe) hup
    · intro leader he hg
      exact next_resident G pc (m.tv, m.pipe) leader ha hup he hg

/-- The emitted fetches leave the machine that a fetch at every instruction leaves. -/
theorem elided_fetches_exact (G : Gates) (start : CodeAddr) (body : Body σ) (path : List (Insn σ))
    (m : Machine σ) (h : Reachable m.tv) :
    runEmitted G start.addr ({ leader := true, body := body } :: path) m =
      runFetching G start.addr ({ leader := true, body := body } :: path) m := by
  have hup := reachable_upwardClosed h
  unfold runEmitted runFetching
  have he : emitsFetch true start.addr = true := by simp [emitsFetch]
  rw [if_pos he]
  refine runEmitted_eq G path _ _ (aligned_next _ start.aligned) ?_ ?_
  · exact icacheFetch_upwardClosed G start.addr (m.tv, m.pipe) hup
  · intro leader he' hg
    exact next_resident G start.addr (m.tv, m.pipe) leader start.aligned hup he' hg

/-- Five instructions across a line end, entered at the third word of a line that an earlier fetch
filled from its last word only. -/
theorem elided_fetches_exact_partLine :
    let G : Gates := { icacheActive := true, lsReplayActive := false, shadowReplay := false }
    let step : Body Unit := fun s => (cycStep 0x6 s.1, s.2)
    let follower : Insn Unit := { leader := false, body := step }
    let m : Machine Unit :=
      { tv := (icacheFetch G 0x8001000C (resetTags, .reset)).1, pipe := .reset, rest := () }
    runEmitted G 0x80010008 ({ leader := true, body := step } :: List.replicate 4 follower) m =
      runFetching G 0x80010008 ({ leader := true, body := step } :: List.replicate 4 follower) m := by
  intro G step follower m
  exact elided_fetches_exact G ⟨0x80010008, by decide⟩ step (List.replicate 4 follower) m
    (Reachable.fetch G _ _ Reachable.reset)

end PsxRecomp.Pipeline
