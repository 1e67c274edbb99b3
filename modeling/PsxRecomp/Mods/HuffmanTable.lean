import PsxRecomp.Mods.Deflate
import PsxRecomp.Mods.Inflate

/-! `build_huffman` and `decode_symbol` read the canonical code of the lengths they are given. -/
namespace PsxRecomp.Mods
open BitString CanonicalCode Deflate
set_option autoImplicit false

/-! ## Bits still to be read -/

def DeflateBits.pending (d : DeflateBits) : List Bool := lsb d.hold d.bits ++ dataBits d.rest

theorem dataBits_length (data : List Byte) : (dataBits data).length = 8 * data.length := by
  induction data with
  | nil => rfl
  | cons b data ih =>
    rw [dataBits, List.flatMap_cons, List.length_append, lsb_length, List.length_cons]
    have : (data.flatMap fun b => lsb b.toNat 8).length = 8 * data.length := ih
    omega

theorem pending_length (d : DeflateBits) : d.pending.length = d.remaining := by
  simp [DeflateBits.pending, DeflateBits.remaining, dataBits_length]

theorem fill_pending {count : ℕ} (rest : List Byte) {hold bits : ℕ} (h : hold < 2 ^ bits)
    (hc : count ≤ bits + 8 * rest.length) :
    ∃ e, fill count rest hold bits h = some e ∧ e.pending = lsb hold bits ++ dataBits rest := by
  induction rest generalizing hold bits with
  | nil =>
    refine ⟨⟨[], hold, bits, h⟩, ?_, rfl⟩
    rw [fill, if_neg]
    simpa using hc
  | cons b rest ih =>
    rw [fill]
    split
    · obtain ⟨e, he, hp⟩ := ih (or_shift_lt h b) (by rw [List.length_cons] at hc; omega)
      refine ⟨e, he, ?_⟩
      rw [hp, lsb_or_shift h, List.append_assoc]
      rfl
    · exact ⟨_, rfl, rfl⟩

/-- Reading takes the bits of a number from the front. -/
theorem read_lsb {d : DeflateBits} {v n : ℕ} {rest : List Bool} (hv : v < 2 ^ n)
    (h : d.pending = lsb v n ++ rest) : ∃ e, d.read n = some (v, e) ∧ e.pending = rest := by
  have hlen : n ≤ d.bits + 8 * d.rest.length := by
    have := congrArg List.length h
    rw [pending_length, List.length_append, lsb_length] at this
    unfold DeflateBits.remaining at this
    omega
  obtain ⟨f, hf, hp⟩ := fill_pending d.rest d.fits hlen
  have hbits := fill_bits hf
  have hsplit : f.pending = lsb f.hold n ++ (lsb (f.hold / 2 ^ n) (f.bits - n) ++ dataBits f.rest) := by
    rw [DeflateBits.pending, ← List.append_assoc, ← lsb_add, Nat.add_sub_cancel' hbits]
  have heq : lsb f.hold n ++ (lsb (f.hold / 2 ^ n) (f.bits - n) ++ dataBits f.rest) =
      lsb v n ++ rest := by
    rw [← hsplit, hp, ← h]
    rfl
  obtain ⟨hlow, hhigh⟩ := List.append_inj heq (by rw [lsb_length, lsb_length])
  have hvalue : f.hold % 2 ^ n = v := by
    refine lsb_inj (Nat.mod_lt _ (Nat.two_pow_pos n)) hv ?_
    rw [← hlow]
    exact lsb_congr (Nat.mod_mod _ _)
  refine ⟨⟨f.rest, f.hold >>> n, f.bits - n, shiftRight_fits f.fits hbits⟩, ?_, ?_⟩
  · unfold DeflateBits.read
    split
    · next hnone => exact absurd (hnone.symm.trans hf) (by simp)
    · next g hg =>
      obtain rfl := Option.some.inj (hg.symm.trans hf)
      rw [Nat.and_two_pow_sub_one_eq_mod, hvalue]
  · rw [← hhigh, ← Nat.shiftRight_eq_div_pow]
    rfl

theorem read_bit {d : DeflateBits} {b : Bool} {rest : List Bool} (h : d.pending = b :: rest) :
    ∃ e, d.read 1 = some (b.toNat, e) ∧ e.pending = rest := by
  refine read_lsb (by cases b <;> decide) ?_
  rw [h]
  cases b <;> rfl

/-! ## Tables -/

structure DeflateHuffman.Reads (t : DeflateHuffman) (lengths : List ℕ) : Prop where
  count : ∀ l ≤ 15, t.count.getD l 0 = lengths.count l
  symbols : ∀ s, lengthOf lengths s ≠ 0 → t.symbols[slot lengths s]? = some s

theorem getD_modify_succ (c : List ℕ) (i j : ℕ) (hi : i < c.length) :
    (c.modify i (· + 1)).getD j 0 = c.getD j 0 + if i = j then 1 else 0 := by
  rw [List.getD_eq_getElem?_getD, List.getD_eq_getElem?_getD, List.getElem?_modify]
  split
  next h =>
    subst h
    simp [hi]
  next h => simp

theorem countLengths_eq (lengths : List ℕ) (hle : ∀ l ∈ lengths, l ≤ 15) (c : List ℕ)
    (hc : c.length = 16) :
    ∃ c', countLengths lengths c = some c' ∧ c'.length = 16 ∧
      ∀ l ≤ 15, c'.getD l 0 = c.getD l 0 + lengths.count l := by
  induction lengths generalizing c with
  | nil => exact ⟨c, rfl, hc, fun l _ => by simp⟩
  | cons x xs ih =>
    obtain ⟨hx, hxs⟩ := List.forall_mem_cons.1 hle
    obtain ⟨c', he, hlen, hcount⟩ := ih hxs (c.modify x (· + 1)) (by simpa using hc)
    refine ⟨c', ?_, hlen, fun l hl => ?_⟩
    · rw [countLengths, if_neg (by omega), he]
    · rw [hcount l hl, getD_modify_succ c x l (by omega), List.count_cons]
      simp only [beq_iff_eq]
      omega

theorem roomLeft_eq {lengths c : List ℕ} (hf : Feasible lengths 15)
    (hc : ∀ l ≤ 15, c.getD l 0 = lengths.count l) (k n : ℕ) (hk : k + n ≤ 15) :
    roomLeft c (List.range' (k + 1) n)
      (2 ^ k - firstCode lengths k - used lengths k : ℤ) = true := by
  induction n generalizing k with
  | zero => rfl
  | succ n ih =>
    rw [List.range'_succ, roomLeft]
    have hroom := hf.firstCode_le (l := k + 1) (by omega)
    have hcount : c.getD (k + 1) 0 = used lengths (k + 1) := by
      rw [hc _ (by omega), used_pos (by omega)]
    have hnext : 2 * (2 ^ k - firstCode lengths k - used lengths k : ℤ) - (c.getD (k + 1) 0 : ℕ) =
        2 ^ (k + 1) - firstCode lengths (k + 1) - used lengths (k + 1) := by
      rw [hcount, firstCode]
      push_cast
      ring
    simp only [hnext]
    rw [if_neg, ih (k + 1) (by omega)]
    have hroom' : (firstCode lengths (k + 1) : ℤ) + used lengths (k + 1) ≤ 2 ^ (k + 1) := by
      exact_mod_cast hroom
    omega

theorem offsets_fold {lengths c : List ℕ} (hc : ∀ l ≤ 15, c.getD l 0 = lengths.count l) (n : ℕ)
    (hn : n ≤ 14) :
    let offsets := (List.range' 1 n).foldl
      (fun offsets length => offsets.set (length + 1) (offsets.getD length 0 + c.getD length 0))
      (List.replicate 16 0)
    offsets.length = 16 ∧ ∀ l, 1 ≤ l → l ≤ n + 1 → offsets.getD l 0 = base lengths l := by
  induction n with
  | zero =>
    refine ⟨by simp, fun l h₁ h₂ => ?_⟩
    obtain rfl : l = 1 := by omega
    rw [base_one]
    rfl
  | succ n ih =>
    obtain ⟨hlen, hval⟩ := ih (by omega)
    rw [List.range'_concat, List.foldl_append]
    simp only [List.foldl_cons, List.foldl_nil, one_mul]
    refine ⟨by rw [List.length_set, hlen], fun l h₁ h₂ => ?_⟩
    rw [List.getD_eq_getElem?_getD, List.getElem?_set]
    rcases Nat.lt_or_ge l (n + 2) with hl | hl
    · rw [if_neg (by omega), ← List.getD_eq_getElem?_getD]
      exact hval l h₁ (by omega)
    · obtain rfl : l = n + 2 := by omega
      rw [if_pos (by omega), if_pos (by omega), Option.getD_some, Nat.add_comm 1 n,
        hval (n + 1) (by omega) le_rfl, hc _ (by omega), ← used_pos (by omega), ← base_succ]

/-! ## Placing the symbols -/

/-- Once a prefix of the lengths has been placed. -/
structure Placed (lengths pre offsets symbols : List ℕ) : Prop where
  offsetsLength : offsets.length = 16
  symbolsLength : symbols.length = lengths.length - lengths.count 0
  offset : ∀ l, l ≠ 0 → l ≤ 15 → offsets.getD l 0 = base lengths l + pre.count l
  symbol : ∀ s < pre.length, lengthOf lengths s ≠ 0 → symbols[slot lengths s]? = some s

theorem Placed.step {lengths pre suf : List ℕ} {x : ℕ} {offsets symbols : List ℕ}
    (h : Placed lengths pre offsets symbols) (hsplit : lengths = pre ++ x :: suf) (hx : x ≤ 15) :
    Placed lengths (pre ++ [x]) (placeSymbol (offsets, symbols) (x, pre.length)).1
      (placeSymbol (offsets, symbols) (x, pre.length)).2 := by
  have hlen : lengthOf lengths pre.length = x := by
    rw [lengthOf, hsplit, List.getD_eq_getElem?_getD]
    simp
  have hrank : rank lengths pre.length = pre.count x := by
    rw [rank, hlen, hsplit, List.take_left]
  unfold placeSymbol
  split_ifs with h0
  · simp only at h0
    refine ⟨h.offsetsLength, h.symbolsLength, fun l hl hl' => ?_, fun s hs hne => ?_⟩
    · rw [h.offset l hl hl', List.count_append, h0, List.count_singleton]
      simp [hl.symm]
    · rw [List.length_append, List.length_singleton] at hs
      rcases Nat.lt_succ_iff_lt_or_eq.1 hs with hs | rfl
      · exact h.symbol s hs hne
      · exact absurd (hlen.trans h0) hne
  · simp only at h0 ⊢
    have hslot : offsets.getD x 0 = slot lengths pre.length := by
      rw [h.offset x h0 hx, slot, hlen, hrank]
    refine ⟨by simpa using h.offsetsLength, by simpa using h.symbolsLength, fun l hl hl' => ?_,
      fun s hs hne => ?_⟩
    · rw [getD_modify_succ offsets x l (by rw [h.offsetsLength]; omega), h.offset l hl hl',
        List.count_append, List.count_singleton]
      simp only [beq_iff_eq]
      omega
    · have hbound : slot lengths pre.length < symbols.length := by
        rw [h.symbolsLength]
        exact slot_lt (by rwa [hlen])
      rw [List.length_append, List.length_singleton] at hs
      rw [hslot, List.getElem?_set]
      rcases Nat.lt_succ_iff_lt_or_eq.1 hs with hs | rfl
      · rw [if_neg (slot_ne hne (by rwa [hlen]) hs).symm]
        exact h.symbol s hs hne
      · rw [if_pos rfl, if_pos hbound]

theorem placed_prefix {lengths : List ℕ} (hle : ∀ l ∈ lengths, l ≤ 15) {offsets symbols : List ℕ}
    (h : Placed lengths [] offsets symbols) (pre suf : List ℕ) (hsplit : lengths = pre ++ suf) :
    Placed lengths pre (pre.zipIdx.foldl placeSymbol (offsets, symbols)).1
      (pre.zipIdx.foldl placeSymbol (offsets, symbols)).2 := by
  induction pre using List.reverseRecOn generalizing suf with
  | nil => exact h
  | append_singleton pre x ih =>
    rw [List.append_assoc] at hsplit
    have hx : x ≤ 15 := hle x (by rw [hsplit]; simp)
    rw [List.zipIdx_append, List.foldl_append]
    simpa using (ih _ hsplit).step hsplit hx

/-- Lengths that leave room and are not all zero make a table. -/
theorem buildHuffman_reads {lengths : List ℕ} (hf : Feasible lengths 15)
    (hne : ∃ l ∈ lengths, l ≠ 0) : ∃ t, buildHuffman lengths = some t ∧ t.Reads lengths := by
  obtain ⟨c, hcl, hlen, hcount⟩ := countLengths_eq lengths hf.1 (List.replicate 16 0) (by simp)
  have hc : ∀ l ≤ 15, c.getD l 0 = lengths.count l := by
    intro l hl
    rw [hcount l hl, List.getD_eq_getElem?_getD, List.getElem?_replicate,
      if_pos (Nat.lt_succ_of_le hl), Option.getD_some, Nat.zero_add]
  have hzero : c.getD 0 0 ≠ lengths.length := by
    rw [hc 0 (by omega)]
    intro h
    obtain ⟨l, hl, hl0⟩ := hne
    exact hl0 (List.count_eq_length.1 h l hl).symm
  have hroom : roomLeft c (List.range' 1 15) 1 = true := by
    simpa [firstCode, used] using roomLeft_eq hf hc 0 15 le_rfl
  obtain ⟨holen, hoff⟩ := offsets_fold hc 14 le_rfl
  have hstart : Placed lengths [] (offsetsOf c) (List.replicate (lengths.length - c.getD 0 0) 0) := by
    refine ⟨holen, ?_, fun l hl hl' => ?_, fun s hs => absurd hs (Nat.not_lt_zero s)⟩
    · rw [List.length_replicate, hc 0 (by omega)]
    · rw [List.count_nil, Nat.add_zero]
      exact hoff l (by omega) (by omega)
  have hplaced := placed_prefix hf.1 hstart lengths [] (by simp)
  refine ⟨⟨c, _⟩, ?_, hc, fun s hs => hplaced.symbol s (lt_length_of_lengthOf hs) hs⟩
  rw [buildHuffman, hcl]
  simp only [hroom, Bool.true_eq_false, if_false, if_neg hzero]

theorem buildHuffman_none {lengths : List ℕ} (h : ∀ l ∈ lengths, l = 0) :
    buildHuffman lengths = none := by
  obtain ⟨c, hcl, -, hcount⟩ := countLengths_eq lengths
    (fun l hl => by rw [h l hl]; omega) (List.replicate 16 0) (by simp)
  have hzero : c.getD 0 0 = lengths.length := by
    rw [hcount 0 (by omega), List.count_eq_length.2 (fun l hl => (h l hl).symm)]
    simp
  rw [buildHuffman, hcl]
  simp only [hzero, if_true]

/-! ## Decoding -/

theorem double_or_bit (c : ℕ) (b : Bool) : 2 * c ||| b.toNat = 2 * c + b.toNat := by
  have h := Nat.shiftLeft_add_eq_or_of_lt (b := b.toNat) (i := 1) (by cases b <;> decide) c
  rw [Nat.shiftLeft_eq, Nat.pow_one, Nat.mul_comm c 2] at h
  exact h.symm

/-- With `n` bits of the codeword still to come after the one that is read. -/
theorem decodeFrom_codeword {t : DeflateHuffman} {lengths : List ℕ} (ht : t.Reads lengths) {s : ℕ}
    (hs : lengthOf lengths s ≠ 0) (hmax : lengthOf lengths s ≤ 15) (rest : List Bool) (n : ℕ) :
    ∀ (k : ℕ) (d : DeflateBits), k + n + 1 = lengthOf lengths s →
      d.pending = msb (codeValue lengths s) (n + 1) ++ rest →
      ∃ e, decodeFrom t (List.range' (k + 1) (15 - k)) (2 * (codeValue lengths s / 2 ^ (n + 1)))
        (firstCode lengths (k + 1)) (base lengths (k + 1)) d = some (s, e) ∧ e.pending = rest := by
  induction n with
  | zero =>
    intro k d hk hd
    rw [msb_succ, msb_zero, List.singleton_append] at hd
    obtain ⟨e, he, hp⟩ := read_bit hd
    have hlen : lengthOf lengths s = k + 1 := by omega
    have hcount : t.count.getD (k + 1) 0 = used lengths (k + 1) := by
      rw [ht.count _ (by omega), used_pos (by omega)]
    have hlt := codeValue_lt hs
    have hslot : base lengths (k + 1) + codeValue lengths s - firstCode lengths (k + 1) =
        slot lengths s := by
      rw [slot, codeValue, hlen]
      omega
    refine ⟨e, ?_, hp⟩
    rw [show 15 - k = 14 - k + 1 by omega, List.range'_succ, decodeFrom, he]
    simp only [double_or_bit, ← div_succ_bit, pow_zero, Nat.div_one, hcount]
    rw [if_pos (hlen ▸ hlt), hslot, ht.symbols s hs, Option.map_some]
  | succ n ih =>
    intro k d hk hd
    rw [msb_succ, List.cons_append] at hd
    obtain ⟨e, he, hp⟩ := read_bit hd
    have hcount : t.count.getD (k + 1) 0 = used lengths (k + 1) := by
      rw [ht.count _ (by omega), used_pos (by omega)]
    have hge : firstCode lengths (k + 1) + used lengths (k + 1) ≤
        codeValue lengths s / 2 ^ (lengthOf lengths s - (k + 1)) := le_codeValue_div (by omega)
    rw [show lengthOf lengths s - (k + 1) = n + 1 by omega] at hge
    obtain ⟨e', he', hp'⟩ := ih (k + 1) e (by omega) hp
    refine ⟨e', ?_, hp'⟩
    rw [show 15 - k = 15 - (k + 1) + 1 by omega, List.range'_succ, decodeFrom, he]
    simp only [double_or_bit, ← div_succ_bit, hcount]
    rw [if_neg (Nat.not_lt.2 hge), Nat.shiftLeft_eq, Nat.shiftLeft_eq, pow_one, Nat.mul_comm _ 2,
      Nat.mul_comm _ 2, ← base_succ]
    exact he'

theorem decodeSymbol_codeword {t : DeflateHuffman} {lengths : List ℕ} (ht : t.Reads lengths)
    (hf : Feasible lengths 15) {s : ℕ} (hs : lengthOf lengths s ≠ 0) {d : DeflateBits}
    {rest : List Bool} (h : d.pending = codeword lengths s ++ rest) :
    ∃ e, decodeSymbol t d = some (s, e) ∧ e.pending = rest := by
  have hmax : lengthOf lengths s ≤ 15 := hf.1 _ (lengthOf_mem hs)
  obtain ⟨n, hn⟩ := Nat.exists_eq_succ_of_ne_zero hs
  rw [codeword, hn] at h
  have hfit : codeValue lengths s / 2 ^ (n + 1) = 0 := by
    rw [Nat.div_eq_of_lt]
    have hlt := codeValue_lt hs
    have hle := hf.firstCode_le hmax
    rw [hn] at hlt hle
    exact hlt.trans_le hle
  obtain ⟨e, he, hp⟩ := decodeFrom_codeword ht hs hmax rest n 0 d (by omega) h
  rw [hfit, base_one, firstCode, used_zero] at he
  exact ⟨e, he, hp⟩

end PsxRecomp.Mods
