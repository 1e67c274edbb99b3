import PsxRecomp.DataShards.Replay

/-! The ranges of a finished capture, built from the pages it touched: the flag maps are read page by page, and a run
goes on over a border of pages that both are touched. -/
namespace PsxRecomp.DataShards
set_option autoImplicit false

/-! ## Pages -/

def pageBytes : ℕ := 4096

/-- `ds_touch_page` -/
def touchPage (idx : ℕ) (pages : List ℕ) : List ℕ :=
  if idx / pageBytes ∈ pages then pages else pages ++ [idx / pageBytes]

/-- The pages that an access of a recorder touches, one index after the other. -/
def touchCells (idxs : List ℕ) (pages : List ℕ) : List ℕ := idxs.foldl (fun ps i => touchPage i ps) pages

/-! ## Runs -/

/-- `DsRange` -/
structure DsRange where
  idx : ℕ
  len : ℕ
  deriving DecidableEq

/-- The indices of one page; an open run is known by its start. -/
def scanPage (flag : ℕ → Bool) : ℕ → ℕ → Option ℕ → List DsRange × Option ℕ
  | 0, _, opened => ([], opened)
  | n + 1, i, opened =>
    if flag i then scanPage flag n (i + 1) (some (opened.getD i))
    else match opened with
      | some s =>
        let q := scanPage flag n (i + 1) none
        (⟨s, i - s⟩ :: q.1, q.2)
      | none => scanPage flag n (i + 1) none

/-- The pages in order; `prevEnd` is where the page before has ended. -/
def scanPages (flag : ℕ → Bool) : List ℕ → Option ℕ → Option ℕ → List DsRange
  | [], prevEnd, opened => (opened.map fun s => ⟨s, prevEnd.getD 0 - s⟩).toList
  | p :: ps, prevEnd, opened =>
    let base := p * pageBytes
    let stop := min (base + pageBytes) space
    match prevEnd, opened with
    | some e, some s =>
      if base ≠ e then
        let q := scanPage flag (stop - base) base none
        ⟨s, e - s⟩ :: (q.1 ++ scanPages flag ps (some stop) q.2)
      else
        let q := scanPage flag (stop - base) base opened
        q.1 ++ scanPages flag ps (some stop) q.2
    | _, _ =>
      let q := scanPage flag (stop - base) base opened
      q.1 ++ scanPages flag ps (some stop) q.2

structure Built where
  ranges : List DsRange
  bytes : List Byte

/-- `ds_build_ranges`; the pages are sorted in their place. -/
def dsBuildRanges (flag : ℕ → Bool) (byte : Cells) (pages : List ℕ) : Built × List ℕ :=
  let pages := pages.insertionSort (· ≤ ·)
  let ranges := scanPages flag pages none none
  (⟨ranges, ranges.flatMap fun r => (List.range r.len).map fun i => byte (r.idx + i)⟩, pages)

/-- The two calls of `ds_finalize`: what was read, with the bytes it had, and what was written, with those it has. -/
def dsBuildBoth (rdFlag wrFlag : ℕ → Bool) (rdOrig live : Cells) (pages : List ℕ) : Built × Built :=
  let rd := dsBuildRanges rdFlag rdOrig pages
  (rd.1, (dsBuildRanges wrFlag live rd.2).1)

/-- Pages as the recorder touches them: each once, and those of all flagged indices. -/
structure Touched (flag : ℕ → Bool) (pages : List ℕ) : Prop where
  nodup : pages.Nodup
  inside : ∀ p ∈ pages, p * pageBytes < space
  flagged : ∀ i < space, flag i = true → i / pageBytes ∈ pages

/-! ## What a scan leaves to do -/

/-- The ranges that a scan gives from `i` on, with a run open. -/
structure Tail (flag : ℕ → Bool) (i : ℕ) (opened : Option ℕ) (out : List DsRange) : Prop where
  pos : ∀ r ∈ out, 0 < r.len
  ordered : out.Pairwise fun a b => a.idx + a.len < b.idx
  start : ∀ r ∈ out, opened.getD i ≤ r.idx
  covered : ∀ k, (∃ r ∈ out, r.idx ≤ k ∧ k < r.idx + r.len) ↔
    (∃ s ∈ opened, s ≤ k ∧ k < i) ∨ i ≤ k ∧ k < space ∧ flag k = true

variable {flag : ℕ → Bool} {i s : ℕ} {opened : Option ℕ} {out : List DsRange}

theorem Tail.flagged (hi : i < space) (hf : flag i = true) (ho : ∀ s ∈ opened, s < i)
    (h : Tail flag (i + 1) (some (opened.getD i)) out) : Tail flag i opened out := by
  refine ⟨h.pos, h.ordered, h.start, fun k => (h.covered k).trans ?_⟩
  cases opened with
  | none =>
    simp only [Option.getD_none, Option.mem_def, Option.some.injEq, exists_eq_left', reduceCtorEq, false_and,
      exists_false, false_or]
    constructor
    · rintro (hk | hk)
      · obtain rfl : k = i := by omega
        exact ⟨le_refl k, hi, hf⟩
      · exact ⟨by omega, hk.2⟩
    · intro hk
      by_cases e : k = i
      · exact Or.inl (by omega)
      · exact Or.inr ⟨by omega, hk.2⟩
  | some s =>
    have hs := ho s rfl
    simp only [Option.getD_some, Option.mem_def, Option.some.injEq, exists_eq_left']
    constructor
    · rintro (hk | hk)
      · by_cases e : k = i
        · subst e
          exact Or.inr ⟨le_refl k, hi, hf⟩
        · exact Or.inl (by omega)
      · exact Or.inr ⟨by omega, hk.2⟩
    · rintro (hk | hk)
      · exact Or.inl (by omega)
      · by_cases e : k = i
        · exact Or.inl (by omega)
        · exact Or.inr ⟨by omega, hk.2⟩

/-- Indices without a flag are skipped while no run is open. -/
theorem Tail.skip {j : ℕ} (hij : i ≤ j) (hf : ∀ k, i ≤ k → k < j → k < space → flag k = false)
    (h : Tail flag j none out) : Tail flag i none out := by
  refine ⟨h.pos, h.ordered, fun r hr => hij.trans (h.start r hr), fun k => (h.covered k).trans ?_⟩
  simp only [Option.mem_def, reduceCtorEq, false_and, exists_false, false_or]
  constructor
  · rintro ⟨h1, h2⟩
    exact ⟨by omega, h2⟩
  · rintro ⟨h1, h2, h3⟩
    refine ⟨?_, h2, h3⟩
    by_contra hk
    rw [hf k h1 (by omega) h2] at h3
    cases h3

/-- A run is closed where the indices have no flag. -/
theorem Tail.close {j : ℕ} (hs : s < i) (hij : i < j) (hf : ∀ k, i ≤ k → k < j → k < space → flag k = false)
    (h : Tail flag j none out) : Tail flag i (some s) (⟨s, i - s⟩ :: out) := by
  have hskip := h.skip (Nat.le_of_lt hij) hf
  refine ⟨?_, ?_, ?_, fun k => ?_⟩
  · rintro r (_ | ⟨_, hr⟩)
    · exact Nat.sub_pos_of_lt hs
    · exact h.pos r hr
  · refine List.pairwise_cons.2 ⟨fun r hr => ?_, h.ordered⟩
    have := h.start r hr
    simp only [Option.getD_none] at this
    show s + (i - s) < r.idx
    omega
  · rintro r (_ | ⟨_, hr⟩)
    · exact le_refl s
    · have := h.start r hr
      simp only [Option.getD_none, Option.getD_some] at this ⊢
      omega
  · have hcov := hskip.covered k
    simp only [Option.mem_def, reduceCtorEq, false_and, exists_false, false_or, Option.some.injEq,
      exists_eq_left'] at hcov ⊢
    rw [← hcov]
    simp only [List.mem_cons, exists_eq_or_imp]
    exact or_congr ⟨fun h => by omega, fun h => by omega⟩ Iff.rfl

theorem scanPage_open (n i : ℕ) (opened : Option ℕ) (ho : ∀ s ∈ opened, s < i) :
    ∀ s ∈ (scanPage flag n i opened).2, s < i + n := by
  induction n generalizing i opened with
  | zero => exact ho
  | succ n ih =>
    have e : i + (n + 1) = i + 1 + n := by omega
    rw [e]
    unfold scanPage
    split_ifs with hf
    · refine ih (i + 1) _ fun s hs => ?_
      obtain rfl := Option.some.inj hs
      cases opened with
      | none => exact Nat.lt_succ_self i
      | some s => exact Nat.lt_succ_of_lt (ho s rfl)
    · cases opened with
      | none => exact ih (i + 1) none (by simp)
      | some s => exact ih (i + 1) none (by simp)

theorem scanPage_tail (n i : ℕ) (opened : Option ℕ) (hi : i + n ≤ space) (ho : ∀ s ∈ opened, s < i) {rest : List DsRange}
    (hrest : Tail flag (i + n) (scanPage flag n i opened).2 rest) :
    Tail flag i opened ((scanPage flag n i opened).1 ++ rest) := by
  induction n generalizing i opened with
  | zero => exact hrest
  | succ n ih =>
    have e : i + (n + 1) = i + 1 + n := by omega
    rw [e] at hrest
    unfold scanPage at hrest ⊢
    by_cases hf : flag i = true
    · rw [if_pos hf] at hrest ⊢
      refine (ih (i + 1) _ (by omega) (fun s hs => ?_) hrest).flagged (by omega) hf ho
      obtain rfl := Option.some.inj hs
      cases opened with
      | none => exact Nat.lt_succ_self i
      | some s => exact Nat.lt_succ_of_lt (ho s rfl)
    · rw [if_neg hf] at hrest ⊢
      have hone : ∀ k, i ≤ k → k < i + 1 → k < space → flag k = false := by
        intro k h1 h2 _
        have e : k = i := by omega
        rw [e]
        exact Bool.not_eq_true _ ▸ hf
      cases opened with
      | none => exact (ih (i + 1) none (by omega) (by simp) hrest).skip (Nat.le_succ i) hone
      | some s => exact (ih (i + 1) none (by omega) (by simp) hrest).close (ho s rfl) (Nat.lt_succ_self i) hone

/-- The pages that are left hold every flagged index from `e` on. -/
theorem scanPages_tail (ps : List ℕ) (e : ℕ) (opened : Option ℕ) (hsorted : ps.Pairwise (· < ·))
    (hfrom : ∀ p ∈ ps, e ≤ p * pageBytes) (hin : ∀ p ∈ ps, p * pageBytes < space) (ho : ∀ s ∈ opened, s < e)
    (hflag : ∀ k, e ≤ k → k < space → flag k = true → k / pageBytes ∈ ps) :
    Tail flag e opened (scanPages flag ps (some e) opened) := by
  induction ps generalizing e opened with
  | nil =>
    have hnone : ∀ k, e ≤ k → k < space → flag k = false := by
      intro k h1 h2
      by_contra hf
      exact List.not_mem_nil (hflag k h1 h2 (by simpa using hf))
    have hend : Tail flag (e + space + 1) none [] :=
      ⟨by simp, List.Pairwise.nil, by simp, fun k => by simp; omega⟩
    cases opened with
    | none => exact hend.skip (by omega) fun k h1 _ h3 => hnone k h1 h3
    | some s => exact hend.close (ho s rfl) (by omega) fun k h1 _ h3 => hnone k h1 h3
  | cons p ps ih =>
    obtain ⟨hp, hsorted⟩ := List.pairwise_cons.1 hsorted
    have hbase := hfrom p List.mem_cons_self
    have hpin := hin p List.mem_cons_self
    have hstop : p * pageBytes < min (p * pageBytes + pageBytes) space := lt_min (by unfold pageBytes; omega) hpin
    have hlen : p * pageBytes + (min (p * pageBytes + pageBytes) space - p * pageBytes) =
        min (p * pageBytes + pageBytes) space := by omega
    have hgap : ∀ k, e ≤ k → k < p * pageBytes → k < space → flag k = false := by
      intro k h1 h2 h3
      by_contra hf
      have hmem := hflag k h1 h3 (by simpa using hf)
      have hle : p ≤ k / pageBytes := by
        rcases List.mem_cons.1 hmem with h | h
        · exact Nat.le_of_eq h.symm
        · exact Nat.le_of_lt (hp _ h)
      have := Nat.mul_le_of_le_div _ _ _ hle
      omega
    have hnext : ∀ opened, (∀ s ∈ opened, s < min (p * pageBytes + pageBytes) space) →
        Tail flag (min (p * pageBytes + pageBytes) space) opened
          (scanPages flag ps (some (min (p * pageBytes + pageBytes) space)) opened) := by
      intro opened ho
      refine ih _ opened hsorted (fun q hq => ?_) (fun q hq => hin q (List.mem_cons_of_mem _ hq)) ho
        fun k h1 h2 h3 => ?_
      · have := Nat.mul_le_mul_right pageBytes (hp q hq)
        rw [Nat.succ_mul] at this
        exact (min_le_left _ _).trans this
      · rcases List.mem_cons.1 (hflag k (by omega) h2 h3) with h | h
        · have hlt := Nat.lt_div_mul_add (a := k) (b := pageBytes) (by decide)
          rw [h] at hlt
          have := min_le_iff.1 (le_trans h1 (le_refl k))
          omega
        · exact h
    have hpage : ∀ opened, (∀ s ∈ opened, s < p * pageBytes) →
        Tail flag (p * pageBytes) opened
          ((scanPage flag (min (p * pageBytes + pageBytes) space - p * pageBytes) (p * pageBytes) opened).1 ++
            scanPages flag ps (some (min (p * pageBytes + pageBytes) space))
              (scanPage flag (min (p * pageBytes + pageBytes) space - p * pageBytes) (p * pageBytes) opened).2) := by
      intro opened ho
      have hopen := @scanPage_open flag (min (p * pageBytes + pageBytes) space - p * pageBytes) _ _ ho
      rw [hlen] at hopen
      refine scanPage_tail _ _ _ (by omega) ho ?_
      rw [hlen]
      exact hnext _ hopen
    cases opened with
    | none => exact (hpage none (by simp)).skip hbase hgap
    | some s =>
      by_cases heq : p * pageBytes = e
      · subst heq
        have h := hpage (some s) ho
        simpa [scanPages] using h
      · have h := (hpage none (by simp)).close (ho s rfl) (lt_of_le_of_ne hbase (Ne.symm heq)) hgap
        simpa [scanPages, heq] using h

/-! ## The ranges of a capture -/

theorem insertionSort_touched {pages : List ℕ} (h : Touched flag pages) :
    Touched flag (pages.insertionSort (· ≤ ·)) := by
  have hperm := pages.perm_insertionSort (· ≤ ·)
  exact ⟨hperm.nodup_iff.2 h.nodup, fun p hp => h.inside p (hperm.mem_iff.1 hp),
    fun i hi hf => hperm.mem_iff.2 (h.flagged i hi hf)⟩

theorem dsBuildRanges_tail {byte : Cells} {pages : List ℕ} (h : Touched flag pages) :
    Tail flag 0 none (dsBuildRanges flag byte pages).1.ranges := by
  have hs := insertionSort_touched h
  have hlt : (pages.insertionSort (· ≤ ·)).Pairwise (· < ·) := by
    refine ((pages.pairwise_insertionSort (· ≤ ·)).and hs.nodup).imp fun h => ?_
    exact lt_of_le_of_ne h.1 h.2
  have hfrom := scanPages_tail _ 0 none hlt (fun _ _ => Nat.zero_le _) hs.inside (by simp)
    fun k _ h2 h3 => hs.flagged k h2 h3
  -- Before the first page there is no run to close.
  show Tail flag 0 none (scanPages flag (pages.insertionSort (· ≤ ·)) none none)
  revert hfrom
  cases pages.insertionSort (· ≤ ·) <;> exact id

/-! ## The scan of all indices -/

/-- Two lists of ranges with gaps between them that cover the same indices start alike, -/
theorem start_le {r q : DsRange} {a b : List DsRange} (hpos : 0 < r.len)
    (hb : (q :: b).Pairwise fun x y => x.idx + x.len < y.idx)
    (hsame : ∀ k, (∃ x ∈ r :: a, x.idx ≤ k ∧ k < x.idx + x.len) → ∃ x ∈ q :: b, x.idx ≤ k ∧ k < x.idx + x.len) :
    q.idx ≤ r.idx := by
  obtain ⟨x, hx, hle, -⟩ := hsame r.idx ⟨r, List.mem_cons_self, le_refl _, by omega⟩
  rcases List.mem_cons.1 hx with rfl | hx
  · exact hle
  · have := (List.pairwise_cons.1 hb).1 x hx
    omega

/-- and their first ranges end alike. -/
theorem len_le {r q : DsRange} {a b : List DsRange} (ha : (r :: a).Pairwise fun x y => x.idx + x.len < y.idx)
    (hidx : q.idx = r.idx)
    (hsame : ∀ k, (∃ x ∈ q :: b, x.idx ≤ k ∧ k < x.idx + x.len) → ∃ x ∈ r :: a, x.idx ≤ k ∧ k < x.idx + x.len) :
    q.len ≤ r.len := by
  by_contra hlt
  obtain ⟨x, hx, hle, hend⟩ := hsame (r.idx + r.len) ⟨q, List.mem_cons_self, by omega, by omega⟩
  rcases List.mem_cons.1 hx with rfl | hx
  · omega
  · have := (List.pairwise_cons.1 ha).1 x hx
    omega

/-- Behind a first range that both share a list covers what the other does. -/
theorem covered_behind {r : DsRange} {a b : List DsRange} {k : ℕ} (hafter : ∀ x ∈ a, r.idx + r.len < x.idx)
    (hsame : ∀ k, (∃ x ∈ r :: a, x.idx ≤ k ∧ k < x.idx + x.len) → ∃ x ∈ r :: b, x.idx ≤ k ∧ k < x.idx + x.len) :
    (∃ x ∈ a, x.idx ≤ k ∧ k < x.idx + x.len) → ∃ x ∈ b, x.idx ≤ k ∧ k < x.idx + x.len := by
  rintro ⟨x, hx, hle, hlt⟩
  have hgap := hafter x hx
  obtain ⟨y, hy, hyk⟩ := hsame k ⟨x, List.mem_cons_of_mem _ hx, hle, hlt⟩
  rcases List.mem_cons.1 hy with rfl | hy
  · omega
  · exact ⟨y, hy, hyk⟩

theorem ranges_unique {a b : List DsRange} (hapos : ∀ r ∈ a, 0 < r.len) (hbpos : ∀ r ∈ b, 0 < r.len)
    (ha : a.Pairwise fun x y => x.idx + x.len < y.idx) (hb : b.Pairwise fun x y => x.idx + x.len < y.idx)
    (hsame : ∀ k, (∃ x ∈ a, x.idx ≤ k ∧ k < x.idx + x.len) ↔ ∃ x ∈ b, x.idx ≤ k ∧ k < x.idx + x.len) : a = b := by
  induction a generalizing b with
  | nil =>
    cases b with
    | nil => rfl
    | cons q b =>
      have hq := hbpos q List.mem_cons_self
      obtain ⟨x, hx, -⟩ := (hsame q.idx).2 ⟨q, List.mem_cons_self, le_refl _, by omega⟩
      cases hx
  | cons r a ih =>
    have hr := hapos r List.mem_cons_self
    cases b with
    | nil =>
      obtain ⟨x, hx, -⟩ := (hsame r.idx).1 ⟨r, List.mem_cons_self, le_refl _, by omega⟩
      cases hx
    | cons q b =>
      have hq := hbpos q List.mem_cons_self
      have hidx : q.idx = r.idx :=
        le_antisymm (start_le hr hb fun k => (hsame k).1) (start_le hq ha fun k => (hsame k).2)
      have hlen : q.len = r.len :=
        le_antisymm (len_le ha hidx fun k => (hsame k).2) (len_le hb hidx.symm fun k => (hsame k).1)
      obtain rfl : r = q := by
        cases r
        cases q
        simp only at hidx hlen
        rw [hidx, hlen]
      obtain ⟨hafter, ha⟩ := List.pairwise_cons.1 ha
      obtain ⟨hbfter, hb⟩ := List.pairwise_cons.1 hb
      exact congrArg (r :: ·) (ih (fun x hx => hapos x (List.mem_cons_of_mem _ hx))
        (fun x hx => hbpos x (List.mem_cons_of_mem _ hx)) ha hb fun k =>
          ⟨covered_behind hafter fun k => (hsame k).1, covered_behind hbfter fun k => (hsame k).2⟩)

/-- A range with the bytes that it spans. -/
def DsRange.filled (byte : Cells) (r : DsRange) : Range := ⟨r.idx, (List.range r.len).map fun k => byte (r.idx + k)⟩

/-- The run that is open at `i`, closed there. -/
def closeAt (i : ℕ) (opened : Option ℕ) : List DsRange := (opened.map fun s => ⟨s, i - s⟩).toList

theorem scan_eq (byte : Cells) (n i : ℕ) (opened : Option ℕ) (ho : ∀ s ∈ opened, s < i) :
    scan flag byte n i (opened.map fun s => DsRange.filled byte ⟨s, i - s⟩) =
      ((scanPage flag n i opened).1 ++ closeAt (i + n) (scanPage flag n i opened).2).map (DsRange.filled byte) := by
  induction n generalizing i opened with
  | zero => cases opened <;> rfl
  | succ n ih =>
    have e : i + (n + 1) = i + 1 + n := by omega
    rw [e]
    unfold scan scanPage
    by_cases hf : flag i = true
    · rw [if_pos hf, if_pos hf]
      cases opened with
      | none =>
        have hone : (⟨i, [byte i]⟩ : Range) = DsRange.filled byte ⟨i, i + 1 - i⟩ := by
          rw [Nat.add_sub_cancel_left]
          rfl
        exact hone ▸ ih (i + 1) (some i) (by simp)
      | some s =>
        have hs := ho s rfl
        have hmore : DsRange.filled byte ⟨s, i + 1 - s⟩ =
            { DsRange.filled byte ⟨s, i - s⟩ with bytes := (DsRange.filled byte ⟨s, i - s⟩).bytes ++ [byte i] } := by
          have hlen : i + 1 - s = i - s + 1 := by omega
          have hlast : s + (i - s) = i := by omega
          simp only [DsRange.filled, hlen, List.range_succ, List.map_append, List.map_cons, List.map_nil, hlast]
        have h := ih (i + 1) (some s) (fun t ht => by
          obtain rfl := Option.some.inj ht
          omega)
        rw [Option.map_some, hmore] at h
        exact h
    · rw [if_neg hf, if_neg hf]
      have h := ih (i + 1) none (by simp)
      cases opened with
      | none => exact h
      | some s => exact congrArg (_ :: ·) h

/-- The page scan finds what a scan of all indices finds. -/
theorem dsBuildRanges_scan {pages : List ℕ} (byte : Cells) (h : Touched flag pages) :
    (dsBuildRanges flag byte pages).1.ranges.map (DsRange.filled byte) = buildRanges flag byte := by
  have htail : Tail flag 0 none ((scanPage flag space 0 none).1 ++ closeAt (0 + space) (scanPage flag space 0 none).2) := by
    refine scanPage_tail space 0 none (by omega) (by simp) ?_
    have hopen := @scanPage_open flag space 0 none (by simp)
    have hend : Tail flag (0 + space + 1) none [] := ⟨by simp, List.Pairwise.nil, by simp, fun k => by simp; omega⟩
    cases hlast : (scanPage flag space 0 none).2 with
    | none => exact hend.skip (by omega) fun k h1 _ h3 => absurd h3 (by omega)
    | some s => exact hend.close (hopen s hlast) (by omega) fun k h1 _ h3 => absurd h3 (by omega)
  have hpages : Tail flag 0 none (dsBuildRanges flag byte pages).1.ranges := dsBuildRanges_tail h
  have hsame := ranges_unique hpages.pos htail.pos hpages.ordered htail.ordered
    fun k => (hpages.covered k).trans (htail.covered k).symm
  rw [hsame]
  exact (scan_eq byte space 0 none (by simp)).symm

/-! ## Exactness -/

/-- `ds_verify` and `ds_apply` take each range from one array. -/
def Apart (b : Built) : Prop := ∀ r ∈ b.ranges, r.idx < ramBytes → r.idx + r.len ≤ ramBytes

theorem Tail.apart {b : Built} (h : Tail flag 0 none b.ranges) : Apart b ↔ Unbroken flag := by
  have hcov : ∀ k, (∃ r ∈ b.ranges, r.idx ≤ k ∧ k < r.idx + r.len) ↔ k < space ∧ flag k = true := by
    intro k
    rw [h.covered k]
    simp
  constructor
  · rintro hapart ⟨h1, h2⟩
    obtain ⟨r, hr, hlo, hhi⟩ := (hcov (ramBytes - 1)).2 ⟨by decide, h1⟩
    obtain ⟨q, hq, hqlo, hqhi⟩ := (hcov ramBytes).2 ⟨by decide, h2⟩
    have hpos : 0 < ramBytes := by decide
    have hend := hapart r hr (by omega)
    have hqstart : ramBytes ≤ q.idx := by
      by_contra hlt
      have := hapart q hq (by omega)
      omega
    -- Two ranges of one list leave an index between them.
    have hne : r ≠ q := fun e => by subst e; omega
    have hsymm : Std.Symm fun x y : DsRange => x.idx + x.len < y.idx ∨ y.idx + y.len < x.idx := ⟨fun _ _ => Or.symm⟩
    have hboth : b.ranges.Pairwise fun x y => x.idx + x.len < y.idx ∨ y.idx + y.len < x.idx :=
      h.ordered.imp Or.inl
    have := hboth.forall hr hq hne
    omega
  · intro hun r hr hidx
    by_contra hlong
    exact hun ⟨((hcov _).1 ⟨r, hr, by omega, by omega⟩).2, ((hcov _).1 ⟨r, hr, by omega, by omega⟩).2⟩

/-- What a list of ranges should be. -/
structure Exact (flag : ℕ → Bool) (byte : Cells) (b : Built) : Prop where
  pos : ∀ r ∈ b.ranges, 0 < r.len
  ordered : b.ranges.Pairwise fun x y => x.idx + x.len < y.idx
  covers : ∀ k, (∃ r ∈ b.ranges, r.idx ≤ k ∧ k < r.idx + r.len) ↔ k < space ∧ flag k = true
  bytes : b.bytes = b.ranges.flatMap fun r => (List.range r.len).map fun i => byte (r.idx + i)
  apart : Apart b

theorem dsBuildRanges_exact {byte : Cells} {pages : List ℕ} (h : Touched flag pages) :
    Exact flag byte (dsBuildRanges flag byte pages).1 ↔ Unbroken flag := by
  have ht : Tail flag 0 none (dsBuildRanges flag byte pages).1.ranges := dsBuildRanges_tail h
  refine ⟨fun he => ht.apart.1 he.apart, fun hun => ⟨ht.pos, ht.ordered, fun k => ?_, rfl, ht.apart.2 hun⟩⟩
  rw [ht.covered k]
  simp

/-- A capture's ranges are exact unless the last byte of RAM and the first of the scratchpad both have a flag. -/
theorem dsBuildBoth_exact (rdFlag wrFlag : ℕ → Bool) (rdOrig live : Cells) (pages : List ℕ)
    (hrd : Touched rdFlag pages) (hwr : Touched wrFlag pages) :
    Exact rdFlag rdOrig (dsBuildBoth rdFlag wrFlag rdOrig live pages).1 ∧
        Exact wrFlag live (dsBuildBoth rdFlag wrFlag rdOrig live pages).2 ↔
      Unbroken rdFlag ∧ Unbroken wrFlag :=
  and_congr (dsBuildRanges_exact hrd) (dsBuildRanges_exact (insertionSort_touched hwr))

/-- Four bytes about a border of pages, and one in the scratchpad. -/
def scattered (i : ℕ) : Bool := decide (0xFFE ≤ i ∧ i < 0x1002 ∨ i = 0x800010)

theorem scattered_touched : Touched scattered [0x800, 1, 0] := by
  refine ⟨by decide, by decide, fun i _ hf => ?_⟩
  have hi := of_decide_eq_true hf
  unfold pageBytes
  simp only [List.mem_cons, List.not_mem_nil, or_false]
  omega

theorem dsBuildBoth_exact_scattered :
    Exact scattered (fun _ => 0) (dsBuildBoth scattered scattered (fun _ => 0) (fun _ => 1) [0x800, 1, 0]).1 ∧
      Exact scattered (fun _ => 1) (dsBuildBoth scattered scattered (fun _ => 0) (fun _ => 1) [0x800, 1, 0]).2 :=
  (dsBuildBoth_exact _ _ (fun _ => 0) (fun _ => 1) _ scattered_touched scattered_touched).2
    ⟨by unfold Unbroken; decide, by unfold Unbroken; decide⟩

/-! ## The end of RAM in the two geometries -/

theorem noteWriteCells_flag {n idx k : ℕ} {r : Recorder} (h : (Recorder.noteWriteCells n idx r).wrFlag k = true) :
    r.wrFlag k = true ∨ idx ≤ k ∧ k < idx + n := by
  induction n generalizing idx r with
  | zero => exact Or.inl h
  | succ n ih =>
    have hupdate : ∀ {b : Bool}, Function.update r.wrFlag idx b k = true → r.wrFlag k = true ∨ k = idx := by
      intro b hb
      by_cases e : k = idx
      · exact Or.inr e
      · exact Or.inl (by rwa [Function.update_of_ne e] at hb)
    unfold Recorder.noteWriteCells at h
    dsimp only at h
    split_ifs at h with h1 h2
    · exact (ih h).imp_right fun hk => ⟨by omega, by omega⟩
    · exact (hupdate h).imp_right fun hk => ⟨by omega, by omega⟩
    · rcases ih h with h | h
      · exact (hupdate h).imp_right fun hk => ⟨by omega, by omega⟩
      · exact Or.inr ⟨by omega, by omega⟩

def expanded : Geometry := ⟨0x7FFFFF, Or.inr rfl⟩

/-- A capture that stores a word at the end of the expanded RAM and one at the start of the scratchpad. -/
def borderNoted : Recorder :=
  (Recorder.noteWrite expanded 0x1F800000 4
    (Recorder.noteWrite expanded 0x807FFFFC 4 ⟨fun _ => false, fun _ => false, fun _ => 0, 0, false⟩))

def borderPages : List ℕ := touchCells [0x7FFFFC, 0x7FFFFD, 0x7FFFFE, 0x7FFFFF, 0x800000, 0x800001, 0x800002, 0x800003] []

theorem borderNoted_touched : Touched borderNoted.wrFlag borderPages := by
  have hpages : borderPages = [0x7FF, 0x800] := by decide
  have hram : indexOf expanded 0x807FFFFC = .cell 0x7FFFFC := by decide
  have hsp : indexOf expanded 0x1F800000 = .cell 0x800000 := by decide
  rw [hpages]
  refine ⟨by decide, by decide, fun i _ hf => ?_⟩
  have hrange : 0x7FFFFC ≤ i ∧ i < 0x800004 := by
    unfold borderNoted Recorder.noteWrite at hf
    rw [if_neg (by decide), if_neg (by decide), hsp, hram] at hf
    rcases noteWriteCells_flag hf with hf | hf
    · rcases noteWriteCells_flag hf with hf | hf
      · cases hf
      · omega
    · omega
  unfold pageBytes
  simp
  omega

/-- The two stores make one range. -/
theorem range_over_border : Touched borderNoted.wrFlag borderPages ∧
    ¬ Exact borderNoted.wrFlag (fun _ => 0) (dsBuildRanges borderNoted.wrFlag (fun _ => 0) borderPages).1 := by
  refine ⟨borderNoted_touched, fun he => ?_⟩
  exact (dsBuildRanges_tail borderNoted_touched).apart.1 he.apart ⟨by decide, by decide⟩

end PsxRecomp.DataShards
