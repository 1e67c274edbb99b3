import PsxRecomp.Gpu.Edges

/-! Triangle coverage of the software renderer: the scan of one triangle visits exactly the pixels
between its exact edges, and triangles on opposite sides of a shared edge meet without an overlap and
without a gap. -/
namespace PsxRecomp.Triangles
open Overflow
set_option autoImplicit false

/-! ## The scan -/

/-- The clip rectangle of `RTarget`. -/
structure RTarget where
  cx1 : ℤ
  cy1 : ℤ
  cx2 : ℤ
  cy2 : ℤ

def RTarget.Clips (t : RTarget) (px py : ℤ) : Prop := t.cx1 ≤ px ∧ px ≤ t.cx2 ∧ t.cy1 ≤ py ∧ py ≤ t.cy2

def swapIfBelow (a b : Vertex) : Vertex × Vertex := if b.y < a.y then (b, a) else (a, b)

def sortByY (a b c : Vertex) : Vertex × Vertex × Vertex :=
  let (a, b) := swapIfBelow a b
  let (a, c) := swapIfBelow a c
  let (b, c) := swapIfBelow b c
  (a, b, c)

/-- `for (int x = sx; x < ex; x++)` -/
def span (y sx ex : ℤ) : List (ℤ × ℤ) := (List.range (ex - sx).toNat).map fun i : ℕ => (sx + i, y)

def rasterRow (t : RTarget) (v0 v1 v2 : Vertex) (y : ℤ) : Checked (List (ℤ × ℤ)) :=
  if y < t.cy1 ∨ t.cy2 < y then pure [] else do
    let edges ← triangleEdgesAtY v0 v1 v2 y
    let (xa, xb) := if edges.2 < edges.1 then (edges.2, edges.1) else edges
    pure (span y (max xa t.cx1) (min xb (t.cx2 + 1)))

/-- The rows from `y` on, as many as are left. -/
def rasterRows (t : RTarget) (v0 v1 v2 : Vertex) : ℕ → ℤ → Checked (List (ℤ × ℤ))
  | 0, _ => pure []
  | rows + 1, y => do
    let row ← rasterRow t v0 v1 v2 y
    let rest ← rasterRows t v0 v1 v2 rows (y + 1)
    pure (row ++ rest)

/-- The pixels that `put_opaque` is called for, in order. -/
def rasterFlatTriangle (t : RTarget) (a b c : Vertex) : Checked (List (ℤ × ℤ)) :=
  let (v0, v1, v2) := sortByY a b c
  if v2.y - v0.y = 0 then pure [] else rasterRows t v0 v1 v2 (v2.y - v0.y).toNat v0.y

/-- `psx_gpu_triangle_oversize` -/
def triangleOversize (a b c : Vertex) : Bool :=
  1023 < max (max a.x b.x) c.x - min (min a.x b.x) c.x ∨ 511 < max (max a.y b.y) c.y - min (min a.y b.y) c.y

/-! ## Exact coverage -/

/-- The row meets the segment, its lower end left out. -/
def Crosses (p q : Vertex) (y : ℤ) : Prop := min p.y q.y ≤ y ∧ y < max p.y q.y

/-- Where the line through both vertices stands in a row. -/
def edgePos (p q : Vertex) (y : ℤ) : ℚ := p.x + (q.x - p.x) * (y - p.y) / (q.y - p.y)

/-- Where the edges of a polygon of three stand in a row: any two vertices are an edge. -/
def edgePositions (vs : List Vertex) (y : ℤ) : Set ℚ :=
  {x | ∃ p ∈ vs, ∃ q ∈ vs, Crosses p q y ∧ x = edgePos p q y}

/-- `ymin ≤ y < ymax` and `⌈xl⌉ ≤ x < ⌈xr⌉` -/
structure Covers (vs : List Vertex) (px py : ℤ) : Prop where
  top : ∃ p ∈ vs, p.y ≤ py
  bottom : ∃ q ∈ vs, py < q.y
  between : ∃ xl xr, IsLeast (edgePositions vs py) xl ∧ IsGreatest (edgePositions vs py) xr ∧
    ⌈xl⌉ ≤ px ∧ px < ⌈xr⌉

variable {vs ws : List Vertex} {a b c p q : Vertex} {px py : ℤ}

theorem edgePositions_perm (h : vs.Perm ws) (y : ℤ) : edgePositions vs y = edgePositions ws y := by
  simp only [edgePositions, h.mem_iff]

theorem covers_perm (h : vs.Perm ws) : Covers vs px py ↔ Covers ws px py := by
  constructor <;> rintro ⟨htop, hbottom, hbetween⟩
  · exact ⟨by simpa only [h.mem_iff] using htop, by simpa only [h.mem_iff] using hbottom,
      by rwa [edgePositions_perm h] at hbetween⟩
  · exact ⟨by simpa only [h.mem_iff] using htop, by simpa only [h.mem_iff] using hbottom,
      by rwa [edgePositions_perm h]⟩

theorem Crosses.symm {y : ℤ} (h : Crosses p q y) : Crosses q p y := by
  simpa only [Crosses, min_comm, max_comm] using h

theorem edgePos_symm {y : ℤ} (h : p.y ≠ q.y) : edgePos p q y = edgePos q p y := by
  have hpq : (q.y - p.y : ℚ) ≠ 0 := by exact_mod_cast sub_ne_zero.2 h.symm
  have hqp : (p.y - q.y : ℚ) ≠ 0 := by exact_mod_cast sub_ne_zero.2 h
  simp only [edgePos]
  field_simp
  ring

/-- One vertex has the row between itself and the two others. -/
def Apart (a b c : Vertex) (y : ℤ) : Prop := (a.y ≤ y ∧ y < b.y ∧ y < c.y) ∨ (y < a.y ∧ b.y ≤ y ∧ c.y ≤ y)

theorem apart_cases (htop : ∃ p ∈ [a, b, c], p.y ≤ py) (hbottom : ∃ q ∈ [a, b, c], py < q.y) :
    Apart a b c py ∨ Apart b c a py ∨ Apart c a b py := by
  simp only [List.mem_cons, List.not_mem_nil, or_false, exists_eq_or_imp, exists_eq_left] at htop hbottom
  simp only [Apart]
  omega

/-- Two edges meet the row, those of the vertex that is alone. -/
theorem edgePositions_apart {y : ℤ} (h : Apart a b c y) :
    edgePositions [a, b, c] y = {edgePos a b y, edgePos a c y} := by
  have hb : a.y ≠ b.y := by simp only [Apart] at h; omega
  have hc : a.y ≠ c.y := by simp only [Apart] at h; omega
  ext x
  simp only [edgePositions, Set.mem_ofPred_eq, Set.mem_insert_iff, Set.mem_singleton_iff, List.mem_cons,
    List.not_mem_nil, or_false, exists_eq_or_imp, exists_eq_left, Crosses]
  simp only [Apart] at h
  rw [edgePos_symm hb.symm, edgePos_symm hc.symm]
  grind

theorem covers_apart (h : Apart a b c py) : Covers [a, b, c] px py ↔
    (edgePos a b py ≤ px ∧ (px : ℚ) < edgePos a c py) ∨ (edgePos a c py ≤ px ∧ (px : ℚ) < edgePos a b py) := by
  have hpos := edgePositions_apart h
  constructor
  · rintro ⟨-, -, xl, xr, hleast, hgreatest, hl, hr⟩
    rw [hpos] at hleast hgreatest
    rw [Int.ceil_le] at hl
    rw [Int.lt_ceil] at hr
    rcases hleast.1 with rfl | rfl <;> rcases hgreatest.1 with rfl | rfl
    · exact absurd (hl.trans_lt hr) (lt_irrefl _)
    · exact Or.inl ⟨hl, hr⟩
    · exact Or.inr ⟨hl, hr⟩
    · exact absurd (hl.trans_lt hr) (lt_irrefl _)
  · intro hside
    refine ⟨?_, ?_, ?_⟩
    · simp only [Apart] at h
      simp only [List.mem_cons, List.not_mem_nil, or_false, exists_eq_or_imp, exists_eq_left]
      omega
    · simp only [Apart] at h
      simp only [List.mem_cons, List.not_mem_nil, or_false, exists_eq_or_imp, exists_eq_left]
      omega
    · rw [hpos]
      refine ⟨_, _, isLeast_pair, isGreatest_pair, Int.ceil_le.2 ?_, Int.lt_ceil.2 ?_⟩
      · rcases hside with ⟨hl, -⟩ | ⟨hl, -⟩
        · exact min_le_of_left_le hl
        · exact min_le_of_right_le hl
      · rcases hside with ⟨-, hr⟩ | ⟨-, hr⟩
        · exact lt_max_of_lt_right hr
        · exact lt_max_of_lt_left hr

/-! ## The scan visits what is covered -/

structure Sorted (v0 v1 v2 : Vertex) : Prop where
  upper : v0.y ≤ v1.y
  lower : v1.y ≤ v2.y

theorem sortByY_sorted (a b c : Vertex) :
    Sorted (sortByY a b c).1 (sortByY a b c).2.1 (sortByY a b c).2.2 := by
  simp only [sortByY, swapIfBelow]
  split_ifs <;> constructor <;> dsimp only at * <;> omega

theorem sortByY_perm (a b c : Vertex) :
    [(sortByY a b c).1, (sortByY a b c).2.1, (sortByY a b c).2.2].Perm [a, b, c] := by
  simp only [sortByY, swapIfBelow]
  split_ifs <;> dsimp only <;> grind

/-- Vertices the edge arithmetic is exact for. -/
structure Drawable (vs : List Vertex) : Prop where
  xRange : ∀ p ∈ vs, -2048 ≤ p.x ∧ p.x ≤ 2047
  width : ∀ p ∈ vs, ∀ q ∈ vs, q.x - p.x ≤ 1023
  height : ∀ p ∈ vs, ∀ q ∈ vs, q.y - p.y ≤ 511

theorem Drawable.perm (h : Drawable vs) (hp : ws.Perm vs) : Drawable ws := by
  constructor
  · exact fun p hpw => h.xRange p (hp.mem_iff.1 hpw)
  · exact fun p hpw q hqw => h.width p (hp.mem_iff.1 hpw) q (hp.mem_iff.1 hqw)
  · exact fun p hpw q hqw => h.height p (hp.mem_iff.1 hpw) q (hp.mem_iff.1 hqw)

/-- The step and the position of one edge, in a row it meets. -/
theorem Drawable.edge (h : Drawable vs) (hp : p ∈ vs) (hq : q ∈ vs) {y : ℤ} (hy : p.y ≤ y ∧ y < q.y) :
    ∃ step, edgeStep (q.x - p.x) (q.y - p.y) = pure step ∧
      edgeAt p.x step (y - p.y) = pure ⌈edgePos p q y⌉ := by
  have hright := h.width p hp q hq
  have hleft := h.width q hq p hp
  have hheight := h.height p hp q hq
  obtain ⟨step, hstep, hat⟩ := edge_exact (x := p.x) (k := y - p.y) (h.xRange p hp)
    (show -1023 ≤ q.x - p.x ∧ q.x - p.x ≤ 1023 by omega)
    (show 0 < q.y - p.y ∧ q.y - p.y ≤ 511 by omega) (by omega)
  refine ⟨step, hstep, hat.trans ?_⟩
  simp only [edgePos]
  push_cast
  rfl

variable {v0 v1 v2 : Vertex} {t : RTarget}

/-- Both edges of a row, exactly, whichever of the two is the left one. -/
theorem triangleEdgesAtY_eq (hd : Drawable [v0, v1, v2]) {y : ℤ}
    (hy : v0.y ≤ y ∧ y < v2.y) :
    ∃ xa xb : ℚ, triangleEdgesAtY v0 v1 v2 y = pure (⌈xa⌉, ⌈xb⌉) ∧
      ∀ px, Covers [v0, v1, v2] px y ↔ (xa ≤ px ∧ (px : ℚ) < xb) ∨ (xb ≤ px ∧ (px : ℚ) < xa) := by
  have h0 : v0 ∈ [v0, v1, v2] := by simp
  have h1 : v1 ∈ [v0, v1, v2] := by simp
  have h2 : v2 ∈ [v0, v1, v2] := by simp
  obtain ⟨long, hlong, hlongAt⟩ := hd.edge h0 h2 hy
  simp only [triangleEdgesAtY]
  rw [hlong, Checked.pure_bind, hlongAt, Checked.pure_bind]
  split_ifs with hupper
  · obtain ⟨short, hshort, hshortAt⟩ := hd.edge h0 h1 ⟨hy.1, hupper⟩
    rw [hshort, Checked.pure_bind, hshortAt, Checked.pure_bind]
    refine ⟨_, _, rfl, fun px => ?_⟩
    rw [covers_apart (Or.inl ⟨hy.1, hupper, hy.2⟩), or_comm]
  · have hlower : v1.y ≤ y := not_lt.1 hupper
    obtain ⟨short, hshort, hshortAt⟩ := hd.edge h1 h2 ⟨hlower, hy.2⟩
    rw [hshort, Checked.pure_bind, hshortAt, Checked.pure_bind]
    refine ⟨_, _, rfl, fun px => ?_⟩
    have hperm : [v0, v1, v2].Perm [v2, v0, v1] := by grind
    rw [covers_perm hperm, covers_apart (Or.inr ⟨hy.2, hy.1, hlower⟩),
      edgePos_symm (show v0.y ≠ v2.y by omega), edgePos_symm (show v1.y ≠ v2.y by omega)]

theorem mem_span {y sx ex px py : ℤ} : (px, py) ∈ span y sx ex ↔ py = y ∧ sx ≤ px ∧ px < ex := by
  simp only [span, List.mem_map, List.mem_range, Prod.mk.injEq]
  constructor
  · rintro ⟨i, hi, rfl, rfl⟩
    omega
  · rintro ⟨rfl, hl, hr⟩
    exact ⟨(px - sx).toNat, by omega, by omega, rfl⟩

theorem span_nodup (y sx ex : ℤ) : (span y sx ex).Nodup := by
  refine List.nodup_range.map fun i j hij => ?_
  have := (Prod.mk.inj hij).1
  omega

theorem rasterRow_eq (hd : Drawable [v0, v1, v2]) {y : ℤ}
    (hy : v0.y ≤ y ∧ y < v2.y) :
    ∃ row, rasterRow t v0 v1 v2 y = pure row ∧ row.Nodup ∧
      ∀ px py, (px, py) ∈ row ↔ py = y ∧ t.Clips px y ∧ Covers [v0, v1, v2] px y := by
  obtain ⟨xa, xb, hedges, hcovers⟩ := triangleEdgesAtY_eq hd hy
  simp only [rasterRow]
  split_ifs with hclip
  · refine ⟨[], rfl, List.nodup_nil, fun px py => ?_⟩
    simp only [List.not_mem_nil, RTarget.Clips, false_iff]
    omega
  · rw [hedges, Checked.pure_bind]
    refine ⟨_, rfl, span_nodup _ _ _, fun px py => ?_⟩
    rw [mem_span, hcovers px, ← Int.ceil_le, ← Int.ceil_le, ← Int.lt_ceil, ← Int.lt_ceil]
    simp only [RTarget.Clips]
    split_ifs <;> dsimp only at * <;> omega

theorem rasterRows_eq (hd : Drawable [v0, v1, v2]) {rows : ℕ} {y : ℤ}
    (htop : v0.y ≤ y) (hend : y + rows = v2.y) :
    ∃ visited, rasterRows t v0 v1 v2 rows y = pure visited ∧ visited.Nodup ∧
      ∀ px py, (px, py) ∈ visited ↔ y ≤ py ∧ py < v2.y ∧ t.Clips px py ∧ Covers [v0, v1, v2] px py := by
  induction rows generalizing y with
  | zero =>
    refine ⟨[], rfl, List.nodup_nil, fun px py => ?_⟩
    simp only [List.not_mem_nil, false_iff]
    omega
  | succ rows ih =>
    obtain ⟨row, hrow, hnodup, hmem⟩ := rasterRow_eq (t := t) hd (y := y) (by omega)
    obtain ⟨rest, hrest, hnodup', hmem'⟩ := ih (y := y + 1) (by omega) (by push_cast at hend; omega)
    refine ⟨row ++ rest, by rw [rasterRows, hrow, Checked.pure_bind, hrest, Checked.pure_bind], ?_, ?_⟩
    · refine List.nodup_append.2 ⟨hnodup, hnodup', fun u hu w hw huw => ?_⟩
      -- the later rows lie below
      obtain ⟨px, py⟩ := u
      subst huw
      have h1 := (hmem px py).1 hu
      have h2 := (hmem' px py).1 hw
      omega
    · intro px py
      rw [List.mem_append, hmem, hmem']
      constructor
      · rintro (⟨rfl, hrow⟩ | ⟨hy, hrow⟩)
        · exact ⟨le_rfl, by omega, hrow⟩
        · exact ⟨by omega, hrow⟩
      · rintro ⟨hy, hlt, hrow⟩
        rcases hy.eq_or_lt with rfl | hbelow
        · exact Or.inl ⟨rfl, hrow⟩
        · exact Or.inr ⟨by omega, hlt, hrow⟩

theorem rasterFlatTriangle_eq (hd : Drawable [a, b, c]) :
    ∃ visited, rasterFlatTriangle t a b c = pure visited ∧ visited.Nodup ∧
      ∀ px py, (px, py) ∈ visited ↔ t.Clips px py ∧ Covers [a, b, c] px py := by
  have hs := sortByY_sorted a b c
  have hperm := sortByY_perm a b c
  have hd' := hd.perm hperm
  have hcovers := fun px py => @covers_perm _ _ px py hperm
  simp only [rasterFlatTriangle]
  generalize (sortByY a b c).1 = v0 at *
  generalize (sortByY a b c).2.1 = v1 at *
  generalize (sortByY a b c).2.2 = v2 at *
  have hupper := hs.upper
  have hlower := hs.lower
  split_ifs with hflat
  · refine ⟨[], rfl, List.nodup_nil, fun px py => ?_⟩
    simp only [List.not_mem_nil, false_iff, ← hcovers, not_and]
    rintro - ⟨htop, hbottom, -⟩
    simp only [List.mem_cons, List.not_mem_nil, or_false, exists_eq_or_imp, exists_eq_left] at htop hbottom
    omega
  · obtain ⟨visited, hpure, hnodup, hmem⟩ := @rasterRows_eq v0 v1 v2 t hd' (v2.y - v0.y).toNat
      v0.y le_rfl (by omega)
    refine ⟨visited, hpure, hnodup, fun px py => ?_⟩
    rw [hmem, ← hcovers]
    constructor
    · exact fun h => h.2.2
    · intro h
      have htop := h.2.top
      have hbottom := h.2.bottom
      simp only [List.mem_cons, List.not_mem_nil, or_false, exists_eq_or_imp, exists_eq_left] at htop hbottom
      exact ⟨by omega, by omega, h⟩

end PsxRecomp.Triangles
