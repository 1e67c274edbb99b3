import PsxRecomp.Gpu.TriangleCoverage

/-! Triangles that share an edge. A covered pixel lies on the inner side of every edge, where a pixel
on an edge counts for one side only; so two triangles on opposite sides of an edge share no pixel, and
together they cover what lies within their outline. -/
namespace PsxRecomp.Triangles
open Overflow
set_option autoImplicit false

/-! ## Sides of an edge -/

/-- Twice the signed area of the triangle of `p`, `q` and the pixel. -/
def side (p q : Vertex) (px py : ℤ) : ℤ := (q.x - p.x) * (py - p.y) - (q.y - p.y) * (px - p.x)

/-- The positive side, to which an edge itself counts when it runs upwards, or level to the right. -/
def OnSide (p q : Vertex) (px py : ℤ) : Prop :=
  0 < side p q px py ∨ side p q px py = 0 ∧ (q.y < p.y ∨ q.y = p.y ∧ p.x < q.x)

variable {a b c d p q : Vertex} {px py : ℤ}

theorem side_symm (p q : Vertex) (px py : ℤ) : side q p px py = -side p q px py := by
  simp only [side]
  ring

theorem OnSide.asymm (h : OnSide p q px py) : ¬ OnSide q p px py := by
  simp only [OnSide, side_symm p q] at *
  omega

/-- The three sides add up to the area. -/
theorem side_sum (a b c : Vertex) (px py : ℤ) :
    side a b px py + side b c px py + side c a px py = side a b c.x c.y := by
  simp only [side]
  ring

/-- The row weighs the three sides. -/
theorem side_weights (a b c : Vertex) (px py : ℤ) :
    side a b px py * (c.y - py) + side c a px py * (b.y - py) = side b c px py * (py - a.y) := by
  simp only [side]
  ring

theorem edgePos_le_down (h : p.y ≤ py ∧ py < q.y) : edgePos p q py ≤ px ↔ side p q px py ≤ 0 := by
  have hy : (0 : ℚ) < q.y - p.y := by exact_mod_cast sub_pos.2 (h.1.trans_lt h.2)
  rw [edgePos, ← le_sub_iff_add_le', div_le_iff₀ hy, side]
  constructor <;> intro hle
  · have : (q.x - p.x) * (py - p.y) ≤ (px - p.x) * (q.y - p.y) := by exact_mod_cast hle
    linarith
  · have : (q.x - p.x) * (py - p.y) ≤ (px - p.x) * (q.y - p.y) := by linarith
    exact_mod_cast this

theorem edgePos_le_up (h : q.y ≤ py ∧ py < p.y) : edgePos p q py ≤ px ↔ 0 ≤ side p q px py := by
  rw [edgePos_symm (by omega), edgePos_le_down h, side_symm]
  omega

/-- Every edge has the pixel on the side of the triangle. -/
def Surrounds (a b c : Vertex) (px py : ℤ) : Prop :=
  OnSide a b px py ∧ OnSide b c px py ∧ OnSide c a px py ∧ 0 < side a b c.x c.y

theorem Surrounds.rotate (h : Surrounds a b c px py) : Surrounds b c a px py := by
  obtain ⟨hab, hbc, hca, harea⟩ := h
  refine ⟨hbc, hca, hab, ?_⟩
  rw [← side_sum a b c px py] at harea
  rw [← side_sum b c a px py]
  omega

/-- The row passes below the vertex that is alone. -/
theorem surrounds_below (h : a.y ≤ py ∧ py < b.y ∧ py < c.y) (hcov : Covers [a, b, c] px py) :
    Surrounds a b c px py ∨ Surrounds a c b px py := by
  rw [covers_apart (Or.inl h), ← not_le, ← not_le, edgePos_le_down ⟨h.1, h.2.1⟩,
    edgePos_le_down ⟨h.1, h.2.2⟩] at hcov
  have hsum := side_sum a b c px py
  have hsum' := side_sum a c b px py
  have hweights := side_weights a b c px py
  simp only [Surrounds, OnSide, side_symm a b, side_symm a c, side_symm b c] at *
  generalize side a b px py = u at *
  generalize side b c px py = v at *
  generalize side a c px py = w at *
  rcases hcov with ⟨hu, hw⟩ | ⟨hw, hu⟩
  · have hv : v < 0 := by nlinarith
    omega
  · have hv : 0 < v := by nlinarith
    omega

/-- In the row of a vertex the two edges that meet above it tell the pixels apart by `x` alone. -/
theorem side_level (h : q.y = py) : side p q px py = (q.x - px) * (py - p.y) := by
  simp only [side, h]
  ring

/-- The row passes above the vertex that is alone. -/
theorem surrounds_above (h : py < a.y ∧ b.y ≤ py ∧ c.y ≤ py) (hcov : Covers [a, b, c] px py) :
    Surrounds a b c px py ∨ Surrounds a c b px py := by
  rw [covers_apart (Or.inr h), ← not_le, ← not_le, edgePos_le_up ⟨h.2.1, h.1⟩,
    edgePos_le_up ⟨h.2.2, h.1⟩] at hcov
  have hsum := side_sum a b c px py
  have hsum' := side_sum a c b px py
  have hweights := side_weights a b c px py
  -- with both other vertices in the row, their order there is the order of the edges
  have hlevel : b.y = py → c.y = py → (0 ≤ side a b px py → b.x ≤ px) ∧ (side a b px py < 0 → px < b.x) ∧
      (0 ≤ side a c px py → c.x ≤ px) ∧ (side a c px py < 0 → px < c.x) := by
    intro hb hc
    rw [side_level hb, side_level hc]
    refine ⟨fun hs => ?_, fun hs => ?_, fun hs => ?_, fun hs => ?_⟩ <;> by_contra hx <;> nlinarith
  simp only [Surrounds, OnSide, side_symm a b, side_symm a c, side_symm b c] at *
  generalize side a b px py = u at *
  generalize side b c px py = v at *
  generalize side a c px py = w at *
  have hb : b.y < py ∨ b.y = py := h.2.1.lt_or_eq
  have hc : c.y < py ∨ c.y = py := h.2.2.lt_or_eq
  rcases hcov with ⟨hu, hw⟩ | ⟨hw, hu⟩
  · have hv : 0 ≤ v := by nlinarith
    have hvzero : v = 0 → b.y = py ∧ (u = 0 ∨ c.y = py) := by
      rintro rfl
      have h1 : u * (c.y - py) ≤ 0 := mul_nonpos_of_nonneg_of_nonpos hu (by omega)
      have h2 : -w * (b.y - py) ≤ 0 := mul_nonpos_of_nonneg_of_nonpos (by omega) (by omega)
      have hc0 : u = 0 ∨ c.y - py = 0 := mul_eq_zero.1 (by linarith)
      have hb0 : -w = 0 ∨ b.y - py = 0 := mul_eq_zero.1 (by linarith)
      omega
    omega
  · have hv : v ≤ 0 := by nlinarith
    have hvzero : v = 0 → c.y = py ∧ (w = 0 ∨ b.y = py) := by
      rintro rfl
      have h1 : 0 ≤ u * (c.y - py) := mul_nonneg_of_nonpos_of_nonpos (by omega) (by omega)
      have h2 : 0 ≤ -w * (b.y - py) := mul_nonneg_of_nonpos_of_nonpos (by omega) (by omega)
      have hc0 : u = 0 ∨ c.y - py = 0 := mul_eq_zero.1 (by linarith)
      have hb0 : -w = 0 ∨ b.y - py = 0 := mul_eq_zero.1 (by linarith)
      omega
    omega

/-- A covered pixel lies inside all three edges, in the one turn or in the other. -/
theorem covers_surrounds (hcov : Covers [a, b, c] px py) : Surrounds a b c px py ∨ Surrounds a c b px py := by
  have hbca : [a, b, c].Perm [b, c, a] := by grind
  have hcab : [a, b, c].Perm [c, a, b] := by grind
  rcases apart_cases hcov.top hcov.bottom with h | h | h
  · exact h.elim (fun h => surrounds_below h hcov) fun h => surrounds_above h hcov
  · have hcov' := (covers_perm hbca).1 hcov
    have hrot := h.elim (fun h => surrounds_below h hcov') fun h => surrounds_above h hcov'
    exact hrot.imp (fun h => h.rotate.rotate) fun h => h.rotate
  · have hcov' := (covers_perm hcab).1 hcov
    have hrot := h.elim (fun h => surrounds_below h hcov') fun h => surrounds_above h hcov'
    exact hrot.imp (fun h => h.rotate) fun h => h.rotate.rotate

/-! ## A shared edge -/

/-- Not on the same side of the line through `a` and `b`. -/
def OppositeSides (a b c d : Vertex) : Prop := side a b c.x c.y * side a b d.x d.y ≤ 0

theorem side_swap (a b c : Vertex) : side a c b.x b.y = -side a b c.x c.y := by
  simp only [side]
  ring

/-- No pixel is covered twice. -/
theorem covers_disjoint (hop : OppositeSides a b c d) (hc : Covers [a, b, c] px py)
    (hd : Covers [a, b, d] px py) : False := by
  rw [OppositeSides] at hop
  rcases covers_surrounds hc with ⟨hab, -, -, hpos⟩ | ⟨-, -, hba, hneg⟩ <;>
    rcases covers_surrounds hd with ⟨hab', -, -, hpos'⟩ | ⟨-, -, hba', hneg'⟩
  · nlinarith
  · exact hab.asymm hba'
  · exact hab'.asymm hba
  · rw [side_swap] at hneg hneg'
    nlinarith

/-- The edge meets the row at the pixel or to the left of it. -/
def LeftOf (p q : Vertex) (px py : ℤ) : Prop := Crosses p q py ∧ edgePos p q py ≤ px

theorem leftOf_symm (p q : Vertex) (px py : ℤ) : LeftOf p q px py ↔ LeftOf q p px py := by
  simp only [LeftOf]
  constructor <;> rintro ⟨hcross, hpos⟩
  · have hne : p.y ≠ q.y := by simp only [Crosses] at hcross; omega
    exact ⟨hcross.symm, edgePos_symm hne ▸ hpos⟩
  · have hne : p.y ≠ q.y := by simp only [Crosses] at hcross; omega
    exact ⟨hcross.symm, (edgePos_symm hne).symm ▸ hpos⟩

/-- An odd number of edges stands to the left of a covered pixel. -/
theorem covers_odd_apart (h : Apart a b c py) : Covers [a, b, c] px py ↔
    Xor (LeftOf a b px py) (Xor (LeftOf b c px py) (LeftOf c a px py)) := by
  have hbc : ¬ LeftOf b c px py := by
    rintro ⟨hcross, -⟩
    simp only [Crosses, Apart] at hcross h
    omega
  have hab : LeftOf a b px py ↔ edgePos a b py ≤ px := by
    simp only [LeftOf, and_iff_right_iff_imp, Crosses]
    simp only [Apart] at h
    omega
  have hca : LeftOf c a px py ↔ edgePos a c py ≤ px := by
    rw [leftOf_symm]
    simp only [LeftOf, and_iff_right_iff_imp, Crosses]
    simp only [Apart] at h
    omega
  rw [covers_apart h, hab, hca]
  simp only [Xor, hbc, false_and, not_false_eq_true, and_true, false_or, ← not_le]

theorem xor_rotate (p q r : Prop) : Xor p (Xor q r) ↔ Xor q (Xor r p) := by
  by_cases hp : p <;> by_cases hq : q <;> by_cases hr : r <;> simp [Xor, hp, hq, hr]

theorem covers_odd : Covers [a, b, c] px py ↔
    Xor (LeftOf a b px py) (Xor (LeftOf b c px py) (LeftOf c a px py)) := by
  by_cases hrow : (∃ p ∈ [a, b, c], p.y ≤ py) ∧ ∃ q ∈ [a, b, c], py < q.y
  · have hbca : [a, b, c].Perm [b, c, a] := by grind
    have hcab : [a, b, c].Perm [c, a, b] := by grind
    rcases apart_cases hrow.1 hrow.2 with h | h | h
    · exact covers_odd_apart h
    · rw [covers_perm hbca, covers_odd_apart h]
      exact (xor_rotate _ _ _).symm
    · rw [covers_perm hcab, covers_odd_apart h]
      exact xor_rotate _ _ _
  · have hnone : ∀ p q, p ∈ [a, b, c] → q ∈ [a, b, c] → ¬ LeftOf p q px py := by
      rintro p q hp hq ⟨hcross, -⟩
      simp only [Crosses] at hcross
      refine hrow ⟨?_, ?_⟩
      · rcases min_choice p.y q.y with hmin | hmin
        · exact ⟨p, hp, by omega⟩
        · exact ⟨q, hq, by omega⟩
      · rcases max_choice p.y q.y with hmax | hmax
        · exact ⟨p, hp, by omega⟩
        · exact ⟨q, hq, by omega⟩
    have hab := hnone a b (by simp) (by simp)
    have hbc := hnone b c (by simp) (by simp)
    have hca := hnone c a (by simp) (by simp)
    simp only [Xor, hab, hbc, hca, false_and, or_false, iff_false]
    exact fun hcov => hrow ⟨hcov.top, hcov.bottom⟩

/-- Inside the outline of the quadrilateral: an odd number of its edges stands to the left. -/
def InsideOutline (a c b d : Vertex) (px py : ℤ) : Prop :=
  Xor (Xor (LeftOf a c px py) (LeftOf c b px py)) (Xor (LeftOf b d px py) (LeftOf d a px py))

/-- Nothing inside the outline of both triangles is left out. -/
theorem covers_either (hop : OppositeSides a b c d) :
    Covers [a, b, c] px py ∨ Covers [a, b, d] px py ↔ InsideOutline a c b d px py := by
  have hdisjoint : ¬(Covers [a, b, c] px py ∧ Covers [a, b, d] px py) := fun h => covers_disjoint hop h.1 h.2
  rw [covers_odd, covers_odd] at hdisjoint ⊢
  rw [InsideOutline, leftOf_symm a c, leftOf_symm c b]
  -- the shared edge counts twice
  grind

/-! ## Triangles as they are drawn -/

/-- A coordinate of a parsed vertex, and of the draw offset. -/
def ElevenBit (v : Vertex) : Prop := (-1024 ≤ v.x ∧ v.x ≤ 1023) ∧ -1024 ≤ v.y ∧ v.y ≤ 1023

def Vertex.offset (o v : Vertex) : Vertex := ⟨v.x + o.x, v.y + o.y⟩

theorem drawable_offset {o : Vertex} (ho : ElevenBit o) (ha : ElevenBit a) (hb : ElevenBit b) (hc : ElevenBit c)
    (hsize : triangleOversize a b c = false) : Drawable [o.offset a, o.offset b, o.offset c] := by
  simp only [triangleOversize, decide_eq_false_iff_not, not_or, not_lt] at hsize
  simp only [ElevenBit] at ho ha hb hc
  constructor <;> simp only [List.forall_mem_cons, List.not_mem_nil, IsEmpty.forall_iff, implies_true, and_true,
    Vertex.offset] <;> omega

theorem oppositeSides_offset {o : Vertex} (h : OppositeSides a b c d) :
    OppositeSides (o.offset a) (o.offset b) (o.offset c) (o.offset d) := by
  simpa only [OppositeSides, side, Vertex.offset, add_sub_add_right_eq_sub] using h

/-- A triangle that is not rejected visits each clipped pixel between its exact edges once, and nothing
else, with no overflow and no division by zero; and a second triangle across one of its edges, drawn in
any vertex order, takes what is left within the outline of the two. -/
theorem triangle_coverage_exact (t : RTarget) (o a b c : Vertex) (ho : ElevenBit o) (ha : ElevenBit a)
    (hb : ElevenBit b) (hc : ElevenBit c) (hsize : triangleOversize a b c = false) :
    ∃ visited, rasterFlatTriangle t (o.offset a) (o.offset b) (o.offset c) = pure visited ∧
      visited.Nodup ∧
      (∀ px py, (px, py) ∈ visited ↔
        t.Clips px py ∧ Covers [o.offset a, o.offset b, o.offset c] px py) ∧
      ∀ p q r d u v w, [p, q, r].Perm [a, b, c] → [u, v, w].Perm [p, q, d] →
        ElevenBit d → triangleOversize u v w = false → OppositeSides p q r d →
        ∃ visited', rasterFlatTriangle t (o.offset u) (o.offset v) (o.offset w) = pure visited' ∧
          ∀ px py, ¬((px, py) ∈ visited ∧ (px, py) ∈ visited') ∧
            (t.Clips px py → ((px, py) ∈ visited ∨ (px, py) ∈ visited' ↔
              InsideOutline (o.offset p) (o.offset r) (o.offset q) (o.offset d) px py)) := by
  obtain ⟨visited, hpure, hnodup, hmem⟩ := rasterFlatTriangle_eq (t := t) (drawable_offset ho ha hb hc hsize)
  refine ⟨visited, hpure, hnodup, hmem, fun p q r d u v w habc huvw hd hsize' hop => ?_⟩
  have heleven : ∀ x ∈ [u, v, w], ElevenBit x := by
    intro x hx
    rw [huvw.mem_iff] at hx
    have hbase : ∀ y ∈ [p, q, r], ElevenBit y := by
      intro y hy
      rw [habc.mem_iff] at hy
      simp only [List.mem_cons, List.not_mem_nil, or_false] at hy
      rcases hy with rfl | rfl | rfl <;> assumption
    simp only [List.mem_cons, List.not_mem_nil, or_false] at hx
    rcases hx with rfl | rfl | rfl
    · exact hbase _ (by simp)
    · exact hbase _ (by simp)
    · exact hd
  obtain ⟨visited', hpure', -, hmem'⟩ := rasterFlatTriangle_eq (t := t)
    (drawable_offset ho (heleven u (by simp)) (heleven v (by simp)) (heleven w (by simp)) hsize')
  have hfirst := fun px py => @covers_perm _ _ px py (habc.map o.offset)
  have hsecond := fun px py => @covers_perm _ _ px py (huvw.map o.offset)
  simp only [List.map_cons, List.map_nil] at hfirst hsecond
  have hop' := oppositeSides_offset (o := o) hop
  refine ⟨visited', hpure', fun px py => ⟨?_, fun hclip => ?_⟩⟩
  · rw [hmem, hmem', ← hfirst, hsecond]
    exact fun h => covers_disjoint hop' h.1.2 h.2.2
  · rw [hmem, hmem', ← hfirst, hsecond, and_iff_right hclip, and_iff_right hclip]
    exact covers_either hop'

/-- The two triangles of a quad whose vertices are (0,0), (7,1), (2,5) and (8,6). -/
theorem triangle_coverage_quad : ∃ visited visited',
    rasterFlatTriangle ⟨0, 0, 319, 239⟩ (Vertex.offset ⟨1, 2⟩ ⟨0, 0⟩) (Vertex.offset ⟨1, 2⟩ ⟨7, 1⟩)
        (Vertex.offset ⟨1, 2⟩ ⟨2, 5⟩) = pure visited ∧
      rasterFlatTriangle ⟨0, 0, 319, 239⟩ (Vertex.offset ⟨1, 2⟩ ⟨7, 1⟩) (Vertex.offset ⟨1, 2⟩ ⟨2, 5⟩)
        (Vertex.offset ⟨1, 2⟩ ⟨8, 6⟩) = pure visited' ∧
      ∀ px py, ¬((px, py) ∈ visited ∧ (px, py) ∈ visited') := by
  obtain ⟨visited, hpure, -, -, hshared⟩ := triangle_coverage_exact ⟨0, 0, 319, 239⟩ ⟨1, 2⟩ ⟨0, 0⟩ ⟨7, 1⟩ ⟨2, 5⟩
    (by simp [ElevenBit]) (by simp [ElevenBit]) (by simp [ElevenBit]) (by simp [ElevenBit]) (by decide)
  obtain ⟨visited', hpure', hpixels⟩ := hshared ⟨7, 1⟩ ⟨2, 5⟩ ⟨0, 0⟩ ⟨8, 6⟩ ⟨7, 1⟩ ⟨2, 5⟩ ⟨8, 6⟩ (by decide) (by decide)
    (by simp [ElevenBit]) (by decide) (by simp [OppositeSides, side])
  exact ⟨visited, visited', hpure, hpure', fun px py => (hpixels px py).1⟩

end PsxRecomp.Triangles
