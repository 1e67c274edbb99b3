import Mathlib

/-! Cells written into an image, one after the other. Where no key is written with two values the
order of the cells plays no part. -/
namespace PsxRecomp.Cells
set_option autoImplicit false

variable {κ β : Type*}

/-! ## Agreement -/

/-- A key of both lists has one value. -/
def Agree (cells cells' : List (κ × β)) : Prop :=
  ∀ k v w, (k, v) ∈ cells → (k, w) ∈ cells' → v = w

/-- No key has two values. -/
def Consistent (cells : List (κ × β)) : Prop := Agree cells cells

theorem Agree.symm {cells cells' : List (κ × β)} (h : Agree cells cells') : Agree cells' cells :=
  fun k v w hv hw => (h k w v hw hv).symm

theorem agree_flatMap_left {α : Type*} {xs : List α} {f : α → List (κ × β)}
    {rest : List (κ × β)} : Agree (xs.flatMap f) rest ↔ ∀ x ∈ xs, Agree (f x) rest := by
  constructor
  · intro h x hx k v w hv
    exact h k v w (List.mem_flatMap.2 ⟨x, hx, hv⟩)
  · intro h k v w hv
    obtain ⟨x, hx, hv⟩ := List.mem_flatMap.1 hv
    exact h x hx k v w hv

/-! ## Painting -/

variable [DecidableEq κ]

def paint (m : κ → β) (cells : List (κ × β)) : κ → β :=
  cells.foldl (fun m c => Function.update m c.1 c.2) m

theorem paint_cons (m : κ → β) (c : κ × β) (cells : List (κ × β)) :
    paint m (c :: cells) = paint (Function.update m c.1 c.2) cells := rfl

theorem paint_append (m : κ → β) (cells cells' : List (κ × β)) :
    paint m (cells ++ cells') = paint (paint m cells) cells' := List.foldl_append

/-- A key that no cell names keeps its value. -/
theorem paint_outside (m : κ → β) (cells : List (κ × β)) (k : κ) (h : ∀ v, (k, v) ∉ cells) :
    paint m cells k = m k := by
  induction cells generalizing m with
  | nil => rfl
  | cons c cells ih =>
    have hne : k ≠ c.1 := fun he => h c.2 (he ▸ List.mem_cons_self)
    rw [paint_cons, ih _ fun v hv => h v (List.mem_cons_of_mem c hv), Function.update_of_ne hne]

/-- The last cell of a key decides. -/
theorem paint_mem (m : κ → β) (cells : List (κ × β)) (k : κ) :
    (∃ v, (k, v) ∈ cells ∧ paint m cells k = v) ∨ (∀ v, (k, v) ∉ cells) := by
  induction cells generalizing m with
  | nil => exact Or.inr fun v hv => absurd hv List.not_mem_nil
  | cons c cells ih =>
    rw [paint_cons]
    rcases ih (Function.update m c.1 c.2) with ⟨v, hv, hp⟩ | hout
    · exact Or.inl ⟨v, List.mem_cons_of_mem c hv, hp⟩
    · by_cases hk : k = c.1
      · refine Or.inl ⟨c.2, hk ▸ List.mem_cons_self, ?_⟩
        rw [paint_outside _ _ _ hout, hk, Function.update_self]
      · refine Or.inr fun v hv => ?_
        rcases List.mem_cons.1 hv with he | hv
        · exact hk (congrArg Prod.fst he)
        · exact hout v hv

/-- A written key holds its value. -/
theorem paint_inside {cells : List (κ × β)} (hc : Consistent cells) {k : κ} {v : β}
    (h : (k, v) ∈ cells) (m : κ → β) : paint m cells k = v := by
  rcases paint_mem m cells k with ⟨w, hw, hp⟩ | hout
  · rw [hp]
    exact hc k w v hw h
  · exact absurd h (hout v)

/-- Consistent cells with the same members give the same image. -/
theorem paint_congr {cells cells' : List (κ × β)} (hc : Consistent cells)
    (h : ∀ c, c ∈ cells ↔ c ∈ cells') (m : κ → β) : paint m cells = paint m cells' := by
  have hc' : Consistent cells' := fun k v w hv hw => hc k v w ((h _).2 hv) ((h _).2 hw)
  funext k
  rcases paint_mem m cells k with ⟨v, hv, hp⟩ | hout
  · rw [hp, paint_inside hc' ((h _).1 hv)]
  · rw [paint_outside m cells k hout,
      paint_outside m cells' k fun v hv => hout v ((h _).2 hv)]

/-- Cells painted in groups. -/
theorem paint_flatMap {α : Type*} (f : α → List (κ × β)) (xs : List α) (m : κ → β) :
    xs.foldl (fun m x => paint m (f x)) m = paint m (xs.flatMap f) := by
  induction xs generalizing m with
  | nil => rfl
  | cons x xs ih => rw [List.foldl_cons, ih, List.flatMap_cons, paint_append]

/-- Every cell is in the image, and nothing else has changed. -/
def Painted (cells : List (κ × β)) (m image : κ → β) : Prop :=
  (∀ k v, (k, v) ∈ cells → image k = v) ∧ ∀ k, (∀ v, (k, v) ∉ cells) → image k = m k

theorem painted_paint {cells : List (κ × β)} (hc : Consistent cells) (m : κ → β) :
    Painted cells m (paint m cells) :=
  ⟨fun _ _ h => paint_inside hc h m, fun k h => paint_outside m cells k h⟩

/-- The value the last cell of a key carries. -/
def lastOf (cells : List (κ × β)) : κ → Option β :=
  paint (fun _ => none) (cells.map fun c => (c.1, some c.2))

theorem mem_of_lastOf {cells : List (κ × β)} {k : κ} {v : β} (h : lastOf cells k = some v) :
    (k, v) ∈ cells := by
  unfold lastOf at h
  rcases paint_mem (fun _ => none) (cells.map fun c => (c.1, some c.2)) k with
    ⟨w, hw, hp⟩ | hout
  · obtain ⟨c, hc, he⟩ := List.mem_map.1 hw
    simp only [Prod.mk.injEq] at he
    rw [hp, ← he.2] at h
    rw [← he.1, ← Option.some.inj h]
    exact hc
  · rw [paint_outside _ _ _ hout] at h
    cases h

/-- A key with a cell carries something. -/
theorem lastOf_of_mem {cells : List (κ × β)} {k : κ} {v : β} (h : (k, v) ∈ cells) :
    ∃ w, lastOf cells k = some w := by
  unfold lastOf
  rcases paint_mem (fun _ => none) (cells.map fun c => (c.1, some c.2)) k with
    ⟨w, hw, hp⟩ | hout
  · obtain ⟨c, -, he⟩ := List.mem_map.1 hw
    simp only [Prod.mk.injEq] at he
    exact ⟨c.2, by rw [hp, he.2]⟩
  · exact absurd (List.mem_map.2 ⟨(k, v), h, rfl⟩) (hout (some v))

/-- Consistent cells: what a key carries is what its last cell carries. -/
theorem lastOf_eq_some_iff {cells : List (κ × β)} (hc : Consistent cells) {k : κ} {v : β} :
    lastOf cells k = some v ↔ (k, v) ∈ cells := by
  refine ⟨mem_of_lastOf, fun h => ?_⟩
  have hsome : Consistent (cells.map fun c => (c.1, some c.2)) := by
    intro k v w hv hw
    obtain ⟨c, hcm, he⟩ := List.mem_map.1 hv
    obtain ⟨d, hdm, hf⟩ := List.mem_map.1 hw
    simp only [Prod.mk.injEq] at he hf
    rw [← he.2, ← hf.2, hc k c.2 d.2 (he.1 ▸ hcm) (hf.1 ▸ hdm)]
  exact paint_inside hsome (List.mem_map.2 ⟨(k, v), h, rfl⟩) _

theorem paint_eq_lastOf (m : κ → β) (cells : List (κ × β)) (k : κ) :
    paint m cells k = (lastOf cells k).getD (m k) := by
  unfold lastOf
  induction cells using List.reverseRecOn with
  | nil => rfl
  | append_singleton cells c ih =>
    rw [List.map_append, paint_append, paint_append]
    by_cases hk : k = c.1
    · subst hk
      simp [paint]
    · have h1 : paint (paint m cells) [c] k = paint m cells k := Function.update_of_ne hk _ _
      rw [h1, ih]
      congr 1
      exact (Function.update_of_ne hk _ _).symm

end PsxRecomp.Cells
