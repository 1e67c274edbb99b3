import Mathlib

/-! The closure of some elements under a successor relation, found with a stack. -/
namespace PsxRecomp.Saturation
set_option autoImplicit false

variable {α : Type} [DecidableEq α] [Fintype α]

theorem insert_smaller {a : α} {seen : Finset α} (h : a ∉ seen) :
    (Finset.univ \ insert a seen).card < (Finset.univ \ seen).card := by
  apply Finset.card_lt_card
  constructor
  · intro b hb
    simp only [Finset.mem_sdiff, Finset.mem_univ, true_and, Finset.mem_insert, not_or] at hb ⊢
    exact hb.2
  · intro hsub
    have hmem := hsub (Finset.mem_sdiff.mpr ⟨Finset.mem_univ a, h⟩)
    simp at hmem

/-- An element not seen before is taken in, and its successors go on the stack. -/
def saturate {α : Type} [DecidableEq α] [Fintype α] (next : α → List α) :
    List α → Finset α → Finset α
  | [], seen => seen
  | a :: work, seen =>
    if a ∈ seen then saturate next work seen else saturate next (next a ++ work) (insert a seen)
termination_by work seen => ((Finset.univ \ seen).card, work.length)
decreasing_by
  · exact Prod.Lex.right _ (Nat.lt_succ_self _)
  · exact Prod.Lex.left _ _ (insert_smaller ‹_›)

def Closed (next : α → List α) (s : Finset α) : Prop := ∀ a ∈ s, ∀ b ∈ next a, b ∈ s

/-- The successors of what has been seen are seen or on the stack; at the end the set is closed,
and no larger than any closed set around the start. -/
theorem saturate_spec (next : α → List α) (work : List α) (seen : Finset α)
    (hopen : ∀ a ∈ seen, ∀ b ∈ next a, b ∈ seen ∨ b ∈ work) :
    seen ⊆ saturate next work seen ∧ (∀ a ∈ work, a ∈ saturate next work seen) ∧
      Closed next (saturate next work seen) ∧
      ∀ s, Closed next s → seen ⊆ s → (∀ a ∈ work, a ∈ s) → saturate next work seen ⊆ s := by
  induction work, seen using saturate.induct next with
  | case1 seen =>
    rw [saturate]
    refine ⟨Finset.Subset.refl _, fun a h => absurd h List.not_mem_nil, fun a ha b hb => ?_,
      fun s _ hsub _ => hsub⟩
    rcases hopen a ha b hb with h | h
    · exact h
    · exact absurd h List.not_mem_nil
  | case2 a work seen hseen ih =>
    rw [saturate, if_pos hseen]
    obtain ⟨hsub, hwork, hclosed, hleast⟩ := ih fun c hc b hb => by
      rcases hopen c hc b hb with h | h
      · exact Or.inl h
      · rcases List.mem_cons.1 h with rfl | h
        · exact Or.inl hseen
        · exact Or.inr h
    refine ⟨hsub, fun b hb => ?_, hclosed, fun s hs hsub' hwork' =>
      hleast s hs hsub' fun b hb => hwork' b (List.mem_cons_of_mem _ hb)⟩
    rcases List.mem_cons.1 hb with rfl | hb
    · exact hsub hseen
    · exact hwork b hb
  | case3 a work seen hnew ih =>
    rw [saturate, if_neg hnew]
    obtain ⟨hsub, hwork, hclosed, hleast⟩ := ih fun c hc b hb => by
      rcases Finset.mem_insert.1 hc with rfl | hc
      · exact Or.inr (List.mem_append_left _ hb)
      · rcases hopen c hc b hb with h | h
        · exact Or.inl (Finset.mem_insert_of_mem h)
        · rcases List.mem_cons.1 h with rfl | h
          · exact Or.inl (Finset.mem_insert_self _ _)
          · exact Or.inr (List.mem_append_right _ h)
    refine ⟨fun b hb => hsub (Finset.mem_insert_of_mem hb), fun b hb => ?_, hclosed,
      fun s hs hsub' hwork' => ?_⟩
    · rcases List.mem_cons.1 hb with rfl | hb
      · exact hsub (Finset.mem_insert_self _ _)
      · exact hwork b (List.mem_append_right _ hb)
    · have ha := hwork' a List.mem_cons_self
      refine hleast s hs (fun b hb => ?_) fun b hb => ?_
      · rcases Finset.mem_insert.1 hb with rfl | hb
        · exact ha
        · exact hsub' hb
      · rcases List.mem_append.1 hb with hb | hb
        · exact hs a ha b hb
        · exact hwork' b (List.mem_cons_of_mem _ hb)

/-- From nothing seen the closure is the least closed set around the roots. -/
theorem saturate_isLeast (next : α → List α) (roots : List α) :
    IsLeast {s | (∀ a ∈ roots, a ∈ s) ∧ Closed next s} (saturate next roots ∅) := by
  obtain ⟨-, hroots, hclosed, hleast⟩ :=
    saturate_spec next roots ∅ fun a h => absurd h (Finset.notMem_empty a)
  exact ⟨⟨hroots, hclosed⟩, fun s hs => hleast s hs.2 (Finset.empty_subset _) hs.1⟩

end PsxRecomp.Saturation
