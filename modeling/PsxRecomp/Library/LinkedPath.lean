import Mathlib

/-! Paths of a partial successor function: the lists that start at a given element, follow the
successors, and stop where there is none. A path is determined by its start and by the
successors of its own elements. -/
namespace PsxRecomp.LinkedPath
set_option autoImplicit false

variable {α : Type*}

def IsPath (next : α → Option α) : α → List α → Prop
  | _, [] => False
  | a, b :: L => a = b ∧ match next b with
    | none => L = []
    | some c => IsPath next c L

section Basic
variable {next next' : α → Option α} {a : α} {L L' : List α}

theorem not_isPath_nil : ¬IsPath next a [] := id

theorem IsPath.ne_nil (h : IsPath next a L) : L ≠ [] := by
  rintro rfl
  exact not_isPath_nil h

theorem IsPath.head_eq {b : α} (h : IsPath next a (b :: L)) : a = b := h.1

theorem IsPath.start_mem (h : IsPath next a L) : a ∈ L := by
  cases L with
  | nil => exact absurd h not_isPath_nil
  | cons b L =>
    rw [h.head_eq]
    exact List.mem_cons_self

theorem isPath_end (hend : next a = none) : IsPath next a L ↔ L = [a] := by
  cases L with
  | nil => exact ⟨fun h => absurd h not_isPath_nil, fun h => nomatch h⟩
  | cons b L =>
    constructor
    · rintro ⟨rfl, hrest⟩
      rw [hend] at hrest
      rw [hrest]
    · intro h
      rw [List.cons.injEq] at h
      obtain ⟨rfl, rfl⟩ := h
      refine ⟨rfl, ?_⟩
      rw [hend]

theorem isPath_step {c : α} (hstep : next a = some c) :
    IsPath next a L ↔ ∃ rest, L = a :: rest ∧ IsPath next c rest := by
  cases L with
  | nil => exact ⟨fun h => absurd h not_isPath_nil, fun ⟨_, h, _⟩ => nomatch h⟩
  | cons b L =>
    constructor
    · rintro ⟨rfl, hrest⟩
      rw [hstep] at hrest
      exact ⟨L, rfl, hrest⟩
    · rintro ⟨rest, h, hrest⟩
      rw [List.cons.injEq] at h
      obtain ⟨rfl, rfl⟩ := h
      refine ⟨rfl, ?_⟩
      rw [hstep]
      exact hrest

/-- A path depends on the successors of its own elements only. -/
theorem IsPath.congr (h : IsPath next a L) (hsame : ∀ b ∈ L, next' b = next b) :
    IsPath next' a L := by
  induction L generalizing a with
  | nil => exact absurd h not_isPath_nil
  | cons b L ih =>
    obtain rfl := h.head_eq
    have hhere := hsame a List.mem_cons_self
    cases hnext : next a with
    | none =>
      rw [isPath_end hnext] at h
      rw [hnext] at hhere
      exact (isPath_end hhere).mpr h
    | some c =>
      obtain ⟨rest, hrest, hpath⟩ := (isPath_step hnext).mp h
      rw [List.cons.injEq] at hrest
      obtain ⟨-, rfl⟩ := hrest
      rw [hnext] at hhere
      refine (isPath_step hhere).mpr ⟨L, rfl, ih hpath fun b hb => ?_⟩
      exact hsame b (List.mem_cons_of_mem a hb)

/-- A list whose elements are linked each to the next one is a path. -/
theorem isPath_of_links (hhead : L.head? = some a)
    (hlinks : ∀ k (hk : k < L.length), next L[k] = L[k + 1]?) : IsPath next a L := by
  induction L generalizing a with
  | nil => simp at hhead
  | cons b L ih =>
    obtain rfl : b = a := by simpa using hhead
    have hfirst := hlinks 0 (Nat.succ_pos _)
    cases L with
    | nil => exact (isPath_end hfirst).mpr rfl
    | cons c L =>
      refine (isPath_step hfirst).mpr ⟨c :: L, rfl, ih rfl fun k hk => ?_⟩
      exact hlinks (k + 1) (Nat.succ_lt_succ hk)

end Basic

end PsxRecomp.LinkedPath
