import Mathlib

/-! Recorded runs: a program reads and writes cells, a recorder hears some of its accesses, and a run
whose reads the recorder knows is repeated by putting down what it wrote. -/
namespace PsxRecomp.Recording
set_option autoImplicit false

variable {α ι β ρ σ : Type}

/-- What a program does next from a state of its own. -/
inductive Action (α ι β ρ σ : Type)
  | done (r : ρ)
  | load (a : α) (k : List β → σ)
  | store (a : α) (v : ι → β) (s : σ)

/-- An access, without the values. -/
inductive Use (α : Type)
  | load (a : α)
  | store (a : α)

section Runs

variable [DecidableEq ι] (cells : α → List ι) (next : σ → Action α ι β ρ σ)

/-- The values of `v` in the cells of an access. -/
def put (a : α) (v m : ι → β) : ι → β := fun i => if i ∈ cells a then v i else m i

/-- A run to the end, with its accesses in order. -/
inductive Runs : σ → (ι → β) → List (Use α) → ρ → (ι → β) → Prop
  | done (s : σ) (m : ι → β) (r : ρ) (h : next s = .done r) : Runs s m [] r m
  | load (s : σ) (m : ι → β) (a : α) (k : List β → σ) (tr : List (Use α)) (r : ρ) (m' : ι → β)
      (h : next s = .load a k) (hr : Runs (k ((cells a).map m)) m tr r m') :
      Runs s m (.load a :: tr) r m'
  | store (s : σ) (m : ι → β) (a : α) (v : ι → β) (s' : σ) (tr : List (Use α)) (r : ρ)
      (m' : ι → β) (h : next s = .store a v s') (hr : Runs s' (put cells a v m) tr r m') :
      Runs s m (.store a :: tr) r m'

variable {cells next}

theorem Runs.unique {s : σ} {m : ι → β} {tr tr' : List (Use α)} {r r' : ρ} {m' m'' : ι → β}
    (h : Runs cells next s m tr r m') (h' : Runs cells next s m tr' r' m'') :
    r' = r ∧ m'' = m' := by
  induction h generalizing tr' with
  | done s m r he =>
    cases h' with
    | done _ _ r' he' =>
      rw [he] at he'
      cases he'
      exact ⟨rfl, rfl⟩
    | load _ _ _ _ _ _ _ he' => rw [he] at he'; cases he'
    | store _ _ _ _ _ _ _ _ he' => rw [he] at he'; cases he'
  | load s m a k tr r m' he _ ih =>
    cases h' with
    | done _ _ _ he' => rw [he] at he'; cases he'
    | load _ _ _ _ _ _ _ he' hr' =>
      rw [he] at he'
      cases he'
      exact ih hr'
    | store _ _ _ _ _ _ _ _ he' => rw [he] at he'; cases he'
  | store s m a v s' tr r m' he _ ih =>
    cases h' with
    | done _ _ _ he' => rw [he] at he'; cases he'
    | load _ _ _ _ _ _ _ he' => rw [he] at he'; cases he'
    | store _ _ _ _ _ _ _ _ he' hr' =>
      rw [he] at he'
      cases he'
      exact ih hr'

end Runs

/-! ## Marks -/

/-- The cells a recorder knows: read before they were written, and written. -/
structure Marks (ι : Type) where
  read : Set ι
  written : Set ι

section Marks

variable (cells : α → List ι) (heard : α → Prop)

/-- One access that the recorder may hear. -/
def Marks.note (k : Marks ι) : Use α → Marks ι
  | .load a => { k with read := {i | i ∈ k.read ∨ heard a ∧ i ∈ cells a ∧ i ∉ k.written} }
  | .store a => { k with written := {i | i ∈ k.written ∨ heard a ∧ i ∈ cells a} }

def Marks.after (k : Marks ι) (tr : List (Use α)) : Marks ι := tr.foldl (Marks.note cells heard) k

/-- An access that is not heard stays within what is known already. -/
def Covered : Marks ι → List (Use α) → Prop
  | _, [] => True
  | k, .load a :: tr =>
    (heard a ∨ ∀ i ∈ cells a, i ∈ k.read ∨ i ∈ k.written) ∧ Covered (k.note cells heard (.load a)) tr
  | k, .store a :: tr =>
    (heard a ∨ ∀ i ∈ cells a, i ∈ k.written) ∧ Covered (k.note cells heard (.store a)) tr

variable {cells heard}

theorem Marks.note_mono (k : Marks ι) (u : Use α) :
    k.read ⊆ (k.note cells heard u).read ∧ k.written ⊆ (k.note cells heard u).written := by
  cases u with
  | load a => exact ⟨fun _ h => Or.inl h, fun _ h => h⟩
  | store a => exact ⟨fun _ h => h, fun _ h => Or.inl h⟩

theorem Marks.after_mono (k : Marks ι) (tr : List (Use α)) :
    k.read ⊆ (k.after cells heard tr).read ∧ k.written ⊆ (k.after cells heard tr).written := by
  induction tr generalizing k with
  | nil => exact ⟨fun _ h => h, fun _ h => h⟩
  | cons u tr ih =>
    have hnote : k.read ⊆ (k.note cells heard u).read ∧ k.written ⊆ (k.note cells heard u).written :=
      k.note_mono u
    obtain ⟨hr, hw⟩ := hnote
    obtain ⟨hr', hw'⟩ := ih (k.note cells heard u)
    exact ⟨hr.trans hr', hw.trans hw'⟩

variable [DecidableEq ι] {next : σ → Action α ι β ρ σ}

/-- From a memory that agrees on what the recorder came to know, the run goes the same way: it ends
with the same result, the written cells as they were, and all others untouched. -/
theorem Runs.repeated {s : σ} {m : ι → β} {tr : List (Use α)} {r : ρ} {m' : ι → β}
    (h : Runs cells next s m tr r m') {k : Marks ι} (hc : Covered cells heard k tr) (n : ι → β)
    (hread : ∀ i ∈ (k.after cells heard tr).read, i ∉ k.written → n i = m i)
    (hwritten : ∀ i ∈ k.written, n i = m i) :
    ∃ n', Runs cells next s n tr r n' ∧
      (∀ i ∈ (k.after cells heard tr).written, n' i = m' i) ∧
      ∀ i, i ∉ (k.after cells heard tr).written → n' i = n i := by
  induction h generalizing k n with
  | done s m r he => exact ⟨n, .done s n r he, hwritten, fun _ _ => rfl⟩
  | load s m a f tr r m' he _ ih =>
    have hsame : (cells a).map n = (cells a).map m := by
      refine List.map_congr_left fun i hi => ?_
      by_cases hw : i ∈ k.written
      · exact hwritten i hw
      · refine hread i ((Marks.after_mono _ tr).1 ?_) hw
        rcases hc.1 with hh | hk
        · exact Or.inr ⟨hh, hi, hw⟩
        · exact Or.inl ((hk i hi).resolve_right hw)
    obtain ⟨n', hrun, hin, hout⟩ := ih hc.2 n hread hwritten
    exact ⟨n', .load s n a f tr r n' he (hsame ▸ hrun), hin, hout⟩
  | store s m a v s' tr r m' he _ ih =>
    have hput : ∀ i, (i ∈ cells a ∨ n i = m i) → put cells a v n i = put cells a v m i := by
      intro i hi
      unfold put
      split
      · rfl
      · rename_i hmem
        exact hi.resolve_left hmem
    obtain ⟨n', hrun, hin, hout⟩ := ih hc.2 (put cells a v n)
      (fun i hi hw => hput i (Or.inr (hread i hi fun h => hw (Or.inl h))))
      (fun i hi => hput i (by
        rcases hi with hi | ⟨-, hi⟩
        · exact Or.inr (hwritten i hi)
        · exact Or.inl hi))
    refine ⟨n', .store s n a v s' tr r n' he hrun, hin, fun i hi => ?_⟩
    rw [hout i hi, put, if_neg]
    intro hmem
    have hw : i ∈ (k.note cells heard (.store a)).written := by
      rcases hc.1 with hh | hk
      · exact Or.inr ⟨hh, hmem⟩
      · exact Or.inl (hk i hmem)
    exact hi ((Marks.after_mono _ tr).2 hw)

end Marks

end PsxRecomp.Recording
