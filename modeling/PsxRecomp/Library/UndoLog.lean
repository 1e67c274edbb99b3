import Mathlib

/-! An undo log of pages: the copies that a writer leaves of pages it is about to write for the first
time, and the memory they give back. -/
namespace PsxRecomp.UndoLog
set_option autoImplicit false

variable {κ ι β : Type*} (page : ι → κ)

/-- A page and the memory it is to be taken from. -/
abbrev Copy (κ ι β : Type*) := κ × (ι → β)

def giveBack [DecidableEq κ] (c : Copy κ ι β) (m : ι → β) : ι → β := fun i => if page i = c.1 then c.2 i else m i

/-- The copies are given back from the newest, which stands in front, to the oldest. -/
def restore [DecidableEq κ] (log : List (Copy κ ι β)) (m : ι → β) : ι → β :=
  log.foldl (fun m c => giveBack page c m) m

def pages (log : List (Copy κ ι β)) : List κ := log.map Prod.fst

/-- The copies hold `m₀`, and what no copy holds is still as in `m₀`. -/
structure Backs (m₀ m : ι → β) (log : List (Copy κ ι β)) : Prop where
  copies : ∀ c ∈ log, ∀ i, page i = c.1 → c.2 i = m₀ i
  rest : ∀ i, page i ∉ pages log → m i = m₀ i

variable {page} {m₀ m m' : ι → β} {log : List (Copy κ ι β)}

theorem Backs.nil : Backs page m m [] := ⟨fun _ h => absurd h List.not_mem_nil, fun _ _ => rfl⟩

/-- A page without a copy may be copied as it is now. -/
theorem Backs.copy (h : Backs page m₀ m log) {c : Copy κ ι β} (hnew : c.1 ∉ pages log)
    (hc : ∀ i, page i = c.1 → c.2 i = m i) : Backs page m₀ m (c :: log) := by
  refine ⟨fun d hd i hi => ?_, fun i hi => h.rest i fun hmem => hi (List.mem_cons_of_mem _ hmem)⟩
  rcases List.mem_cons.1 hd with rfl | hd
  · rw [hc i hi]
    exact h.rest i (hi ▸ hnew)
  · exact h.copies d hd i hi

/-- Pages with a copy may be written. -/
theorem Backs.write (h : Backs page m₀ m log) (hm : ∀ i, page i ∉ pages log → m' i = m i) :
    Backs page m₀ m' log :=
  ⟨h.copies, fun i hi => (hm i hi).trans (h.rest i hi)⟩

theorem Backs.restore [DecidableEq κ] (h : Backs page m₀ m log) : restore page log m = m₀ := by
  induction log generalizing m with
  | nil => exact funext fun i => h.rest i List.not_mem_nil
  | cons c log ih =>
    refine ih ⟨fun d hd => h.copies d (List.mem_cons_of_mem c hd), fun i hi => ?_⟩
    by_cases hc : page i = c.1
    · exact (if_pos hc).trans (h.copies c List.mem_cons_self i hc)
    · exact (if_neg hc).trans (h.rest i fun hmem => (List.mem_cons.1 hmem).elim hc hi)

end PsxRecomp.UndoLog
