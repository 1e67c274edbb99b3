import Mathlib

/-! A log of copied regions, which may overlap and may be taken of cells already changed. Given back
from the newest to the oldest, the copies undo every write that stayed inside a region of the log. -/
namespace PsxRecomp.RegionLog
set_option autoImplicit false

variable {ι β : Type*}

/-- A set of cells and what they held. -/
structure Copy (ι β : Type*) where
  region : ι → Bool
  content : ι → β

def Copy.giveBack (c : Copy ι β) (m : ι → β) : ι → β := fun i => if c.region i then c.content i else m i

/-- The log stands with its newest copy in front. -/
def restore (log : List (Copy ι β)) (m : ι → β) : ι → β := log.foldl (fun m c => c.giveBack m) m

@[simp] theorem restore_nil (m : ι → β) : restore [] m = m := rfl

@[simp] theorem restore_cons (c : Copy ι β) (log : List (Copy ι β)) (m : ι → β) :
    restore (c :: log) m = restore log (c.giveBack m) := rfl

/-- Only the cells that no copy holds matter. -/
theorem restore_congr {log : List (Copy ι β)} {m m' : ι → β} {i : ι}
    (h : (∀ c ∈ log, c.region i = false) → m' i = m i) : restore log m' i = restore log m i := by
  induction log generalizing m m' with
  | nil => exact h (by simp)
  | cons c log ih =>
    apply ih
    intro hlog
    simp only [Copy.giveBack]
    cases hc : c.region i with
    | true => simp
    | false => simpa using h (by simpa [hc] using hlog)

/-- A copy of the cells as they are may join the log at any time. -/
theorem restore_copy {c : Copy ι β} {log : List (Copy ι β)} {m : ι → β} {i : ι}
    (h : c.region i → c.content i = m i) : restore (c :: log) m i = restore log m i := by
  rw [restore_cons]
  apply restore_congr
  intro _
  cases hc : c.region i <;> simp_all [Copy.giveBack]

end PsxRecomp.RegionLog
