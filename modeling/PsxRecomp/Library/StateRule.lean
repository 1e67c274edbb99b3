import Mathlib

/-! What a stateful computation keeps: the rules by which a property of the state passes through
its parts. -/
namespace PsxRecomp.StateRule
set_option autoImplicit false

variable {σ α β : Type} {P : σ → Prop}

/-- From a state with the property the computation ends in one. -/
def Keeps (P : σ → Prop) (x : StateM σ α) : Prop := ∀ s, P s → P (x s).2

theorem keeps_pure (a : α) : Keeps P (pure a : StateM σ α) := fun _ h => h

theorem keeps_get : Keeps P (get : StateM σ σ) := fun _ h => h

theorem keeps_modify {f : σ → σ} (h : ∀ s, P s → P (f s)) : Keeps P (modify f : StateM σ PUnit) := h

theorem Keeps.bind {x : StateM σ α} {f : α → StateM σ β} (hx : Keeps P x)
    (hf : ∀ a, Keeps P (f a)) : Keeps P (x >>= f) := fun s h => hf (x s).1 (x s).2 (hx s h)

theorem keeps_ite {c : Prop} [Decidable c] {x y : StateM σ α} (hx : Keeps P x) (hy : Keeps P y) :
    Keeps P (if c then x else y) := by
  split
  · exact hx
  · exact hy

end PsxRecomp.StateRule
