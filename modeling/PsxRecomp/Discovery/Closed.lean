import PsxRecomp.Discovery.Flow

/-! Whether a discovery covers what direct control flow reaches. -/
namespace PsxRecomp.Discovery
open R3000 Worklist WordSet
set_option autoImplicit false

section Rounds
variable {rom : Rom} {model : BiosAddressModel} {seeds : List Word}

/-! ## Sets of entries -/

/-- A cap that the walk of an entry was given: the end of the ROM or a later entry. -/
def CapOver (known : Finset Word) (entry cap : Word) : Prop :=
  cap = romEnd + 1 ∨ cap ∈ known ∧ entry < cap

/-- The cap of the last walk: that of the next entry. -/
structure NextEntry (known : Finset Word) (entry cap : Word) : Prop where
  isCap : CapOver known entry cap
  least : ∀ x ∈ known, entry < x → cap ≤ x

/-- The entry was walked up to some cap, and what it calls in the ROM is known. -/
def Explored (rom : Rom) (model : BiosAddressModel) (known : Finset Word) (entry : Word) : Prop :=
  ∃ cap w, CapOver known entry cap ∧ walkFunction rom model entry cap = .ok w ∧
    ∀ c ∈ w.callees, inRom c = true → c ∈ known

/-- How an entry is found: it is a seed, or a walk of another one calls it or escapes to it. -/
inductive Found (rom : Rom) (model : BiosAddressModel) (seeds : List Word) (known : Finset Word) : Word → Prop
  | seed {s : Word} (h : s ∈ seeds) (hin : inRom s = true) : Found rom model seeds known s
  | walked {e cap c : Word} {w : Walked} (h : Found rom model seeds known e) (hcap : CapOver known e cap)
      (hwalk : walkFunction rom model e cap = .ok w) (hc : c ∈ w.callees ∨ c ∈ w.escapingTargets)
      (hin : inRom c = true) : Found rom model seeds known c

variable {known : Finset Word} {entry cap cap' : Word} {w w' : Walked}

theorem CapOver.mono {known' : Finset Word} (hsub : known ⊆ known') (h : CapOver known entry cap) :
    CapOver known' entry cap := h.imp id fun h => ⟨hsub h.1, h.2⟩

theorem Explored.mono {known' : Finset Word} (hsub : known ⊆ known')
    (h : Explored rom model known entry) : Explored rom model known' entry := by
  obtain ⟨cap, w, hcap, hw, hcallees⟩ := h
  exact ⟨cap, w, hcap.mono hsub, hw, fun c hc hin => hsub (hcallees c hc hin)⟩

theorem Found.mono {known' : Finset Word} (hsub : known ⊆ known')
    (h : Found rom model seeds known entry) : Found rom model seeds known' entry := by
  induction h with
  | seed h hin => exact .seed h hin
  | walked _ hcap hwalk hc hin ih => exact .walked ih (hcap.mono hsub) hwalk hc hin

theorem Found.inRom (h : Found rom model seeds known entry) : Discovery.inRom entry = true := by
  cases h with
  | seed _ hin => exact hin
  | walked _ _ _ _ hin => exact hin

theorem NextEntry.above {known : Finset Word} {e cap : Word} (hcap : NextEntry known e cap)
    (he : inRom e = true) : inBounds e cap e = true := by
  rw [inRom_iff] at he
  rw [inBounds_iff]
  rcases hcap.isCap with rfl | ⟨-, hlt⟩
  · have hend : (romEnd + 1).toNat = 0xBFC80000 := rfl
    omega
  · rw [BitVec.lt_def] at hlt
    omega

/-- What lies in the ROM behind a walk's last address is behind an entry. -/
theorem NextEntry.beyond {known : Finset Word} {e cap a b : Word} (hcap : NextEntry known e cap)
    (ha : inBounds e cap a = true) (hb : inRom b = true) (hlt : a.toNat < b.toNat)
    (hout : inBounds e cap b = false) : cap ∈ known ∧ cap.toNat ≤ b.toNat ∧ a.toNat < cap.toNat := by
  rw [inBounds_iff] at ha
  rw [inRom_iff] at hb
  have hle : cap.toNat ≤ b.toNat := by
    by_contra hno
    have hin : inBounds e cap b = true := by
      rw [inBounds_iff]
      omega
    rw [hin] at hout
    cases hout
  rcases hcap.isCap with rfl | ⟨hmem, -⟩
  · have hend : (romEnd + 1).toNat = 0xBFC80000 := rfl
    omega
  · exact ⟨hmem, hle, ha.2.2⟩

variable {known : Finset Word} {r : DiscoveryResult}

end Rounds

/-! ## Two images -/

end PsxRecomp.Discovery
