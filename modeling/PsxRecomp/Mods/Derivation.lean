import PsxRecomp.Mods.Selections

/-! What one requirement can change. A derived selection differs from the one before it by features
turned on and by option values that a constraint of an enabled feature asks for; the recursion
over the constraints of a package ends because no feature is visited inside itself. -/
namespace PsxRecomp.Mods
open Saturate
set_option autoImplicit false

/-! ## One feature changed -/

def featureOf (selection : ModSelection) (id : String) : ModFeatureSelection :=
  (selection.features id).getD blankFeature

section Modify

variable {selection : ModSelection} {id : String} {f : ModFeatureSelection → ModFeatureSelection}

@[simp] theorem modifyFeature_features_self :
    (selection.modifyFeature id f).features id = some (f (featureOf selection id)) :=
  Function.update_self id _ _

@[simp] theorem modifyFeature_features_ne {other : String} (h : other ≠ id) :
    (selection.modifyFeature id f).features other = selection.features other :=
  Function.update_of_ne h _ _

@[simp] theorem featureOf_modify_self :
    featureOf (selection.modifyFeature id f) id = f (featureOf selection id) := by
  unfold featureOf
  rw [modifyFeature_features_self]
  rfl

@[simp] theorem featureOf_modify_ne {other : String} (h : other ≠ id) :
    featureOf (selection.modifyFeature id f) other = featureOf selection other := by
  unfold featureOf
  rw [modifyFeature_features_ne h]

end Modify

/-! ## Derived selections -/

/-- A feature of the package, not a legacy one, is selected as enabled. -/
def FeatureOn (package : ModPackage) (selection : ModSelection) (id : String) : Prop :=
  ∃ feature f, findFeature package id = some feature ∧ feature.legacy = false ∧
    selection.features id = some f ∧ f.enabled = true ∧ f.hasEnabled = true

/-- A constraint of a feature that is on asks for this value of an option of another. -/
structure Forces (package : ModPackage) (selection : ModSelection) (c : ModConstraint)
    (id option : String) (value : Option String) : Prop where
  mem : c ∈ package.constraints
  kind : c.kind = .requiresFeature
  owner : FeatureOn package selection c.featureId
  required : c.requiredFeatureId = id
  named : c.requiredOptionId = option ∧ option ≠ ""
  value : value = some c.requiredValue

/-- `b` is `a` with features of the package turned on, and option values forced. -/
structure Derived (package : ModPackage) (a b : ModSelection) : Prop where
  enabled : b.enabled = a.enabled
  version : b.version = a.version
  values : b.values = a.values
  features : ∀ id, b.features id = a.features id ∨ FeatureOn package b id
  resources : ∀ id, (featureOf b id).resources = (featureOf a id).resources
  options : ∀ id option, (featureOf b id).values option = (featureOf a id).values option ∨
    ∃ c, Forces package b c id option ((featureOf b id).values option)

variable {package : ModPackage} {a b c : ModSelection} {id : String}

theorem FeatureOn.mono (h : FeatureOn package a id) (hab : Derived package a b) :
    FeatureOn package b id := by
  rcases hab.features id with he | hon
  · obtain ⟨feature, f, hfound, hlegacy, hf, hon⟩ := h
    exact ⟨feature, f, hfound, hlegacy, he.trans hf, hon⟩
  · exact hon

theorem Derived.refl (package : ModPackage) (a : ModSelection) : Derived package a a where
  enabled := rfl
  version := rfl
  values := rfl
  features _ := .inl rfl
  resources _ := rfl
  options _ _ := .inl rfl

theorem Derived.trans (hab : Derived package a b) (hbc : Derived package b c) :
    Derived package a c where
  enabled := hbc.enabled.trans hab.enabled
  version := hbc.version.trans hab.version
  values := hbc.values.trans hab.values
  features id := by
    rcases hbc.features id with he | hon
    · rcases hab.features id with he' | hon
      · exact .inl (he.trans he')
      · exact .inr (hon.mono hbc)
    · exact .inr hon
  resources id := (hbc.resources id).trans (hab.resources id)
  options id option := by
    rcases hbc.options id option with he | hforced
    · rcases hab.options id option with he' | ⟨k, hk⟩
      · exact .inl (he.trans he')
      · exact .inr ⟨k, { hk with owner := hk.owner.mono hbc, value := he.trans hk.value }⟩
    · exact .inr hforced

/-! ## The two assignments -/

theorem featureOn_set {feature : ModFeature} (hfound : findFeature package id = some feature)
    (hlegacy : feature.legacy = false) :
    FeatureOn package (setFeatureSelected a id true) id :=
  ⟨feature, _, hfound, hlegacy, modifyFeature_features_self, rfl, rfl⟩

theorem derived_set {feature : ModFeature} (hfound : findFeature package id = some feature)
    (hlegacy : feature.legacy = false) : Derived package a (setFeatureSelected a id true) where
  enabled := rfl
  version := rfl
  values := rfl
  features other := by
    by_cases h : other = id
    · rw [h]
      exact .inr (featureOn_set hfound hlegacy)
    · exact .inl (modifyFeature_features_ne h)
  resources other := by
    unfold setFeatureSelected
    by_cases h : other = id
    · rw [h, featureOf_modify_self]
    · rw [featureOf_modify_ne h]
  options other option := by
    unfold setFeatureSelected
    by_cases h : other = id
    · rw [h, featureOf_modify_self]
      exact .inl rfl
    · rw [featureOf_modify_ne h]
      exact .inl rfl

theorem forceOption_features {k : ModConstraint} (hon : FeatureOn package a k.requiredFeatureId)
    (other : String) : (forceOption k a).features other = a.features other ∨
      FeatureOn package (forceOption k a) other := by
  unfold forceOption
  split
  · exact .inl rfl
  · by_cases h : other = k.requiredFeatureId
    · obtain ⟨feature, f, hfound, hlegacy, hf, hen, hhas⟩ := hon
      have hof : featureOf a k.requiredFeatureId = f := by
        unfold featureOf
        rw [hf]
        rfl
      rw [h]
      exact .inr ⟨feature, _, hfound, hlegacy, modifyFeature_features_self, hof ▸ hen, hof ▸ hhas⟩
    · exact .inl (modifyFeature_features_ne h)

theorem forceOption_on {k : ModConstraint} (hon : FeatureOn package a k.requiredFeatureId)
    (h : FeatureOn package a id) : FeatureOn package (forceOption k a) id := by
  rcases forceOption_features hon id with he | hon'
  · obtain ⟨feature, f, hfound, hlegacy, hf, hset⟩ := h
    exact ⟨feature, f, hfound, hlegacy, he.trans hf, hset⟩
  · exact hon'

theorem derived_force {k : ModConstraint} (hmem : k ∈ package.constraints)
    (hkind : k.kind = .requiresFeature) (howner : FeatureOn package a k.featureId)
    (hon : FeatureOn package a k.requiredFeatureId) : Derived package a (forceOption k a) where
  enabled := by unfold forceOption; split <;> rfl
  version := by unfold forceOption; split <;> rfl
  values := by unfold forceOption; split <;> rfl
  features other := forceOption_features hon other
  resources other := by
    unfold forceOption
    split
    · rfl
    · by_cases h : other = k.requiredFeatureId
      · rw [h, featureOf_modify_self]
      · rw [featureOf_modify_ne h]
  options other option := by
    have howner' := forceOption_on hon howner
    unfold forceOption at howner' ⊢
    split
    · exact .inl rfl
    · rename_i hnamed
      rw [if_neg hnamed] at howner'
      by_cases h : other = k.requiredFeatureId
      · subst h
        rw [featureOf_modify_self]
        by_cases ho : option = k.requiredOptionId
        · subst ho
          exact .inr ⟨k, hmem, hkind, howner', rfl, ⟨rfl, hnamed⟩, Function.update_self _ _ _⟩
        · exact .inl (Function.update_of_ne ho _ _)
      · rw [featureOf_modify_ne h]
        exact .inl rfl

/-! ## The recursion over the constraints -/

/-- Not an error, or a selection derived from `a`. -/
def ResultDerived (package : ModPackage) (a : ModSelection) : Except String ModSelection → Prop
  | .error _ => True
  | .ok b => Derived package a b

/-- One turn of the loop, given what the recursive call does. -/
theorem applyConstraint_derived {featureId : String}
    {recurse : ModSelection → String → Option (Except String ModSelection)}
    (hrec : ∀ s id r, FeatureOn package s id → recurse s id = some r → ResultDerived package s r)
    {k : ModConstraint} (hk : k ∈ package.constraints) (hon : FeatureOn package a featureId)
    {r r' : Except String ModSelection} (hr : ResultDerived package a r)
    (h : applyConstraint package featureId recurse r k = some r') :
    ResultDerived package a r' := by
  unfold applyConstraint at h
  match r, hr, h with
  | .error e, _, h =>
    obtain rfl := Option.some.inj h
    trivial
  | .ok s, hs, h =>
    dsimp only at h
    split at h
    case isTrue =>
      obtain rfl := Option.some.inj h
      exact hs
    case isFalse hc =>
      push Not at hc
      obtain ⟨hkind, howner⟩ := hc
      split at h
      case h_1 =>
        obtain rfl := Option.some.inj h
        trivial
      case h_2 required hfound =>
        split at h
        case isTrue =>
          obtain rfl := Option.some.inj h
          trivial
        case isFalse hlegacy =>
          have hlegacy' : required.legacy = false := Bool.eq_false_iff.2 hlegacy
          have hset := derived_set (a := s) hfound hlegacy'
          have hreq := featureOn_set (a := s) hfound hlegacy'
          have howner' : FeatureOn package (setFeatureSelected s k.requiredFeatureId true)
              k.featureId := by
            rw [howner]
            exact (hon.mono hs).mono hset
          have hforce := derived_force hk hkind howner' hreq
          have hres := hrec _ _ _ (hreq.mono hforce) h
          match r', hres with
          | .error _, _ => trivial
          | .ok b, hb => exact hs.trans ((hset.trans hforce).trans hb)

theorem applyFeatureRequirements_derived {fuel : ℕ} {visiting : List String} {featureId : String}
    {r : Except String ModSelection} (hon : FeatureOn package a featureId)
    (h : applyFeatureRequirements package fuel visiting a featureId = some r) :
    ResultDerived package a r := by
  induction fuel generalizing visiting a featureId r with
  | zero => cases h
  | succ fuel ih =>
    unfold applyFeatureRequirements at h
    split at h
    · obtain rfl := Option.some.inj h
      exact Derived.refl package a
    · have hrec : ∀ s id r, FeatureOn package s id →
          applyFeatureRequirements package fuel (featureId :: visiting) s id = some r →
          ResultDerived package s r := fun s id r hs hr => ih hs hr
      have hstart : ResultDerived package a (.ok a) := Derived.refl package a
      exact foldlM_inv (fun k hk r r' hr hr' => applyConstraint_derived hrec hk hon hr hr')
        hstart h

/-! ## Its depth -/

/-- The features a chain of requirements can go through behind its first. -/
def requiredIds (package : ModPackage) : List String :=
  package.constraints.map ModConstraint.requiredFeatureId

theorem applyConstraint_total {featureId : String}
    {recurse : ModSelection → String → Option (Except String ModSelection)}
    (hrec : ∀ s, ∀ id ∈ requiredIds package, ∃ r, recurse s id = some r)
    {k : ModConstraint} (hk : k ∈ package.constraints) (r : Except String ModSelection) :
    ∃ r', applyConstraint package featureId recurse r k = some r' := by
  unfold applyConstraint
  match r with
  | .error e => exact ⟨_, rfl⟩
  | .ok s =>
    dsimp only
    split
    · exact ⟨_, rfl⟩
    · split
      · exact ⟨_, rfl⟩
      · split
        · exact ⟨_, rfl⟩
        · exact hrec _ _ (List.mem_map_of_mem hk)

/-- The features being visited are apart from each other, and all but the first are required by
some constraint, so there are fewer than `depth` of them. -/
theorem applyFeatureRequirements_total {fuel : ℕ} {root : String} {visiting : List String}
    {selection : ModSelection} {featureId : String}
    (hnodup : visiting.Nodup) (hsub : visiting ⊆ root :: requiredIds package)
    (hid : featureId ∈ root :: requiredIds package)
    (hfuel : package.depth ≤ fuel + visiting.length) :
    ∃ r, applyFeatureRequirements package fuel visiting selection featureId = some r := by
  have hlength : ∀ {ids : List String}, ids.Nodup → ids ⊆ root :: requiredIds package →
      ids.length + 1 ≤ package.depth := by
    intro ids hids hids'
    have hle := (List.subperm_of_subset hids hids').length_le
    unfold requiredIds at hle
    rw [List.length_cons, List.length_map] at hle
    unfold ModPackage.depth
    omega
  induction fuel generalizing visiting selection featureId with
  | zero =>
    have hle := hlength hnodup hsub
    omega
  | succ fuel ih =>
    unfold applyFeatureRequirements
    split
    · exact ⟨_, rfl⟩
    · rename_i hnew
      have hnodup' : (featureId :: visiting).Nodup := List.nodup_cons.2 ⟨hnew, hnodup⟩
      have hsub' : featureId :: visiting ⊆ root :: requiredIds package :=
        List.cons_subset.2 ⟨hid, hsub⟩
      have hrec : ∀ s, ∀ id ∈ requiredIds package, ∃ r,
          applyFeatureRequirements package fuel (featureId :: visiting) s id = some r := by
        intro s id hid'
        refine ih hnodup' hsub' (List.mem_cons_of_mem root hid') ?_
        rw [List.length_cons]
        omega
      have htotal : ∀ k ∈ package.constraints, ∀ r, True → ∃ r', applyConstraint package featureId
          (applyFeatureRequirements package fuel (featureId :: visiting)) r k = some r' ∧ True :=
        fun k hk r _ => (applyConstraint_total hrec hk r).imp fun _ h => ⟨h, trivial⟩
      obtain ⟨r, hr, _⟩ := foldlM_total htotal (s := Except.ok selection) trivial
      exact ⟨r, hr⟩

/-! ## What a derived selection keeps -/

theorem findFeatureSelection_cases (target : ModPackage) (id : String) :
    (∀ s, findFeatureSelection target s id = none) ∨
      ∀ s, findFeatureSelection target s id = s.features id := by
  unfold findFeatureSelection
  cases findFeature target id with
  | none => exact .inl fun _ => rfl
  | some feature =>
    dsimp only
    cases feature.legacy with
    | true => exact .inl fun _ => rfl
    | false => exact .inr fun _ => rfl

theorem isFeatureEnabled_mono (hab : Derived package a b) {target : ModPackage}
    {feature : ModFeature} (h : isFeatureEnabled target a feature = true) :
    isFeatureEnabled target b feature = true := by
  unfold isFeatureEnabled at h ⊢
  cases hlegacy : feature.legacy with
  | true =>
    rw [hlegacy] at h
    exact hab.enabled.trans h
  | false =>
    rw [hlegacy] at h
    rcases findFeatureSelection_cases target feature.id with hnone | hsome
    · rw [hnone] at h ⊢
      exact h
    · rw [hsome] at h ⊢
      rcases hab.features feature.id with he | ⟨_, f, _, _, hf, hen, hhas⟩
      · rw [he]
        exact h
      · rw [hf]
        dsimp only
        rw [if_pos hhas]
        exact hen

theorem findFeature_id {feature : ModFeature} (h : findFeature package id = some feature) :
    feature.id = id := by
  unfold findFeature at h
  have hid := List.find?_some h
  exact of_decide_eq_true hid

theorem isFeatureEnabled_on {feature : ModFeature} (hfound : findFeature package id = some feature)
    (hon : FeatureOn package a id) : isFeatureEnabled package a feature = true := by
  obtain ⟨own, f, hown, hlegacy, hf, hen, hhas⟩ := hon
  obtain rfl := Option.some.inj (hown.symm.trans hfound)
  have hid := findFeature_id hfound
  have hsel : findFeatureSelection package a own.id = some f := by
    unfold findFeatureSelection
    rw [hid, hfound]
    dsimp only
    rw [hlegacy]
    exact hf
  unfold isFeatureEnabled
  rw [hlegacy, hsel]
  dsimp only
  rw [if_pos hhas]
  exact hen

theorem findSelected_congr {catalog : Catalog} (h : a.version = b.version) :
    findSelected catalog id a = findSelected catalog id b := by
  unfold findSelected
  rw [h]

end PsxRecomp.Mods
