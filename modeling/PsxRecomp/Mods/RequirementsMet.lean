import PsxRecomp.Mods.Derivation

/-! The loop of `effective_selections` over whole runs. Every step extends the selections and keeps
what it has settled; the last pass changes nothing, so a run without an error leaves every active
requirement met, but for those skipped under the key of another. -/
namespace PsxRecomp.Mods
open Saturate
set_option autoImplicit false

/-! ## Extended selections -/

/-- Each selection is the same, or derived under the selected version of its package. -/
def Extends (catalog : Catalog) (e e' : Selections) : Prop :=
  ∀ id, e' id = e id ∨ ∃ target, findSelected catalog id (selectionOf e id) = some target ∧
    Derived target (selectionOf e id) (selectionOf e' id)

variable {catalog : Catalog} {e e' e'' : Selections} {id : String} {package : ModPackage}
  {r : ModFeatureRequirement} {s t : Derivation}

theorem selectionOf_congr (h : e' id = e id) : selectionOf e' id = selectionOf e id := by
  unfold selectionOf
  rw [h]

theorem Extends.refl (catalog : Catalog) (e : Selections) : Extends catalog e e := fun _ => .inl rfl

theorem Extends.findSelected_eq (h : Extends catalog e e') (id : String) :
    findSelected catalog id (selectionOf e' id) = findSelected catalog id (selectionOf e id) := by
  rcases h id with he | ⟨_, _, hd⟩
  · rw [selectionOf_congr he]
  · exact findSelected_congr hd.version

theorem Extends.trans (h : Extends catalog e e') (h' : Extends catalog e' e'') :
    Extends catalog e e'' := by
  intro id
  rcases h' id with he' | ⟨target', htarget', hd'⟩
  · rcases h id with he | ⟨target, htarget, hd⟩
    · exact .inl (he'.trans he)
    · exact .inr ⟨target, htarget, selectionOf_congr he' ▸ hd⟩
  · rw [h.findSelected_eq] at htarget'
    rcases h id with he | ⟨target, htarget, hd⟩
    · exact .inr ⟨target', htarget', selectionOf_congr he ▸ hd'⟩
    · obtain rfl := Option.some.inj (htarget.symm.trans htarget')
      exact .inr ⟨target, htarget, hd.trans hd'⟩

theorem Extends.isFeatureEnabled (h : Extends catalog e e') {feature : ModFeature}
    (hen : isFeatureEnabled package (selectionOf e id) feature = true) :
    isFeatureEnabled package (selectionOf e' id) feature = true := by
  rcases h id with he | ⟨_, _, hd⟩
  · rw [selectionOf_congr he]
    exact hen
  · exact isFeatureEnabled_mono hd hen

theorem extends_update {target : ModPackage} {derived : ModSelection}
    (htarget : findSelected catalog id (selectionOf e id) = some target)
    (hd : Derived target (selectionOf e id) derived) :
    Extends catalog e (Function.update e id (some derived)) := by
  intro other
  by_cases h : other = id
  · subst h
    refine .inr ⟨target, htarget, ?_⟩
    unfold selectionOf at hd ⊢
    rw [Function.update_self]
    exact hd
  · exact .inl (Function.update_of_ne h _ _)

/-! ## One requirement -/

/-- The selected version of the required package has the required feature. -/
structure Provides (catalog : Catalog) (e : Selections) (packageId featureId : String)
    (target : ModPackage) (required : ModFeature) : Prop where
  selected : findSelected catalog packageId (selectionOf e packageId) = some target
  found : findFeature target featureId = some required
  plain : required.legacy = false

/-- What the loop has made sure of when it settles a key: nothing about versions. -/
def KeyMet (catalog : Catalog) (e : Selections) (key : RequirementKey) : Prop :=
  ∃ target required,
    Provides catalog e key.requiredPackageId key.requiredFeatureId target required ∧
    isFeatureEnabled target (selectionOf e key.requiredPackageId) required = true

theorem KeyMet.mono {key : RequirementKey} (h : Extends catalog e e')
    (hkey : KeyMet catalog e key) : KeyMet catalog e' key := by
  obtain ⟨target, required, hp, hen⟩ := hkey
  exact ⟨target, required, ⟨(h.findSelected_eq _).trans hp.selected, hp.found, hp.plain⟩,
    h.isFeatureEnabled hen⟩

def Derivation.settle (s : Derivation) (key : RequirementKey) : Derivation :=
  { s with settled := key :: s.settled }

/-- All that the body of the loop over requirements can do. -/
inductive Outcome (catalog : Catalog) (id : String) (package : ModPackage)
    (r : ModFeatureRequirement) (s : Derivation) : Derivation → Prop
  | idle : requirementActive package (selectionOf s.effective id) r = false →
      Outcome catalog id package r s s
  | skipped : requirementActive package (selectionOf s.effective id) r = true →
      r.key id ∈ s.settled → Outcome catalog id package r s s
  | failed (why : String) : requirementActive package (selectionOf s.effective id) r = true →
      r.key id ∉ s.settled → Outcome catalog id package r s ((s.settle (r.key id)).fail id r why)
  | covered (target : ModPackage) (required : ModFeature) :
      requirementActive package (selectionOf s.effective id) r = true → r.key id ∉ s.settled →
      Provides catalog s.effective r.packageId r.requiredFeatureId target required →
      versionSatisfies target.version r.version = true →
      isFeatureEnabled target (selectionOf s.effective r.packageId) required = true →
      Outcome catalog id package r s (s.settle (r.key id))
  | activated (target : ModPackage) (required : ModFeature) (derived : ModSelection) :
      requirementActive package (selectionOf s.effective id) r = true → r.key id ∉ s.settled →
      Provides catalog s.effective r.packageId r.requiredFeatureId target required →
      versionSatisfies target.version r.version = true →
      isFeatureEnabled target (selectionOf s.effective r.packageId) required = false →
      Derived target (selectionOf s.effective r.packageId) derived →
      FeatureOn target derived r.requiredFeatureId →
      Outcome catalog id package r s
        { s.settle (r.key id) with
          effective := Function.update s.effective r.packageId (some derived)
          implicit := s.implicit ++ [⟨r.packageId, required.id, id, r.featureId⟩]
          changed := true }

theorem activate_outcome {target : ModPackage} {required : ModFeature}
    (hactive : requirementActive package (selectionOf s.effective id) r = true)
    (hnew : r.key id ∉ s.settled)
    (hp : Provides catalog s.effective r.packageId r.requiredFeatureId target required)
    (hversion : versionSatisfies target.version r.version = true)
    (hoff : isFeatureEnabled target (selectionOf s.effective r.packageId) required = false)
    (h : activate id r target required (s.settle (r.key id)) = some t) :
    Outcome catalog id package r s t := by
  have hid := findFeature_id hp.found
  unfold activate at h
  obtain ⟨result, happly, rfl⟩ := Option.map_eq_some_iff.1 h
  rw [hid] at happly
  have hset := derived_set (a := selectionOf s.effective r.packageId) hp.found hp.plain
  have hon := featureOn_set (a := selectionOf s.effective r.packageId) hp.found hp.plain
  have hres := applyFeatureRequirements_derived hon happly
  match result, hres with
  | .error why, _ => exact .failed why hactive hnew
  | .ok derived, hd =>
    exact .activated target required derived hactive hnew hp hversion hoff (hset.trans hd)
      (hon.mono hd)

theorem evaluateRequirement_outcome
    (hactive : requirementActive package (selectionOf s.effective id) r = true)
    (hnew : r.key id ∉ s.settled)
    (h : evaluateRequirement catalog id r (s.settle (r.key id)) = some t) :
    Outcome catalog id package r s t := by
  unfold evaluateRequirement at h
  split at h
  case isTrue =>
    obtain rfl := Option.some.inj h
    exact .failed _ hactive hnew
  case isFalse =>
    split at h
    case h_1 =>
      obtain rfl := Option.some.inj h
      exact .failed _ hactive hnew
    case h_2 target htarget =>
      split at h
      case isTrue =>
        obtain rfl := Option.some.inj h
        exact .failed _ hactive hnew
      case isFalse hversion =>
        split at h
        case h_1 =>
          obtain rfl := Option.some.inj h
          exact .failed _ hactive hnew
        case h_2 required hfound =>
          obtain ⟨hfound, hplain⟩ := Option.filter_eq_some_iff.1 hfound
          have hp : Provides catalog s.effective r.packageId r.requiredFeatureId target required :=
            ⟨htarget, hfound, by simpa using hplain⟩
          have hversion' : versionSatisfies target.version r.version = true := by
            simpa using hversion
          split at h
          case isTrue hen =>
            obtain rfl := Option.some.inj h
            exact .covered target required hactive hnew hp hversion' hen
          case isFalse hoff =>
            exact activate_outcome hactive hnew hp hversion' (Bool.eq_false_iff.2 hoff) h

theorem requirementStep_outcome (h : requirementStep catalog id package s r = some t) :
    Outcome catalog id package r s t := by
  unfold requirementStep at h
  split at h
  case isTrue hidle =>
    obtain rfl := Option.some.inj h
    exact .idle (by simpa using hidle)
  case isFalse hactive =>
    have hactive' : requirementActive package (selectionOf s.effective id) r = true := by
      simpa using hactive
    split at h
    case isTrue hmem =>
      obtain rfl := Option.some.inj h
      exact .skipped hactive' hmem
    case isFalse hnew => exact evaluateRequirement_outcome hactive' hnew h

/-! ## What every step keeps -/

/-- The later state of a run within one pass. -/
structure Grows (catalog : Catalog) (s t : Derivation) : Prop where
  effective : Extends catalog s.effective t.effective
  settled : s.settled <:+ t.settled
  errors : s.errors <+: t.errors
  quiet : t.changed = false → s.changed = false ∧ t.effective = s.effective
  busy : t.changed = true → s.changed = true ∨ s.settled.length < t.settled.length

theorem Grows.refl (catalog : Catalog) (s : Derivation) : Grows catalog s s where
  effective := Extends.refl catalog s.effective
  settled := List.suffix_rfl
  errors := List.prefix_rfl
  quiet h := ⟨h, rfl⟩
  busy := .inl

theorem Grows.trans {u : Derivation} (h : Grows catalog s t) (h' : Grows catalog t u) :
    Grows catalog s u where
  effective := h.effective.trans h'.effective
  settled := h.settled.trans h'.settled
  errors := h.errors.trans h'.errors
  quiet hu := by
    obtain ⟨ht, he'⟩ := h'.quiet hu
    obtain ⟨hs, he⟩ := h.quiet ht
    exact ⟨hs, he'.trans he⟩
  busy hu := by
    have hle := h.settled.length_le
    have hle' := h'.settled.length_le
    rcases h'.busy hu with ht | hlt
    · rcases h.busy ht with hs | hlt
      · exact .inl hs
      · exact .inr (by omega)
    · exact .inr (by omega)

theorem Grows.errors_nil (h : Grows catalog s t) (ht : t.errors = []) : s.errors = [] :=
  List.prefix_nil.1 (ht ▸ h.errors)

/-- A settled key is one of the catalog's, and was met unless something is reported. -/
structure Settled (catalog : Catalog) (keys : List RequirementKey) (s : Derivation) : Prop where
  nodup : s.settled.Nodup
  known : s.settled ⊆ keys
  met : s.errors = [] → ∀ key ∈ s.settled, KeyMet catalog s.effective key

theorem Outcome.grows (h : Outcome catalog id package r s t) : Grows catalog s t := by
  cases h with
  | idle => exact Grows.refl catalog s
  | skipped => exact Grows.refl catalog s
  | failed why =>
    exact ⟨Extends.refl catalog s.effective, List.suffix_cons _ _, List.prefix_append _ _,
      fun h => ⟨h, rfl⟩, .inl⟩
  | covered =>
    exact ⟨Extends.refl catalog s.effective, List.suffix_cons _ _, List.prefix_rfl,
      fun h => ⟨h, rfl⟩, .inl⟩
  | activated target required derived _ _ hp _ _ hd =>
    refine ⟨extends_update hp.selected hd, List.suffix_cons _ _, List.prefix_rfl,
      fun h => (Bool.noConfusion h), fun _ => .inr ?_⟩
    exact Nat.lt_succ_self s.settled.length

theorem Outcome.settled {keys : List RequirementKey} (hkey : r.key id ∈ keys)
    (hs : Settled catalog keys s) (h : Outcome catalog id package r s t) :
    Settled catalog keys t := by
  have hcons : r.key id ∉ s.settled →
      (r.key id :: s.settled).Nodup ∧ r.key id :: s.settled ⊆ keys :=
    fun hnew => ⟨List.nodup_cons.2 ⟨hnew, hs.nodup⟩, List.cons_subset.2 ⟨hkey, hs.known⟩⟩
  cases h with
  | idle => exact hs
  | skipped => exact hs
  | failed why _ hnew =>
    exact ⟨(hcons hnew).1, (hcons hnew).2, fun h => absurd h (List.append_ne_nil_of_right_ne_nil _
      (List.cons_ne_nil _ _))⟩
  | covered target required _ hnew hp _ hen =>
    refine ⟨(hcons hnew).1, (hcons hnew).2, fun h => List.forall_mem_cons.2 ⟨?_, hs.met h⟩⟩
    exact ⟨target, required, hp, hen⟩
  | activated target required derived _ hnew hp _ _ hd hon =>
    have hext := extends_update hp.selected hd
    refine ⟨(hcons hnew).1, (hcons hnew).2, fun h => List.forall_mem_cons.2 ⟨?_, ?_⟩⟩
    · refine ⟨target, required, ⟨(hext.findSelected_eq _).trans hp.selected, hp.found, hp.plain⟩, ?_⟩
      have hsel : selectionOf (Function.update s.effective r.packageId (some derived))
          r.packageId = derived := by
        unfold selectionOf
        rw [Function.update_self]
        rfl
      show isFeatureEnabled target (selectionOf (Function.update s.effective r.packageId
        (some derived)) r.packageId) required = true
      rw [hsel]
      exact isFeatureEnabled_on hp.found hon
    · exact fun key hmem => (hs.met h key hmem).mono hext

theorem requirementStep_total (catalog : Catalog) (id : String) (package : ModPackage)
    (s : Derivation) (r : ModFeatureRequirement) :
    ∃ t, requirementStep catalog id package s r = some t := by
  have hactivate : ∀ target required s, ∃ t, activate id r target required s = some t := by
    intro target required s
    have htotal : ∃ result, applyFeatureRequirements target target.depth []
        (setFeatureSelected (selectionOf s.effective r.packageId) required.id true) required.id =
          some result :=
      applyFeatureRequirements_total List.nodup_nil (List.nil_subset _)
        (List.mem_cons_self (a := required.id)) (Nat.le_add_right _ _)
    obtain ⟨result, h⟩ := htotal
    unfold activate
    dsimp only
    rw [h]
    exact ⟨_, rfl⟩
  unfold requirementStep
  split
  · exact ⟨_, rfl⟩
  · split
    · exact ⟨_, rfl⟩
    · unfold evaluateRequirement
      split
      · exact ⟨_, rfl⟩
      · split
        · exact ⟨_, rfl⟩
        · split
          · exact ⟨_, rfl⟩
          · split
            · exact ⟨_, rfl⟩
            · split
              · exact ⟨_, rfl⟩
              · exact hactivate _ _ _

/-! ## One pass -/

/-- The keys of everything the packages of the catalog require. -/
def Catalog.keys (catalog : Catalog) : List RequirementKey :=
  catalog.packages.flatMap fun p =>
    (catalog.versions p.1).flatMap fun package => package.requirements.map (·.key p.1)

theorem mem_of_latest {best : Option ModPackage} {packages : List ModPackage}
    (h : latest best packages = some package) : package ∈ packages ∨ best = some package := by
  induction packages generalizing best with
  | nil =>
    unfold latest at h
    exact .inr h
  | cons p ps ih =>
    cases best with
    | none =>
      unfold latest at h
      rcases ih h with hmem | he
      · exact .inl (List.mem_cons_of_mem p hmem)
      · exact .inl (Option.some.inj he ▸ List.mem_cons_self)
    | some best =>
      unfold latest at h
      rcases ih h with hmem | he
      · exact .inl (List.mem_cons_of_mem p hmem)
      · split at he
        · exact .inl (Option.some.inj he ▸ List.mem_cons_self)
        · exact .inr he

theorem mem_of_findSelected {selection : ModSelection}
    (h : findSelected catalog id selection = some package) : package ∈ catalog.versions id := by
  unfold findSelected at h
  dsimp only at h
  split at h
  · exact List.mem_of_find?_eq_some h
  · rcases mem_of_latest h with hmem | he
    · exact hmem
    · cases he

/-- A package with a selected version is one of those the pass goes through. -/
theorem entry_of_findSelected {selection : ModSelection}
    (h : findSelected catalog id selection = some package) :
    ∃ versions, (id, versions) ∈ catalog.packages := by
  have hmem := mem_of_findSelected h
  unfold Catalog.versions at hmem
  split at hmem
  case h_1 => exact absurd hmem List.not_mem_nil
  case h_2 p hp =>
    have hid : p.1 = id := by simpa using List.find?_some hp
    exact ⟨p.2, hid ▸ List.mem_of_find?_eq_some hp⟩

theorem key_mem {versions : List ModPackage} {selection : ModSelection}
    (hentry : (id, versions) ∈ catalog.packages)
    (hsel : findSelected catalog id selection = some package) (hr : r ∈ package.requirements) :
    r.key id ∈ catalog.keys :=
  List.mem_flatMap.2 ⟨(id, versions), hentry, List.mem_flatMap.2 ⟨package, mem_of_findSelected hsel,
    List.mem_map_of_mem hr⟩⟩

/-- The state in which a pass from `s` comes to a requirement of the selected package. -/
def Meets (catalog : Catalog) (s : Derivation) (id : String) (package : ModPackage)
    (r : ModFeatureRequirement) (v : Derivation) : Prop :=
  ∃ pre versions post u rpre rpost, catalog.packages = pre ++ (id, versions) :: post ∧
    pre.foldlM (packageStep catalog) { s with changed := false } = some u ∧
    findSelected catalog id (selectionOf u.effective id) = some package ∧
    package.requirements = rpre ++ r :: rpost ∧
    rpre.foldlM (requirementStep catalog id package) u = some v

/-- What every step of a pass preserves, the pass preserves. -/
theorem derivePass_inv {P : Derivation → Prop}
    (hstep : ∀ id package r v w, Meets catalog s id package r v → r.key id ∈ catalog.keys → P v →
      requirementStep catalog id package v r = some w → P w)
    (hs : P { s with changed := false }) (h : derivePass catalog s = some t) : P t := by
  refine foldlM_prefix_inv (fun pre p post u x hps hu hPu hx => ?_) hs h
  unfold packageStep at hx
  split at hx
  case h_1 =>
    obtain rfl := Option.some.inj hx
    exact hPu
  case h_2 package hsel =>
    refine foldlM_prefix_inv (fun rpre r rpost v w hrs hv hPv hw => ?_) hPu hx
    have hr : r ∈ package.requirements := hrs ▸ List.mem_append_right rpre List.mem_cons_self
    have hp : p ∈ catalog.packages := hps ▸ List.mem_append_right pre List.mem_cons_self
    exact hstep p.1 package r v w ⟨pre, p.2, post, u, rpre, rpost, hps, hu, hsel, hrs, hv⟩
      (key_mem hp hsel hr) hPv hw

theorem derivePass_grows (h : derivePass catalog s = some t) :
    Grows catalog { s with changed := false } t :=
  derivePass_inv (fun _ _ _ _ _ _ _ hs h => hs.trans (requirementStep_outcome h).grows)
    (Grows.refl catalog _) h

theorem derivePass_settled (hs : Settled catalog catalog.keys s) (h : derivePass catalog s = some t) :
    Settled catalog catalog.keys t :=
  derivePass_inv (fun _ _ _ _ _ _ hkey hs h => (requirementStep_outcome h).settled hkey hs)
    (P := Settled catalog catalog.keys) ⟨hs.nodup, hs.known, hs.met⟩ h

theorem derivePass_total (catalog : Catalog) (s : Derivation) :
    ∃ t, derivePass catalog s = some t := by
  have hpackage : ∀ p ∈ catalog.packages, ∀ s, True → ∃ t, packageStep catalog s p = some t ∧ True := by
    intro p _ s _
    unfold packageStep
    split
    · exact ⟨_, rfl, trivial⟩
    · exact foldlM_total (fun r _ s _ =>
        (requirementStep_total catalog p.1 _ s r).imp fun _ h => ⟨h, trivial⟩) trivial
  obtain ⟨t, h, _⟩ := foldlM_total hpackage (s := { s with changed := false }) trivial
  exact ⟨t, h⟩

theorem packageStep_grows {p : String × List ModPackage} (h : packageStep catalog s p = some t) :
    Grows catalog s t := by
  unfold packageStep at h
  split at h
  case h_1 =>
    obtain rfl := Option.some.inj h
    exact Grows.refl catalog s
  case h_2 =>
    exact foldlM_inv (fun _ _ _ _ hs h => hs.trans (requirementStep_outcome h).grows)
      (Grows.refl catalog s) h

theorem packages_grow {ps : List (String × List ModPackage)}
    (h : ps.foldlM (packageStep catalog) s = some t) : Grows catalog s t :=
  foldlM_inv (fun _ _ _ _ hs h => hs.trans (packageStep_grows h)) (Grows.refl catalog s) h

theorem requirements_grow {rs : List ModFeatureRequirement}
    (h : rs.foldlM (requirementStep catalog id package) s = some t) : Grows catalog s t :=
  foldlM_inv (fun _ _ _ _ hs h => hs.trans (requirementStep_outcome h).grows)
    (Grows.refl catalog s) h

theorem Meets.grows {v : Derivation} (hm : Meets catalog s id package r v) :
    Grows catalog { s with changed := false } v := by
  obtain ⟨pre, versions, post, u, rpre, rpost, _, hu, _, _, hv⟩ := hm
  exact (packages_grow hu).trans (requirements_grow hv)

theorem Meets.selected {v : Derivation} (hm : Meets catalog s id package r v) :
    findSelected catalog id (selectionOf v.effective id) = some package ∧
      r ∈ package.requirements := by
  obtain ⟨pre, versions, post, u, rpre, rpost, _, _, hsel, hrs, hv⟩ := hm
  refine ⟨((requirements_grow hv).effective.findSelected_eq id).trans hsel, ?_⟩
  rw [hrs]
  exact List.mem_append_right rpre List.mem_cons_self

/-- A step of a pass, between what comes before it and what comes behind. -/
theorem Meets.step {v : Derivation} (hm : Meets catalog s id package r v)
    (h : derivePass catalog s = some t) : ∃ w, Outcome catalog id package r v w ∧
      Grows catalog v w ∧ Grows catalog w t := by
  obtain ⟨pre, versions, post, u, rpre, rpost, hps, hu, hsel, hrs, hv⟩ := hm
  unfold derivePass at h
  rw [hps] at h
  obtain ⟨u', x, hu', hx, hpost⟩ := foldlM_split h
  obtain rfl := Option.some.inj (hu.symm.trans hu')
  unfold packageStep at hx
  rw [hsel] at hx
  dsimp only at hx
  rw [hrs] at hx
  obtain ⟨v', w, hv', hw, hrpost⟩ := foldlM_split hx
  obtain rfl := Option.some.inj (hv.symm.trans hv')
  have hout := requirementStep_outcome hw
  exact ⟨w, hout, hout.grows, (requirements_grow hrpost).trans (packages_grow hpost)⟩

/-- A quiet pass comes to every requirement of the packages that are selected at its end. -/
theorem meets_of_quiet (h : derivePass catalog s = some t) (hquiet : t.changed = false)
    (hsel : findSelected catalog id (selectionOf t.effective id) = some package)
    (hr : r ∈ package.requirements) : ∃ v, Meets catalog s id package r v := by
  obtain ⟨versions, hentry⟩ := entry_of_findSelected hsel
  obtain ⟨pre, post, hps⟩ := List.append_of_mem hentry
  obtain ⟨rpre, rpost, hrs⟩ := List.append_of_mem hr
  unfold derivePass at h
  rw [hps] at h
  obtain ⟨u, x, hu, hx, hpost⟩ := foldlM_split h
  have hux := packageStep_grows hx
  obtain ⟨hquiet', he⟩ := (packages_grow hpost).quiet hquiet
  obtain ⟨_, he'⟩ := hux.quiet hquiet'
  rw [he, he'] at hsel
  unfold packageStep at hx
  rw [hsel] at hx
  dsimp only at hx
  rw [hrs] at hx
  obtain ⟨v, w, hv, _, _⟩ := foldlM_split hx
  exact ⟨v, pre, versions, post, u, rpre, rpost, hps, hu, hsel, hrs, hv⟩

end PsxRecomp.Mods
