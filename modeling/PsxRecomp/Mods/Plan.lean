import PsxRecomp.Library.Coalesce
import PsxRecomp.Library.Cells

/-! The plan of the mod packages: writes and overlays, how two of them are compared, and the
coalescing stage at the end of `resolve`. A location is a guest address or a byte offset on the
disc; the parser keeps every range below `2 ^ 64`, so the sums here are those of the source. -/
namespace PsxRecomp.Mods
open Coalesce
set_option autoImplicit false

abbrev Byte := BitVec 8

/-! ## Contributions -/

/-- `ModPatchTarget` -/
inductive PatchTarget
  | mainExe | discRaw | discUser
deriving DecidableEq, Repr

/-- `ModResolution::Write::Field` -/
structure Field where
  offset : ℕ
  replacement : List Byte
deriving DecidableEq, Repr

/-- `ModResolution::Write`: `expected` guards the whole range; a dense write replaces all of it, a
sparse one its fields. -/
structure Write where
  target : PatchTarget
  location : ℕ
  expected : List Byte
  replacement : List Byte
  fields : List Field
  packageId : String
  featureId : String
deriving DecidableEq, Repr

/-- `ModResolution::Overlay` -/
structure Overlay where
  target : PatchTarget
  location : ℕ
  payload : List Byte
  payloadSha256 : String
  expectedSha256 : String
  packageId : String
  featureId : String
deriving DecidableEq, Repr

/-- What `for_each_owned_span` hands on: as many bytes as the replacement has, with the guard
bytes from its first on. -/
structure Span where
  location : ℕ
  expected : List Byte
  replacement : List Byte
deriving DecidableEq, Repr

/-- `for_each_owned_span` -/
def Write.ownedSpans (w : Write) : List Span :=
  if w.fields = [] then [⟨w.location, w.expected, w.replacement⟩]
  else w.fields.map fun f => ⟨w.location + f.offset, w.expected.drop f.offset, f.replacement⟩

/-! ## Comparisons -/

/-- `ranges_overlap` -/
def rangesOverlap (aTarget : PatchTarget) (aLocation aSize : ℕ) (bTarget : PatchTarget)
    (bLocation bSize : ℕ) : Bool :=
  aTarget = bTarget ∧ aLocation < bLocation + bSize ∧ bLocation < aLocation + aSize

/-- `writes_overlap` -/
def writesOverlap (a b : Write) : Bool :=
  a.target = b.target ∧ a.ownedSpans.any fun s => b.ownedSpans.any fun t =>
    rangesOverlap a.target s.location s.replacement.length b.target t.location
      t.replacement.length

/-- `identical_write` -/
def identicalWrite (a b : Write) : Bool :=
  a.target = b.target ∧ a.location = b.location ∧ a.expected = b.expected ∧
    a.replacement = b.replacement ∧ a.fields = b.fields

/-- The first common address of two ranges at which `differ` holds. -/
def firstMismatch (aLocation aSize bLocation bSize : ℕ) (differ : ℕ → Bool) : Option ℕ :=
  let begin := max aLocation bLocation
  let stop := min (aLocation + aSize) (bLocation + bSize)
  (List.range' begin (stop - begin)).find? differ

/-- Two bytes of two arrays seen at one address. -/
def differAt (aLocation : ℕ) (a : List Byte) (bLocation : ℕ) (b : List Byte) (at' : ℕ) : Bool :=
  a[at' - aLocation]? ≠ b[at' - bLocation]?

/-- `write_overlap_mismatch` -/
def writeOverlapMismatch (a b : Write) : Option ℕ :=
  a.ownedSpans.findSome? fun s => b.ownedSpans.findSome? fun t =>
    firstMismatch s.location s.replacement.length t.location t.replacement.length fun at' =>
      differAt s.location s.expected t.location t.expected at' ||
        differAt s.location s.replacement t.location t.replacement at'

/-- `write_guard_overlap_mismatch` -/
def writeGuardOverlapMismatch (a b : Write) : Option ℕ :=
  if a.target ≠ b.target then none
  else firstMismatch a.location a.expected.length b.location b.expected.length
    (differAt a.location a.expected b.location b.expected)

/-- `write_overlaps_range` -/
def writeOverlapsRange (w : Write) (target : PatchTarget) (location size : ℕ) : Bool :=
  w.target = target ∧ w.ownedSpans.any fun s =>
    rangesOverlap w.target s.location s.replacement.length target location size

/-- `write_overlay_mismatch` -/
def writeOverlayMismatch (w : Write) (o : Overlay) : Option ℕ :=
  w.ownedSpans.findSome? fun s =>
    firstMismatch s.location s.replacement.length o.location o.payload.length
      (differAt s.location s.replacement o.location o.payload)

/-- `overlay_overlap_mismatch` -/
def overlayOverlapMismatch (a b : Overlay) : Option ℕ :=
  firstMismatch a.location a.payload.length b.location b.payload.length
    (differAt a.location a.payload b.location b.payload)

/-! ## Reports -/

/-- `ModResolution::Diagnostic` -/
structure Diagnostic where
  resource : String
  packageId : String
  featureId : String
  otherPackageId : String
  otherFeatureId : String
  message : String
deriving DecidableEq, Repr

/-- An error, with the diagnostic most of them carry. -/
structure Report where
  message : String
  diagnostic : Option Diagnostic
deriving DecidableEq, Repr

def hex (n : ℕ) : String := "0x" ++ String.ofList (Nat.toDigits 16 n)

/-- `byte_resource` -/
def byteResource (target : PatchTarget) (location : ℕ) : String :=
  let name := match target with
    | .mainExe => "main_exe"
    | .discRaw => "disc_raw"
    | .discUser => "disc_user"
  name ++ ":" ++ hex location ++ "-" ++ hex (location + 1)

def clashReport (resource packageId featureId otherPackageId otherFeatureId verb : String) :
    Report :=
  let message := packageId ++ "/" ++ featureId ++ verb ++ resource ++ " with " ++
    otherPackageId ++ "/" ++ otherFeatureId
  { message := message
    diagnostic := some ⟨resource, packageId, featureId, otherPackageId, otherFeatureId, message⟩ }

/-! ## Coalescing writes -/

/-- The loop over the fields of a sparse write. -/
def validFields (size : ℕ) : ℕ → List Field → Bool
  | _, [] => true
  | previousEnd, f :: fs =>
    !(f.replacement = [] ∨ f.offset > size ∨ f.replacement.length > size - f.offset ∨
      f.offset < previousEnd) && validFields size (f.offset + f.replacement.length) fs

def validWrite (w : Write) : Bool :=
  w.expected ≠ [] ∧
    if w.fields = [] then w.expected.length = w.replacement.length
    else w.replacement = [] ∧ validFields w.expected.length 0 w.fields

def rejectWrite (w : Write) : Option Report :=
  if validWrite w then none
  else some { message := w.packageId ++ "/" ++ w.featureId ++ ": resolver emitted invalid write"
              diagnostic := none }

/-- A write against one kept before it. -/
def writeVerdict (previous w : Write) : Verdict Report :=
  if identicalWrite previous w then .same
  else match writeGuardOverlapMismatch previous w with
    | some at' => .clash (clashReport (byteResource w.target at') w.packageId w.featureId
        previous.packageId previous.featureId " has an incompatible guard at ")
    | none =>
      if !writesOverlap previous w then .apart
      else match writeOverlapMismatch previous w with
        | none => .apart
        | some at' => .clash (clashReport (byteResource w.target at') w.packageId w.featureId
            previous.packageId previous.featureId " collides at ")

def coalesceWrites (ws : List Write) : Progress Write Report := coalesce rejectWrite writeVerdict ws

/-! ## Coalescing overlays -/

/-- An overlay against a kept write. -/
def overlayWriteClash (o : Overlay) (w : Write) : Option Report :=
  if !writeOverlapsRange w o.target o.location o.payload.length then none
  else (writeOverlayMismatch w o).map fun at' =>
    clashReport (byteResource o.target at') o.packageId o.featureId w.packageId w.featureId
      " collides at "

/-- The first kept write the overlay collides with. -/
def rejectOverlay (kept : List Write) (o : Overlay) : Option Report :=
  kept.findSome? (overlayWriteClash o)

/-- An overlay against one kept before it. -/
def overlayVerdict (previous o : Overlay) : Verdict Report :=
  if !rangesOverlap o.target o.location o.payload.length previous.target previous.location
      previous.payload.length then .apart
  else if o.target = previous.target ∧ o.location = previous.location ∧
      o.payload = previous.payload ∧ o.expectedSha256 = previous.expectedSha256 then .same
  else match overlayOverlapMismatch previous o with
    | none => .apart
    | some at' => .clash (clashReport (byteResource o.target at') o.packageId o.featureId
        previous.packageId previous.featureId " collides at ")

def coalesceOverlays (kept : List Write) (os : List Overlay) : Progress Overlay Report :=
  coalesce (rejectOverlay kept) overlayVerdict os

/-! ## Coalescing plugins -/

/-- `ModResolution::Plugin`, its netplay flags left out. -/
structure Plugin where
  id : String
  packageId : String
  featureId : String
deriving DecidableEq, Repr

def pluginVerdict (previous p : Plugin) : Verdict Report :=
  if p.id ≠ previous.id then .apart
  else if p.packageId = previous.packageId ∧ p.featureId = previous.featureId then .same
  else .clash (clashReport ("plugin:" ++ p.id) p.packageId p.featureId previous.packageId
    previous.featureId " collides at ")

def coalescePlugins (ps : List Plugin) : Progress Plugin Report :=
  coalesce (fun _ => none) pluginVerdict ps

/-! ## The end of `resolve` -/

/-- `ModResolution`. `P`, `D` and `R` are the packages, the derived discs and the resources. -/
structure Resolution (P D R : Type) where
  ok : Bool
  ordered : List P
  writes : List Write
  overlays : List Overlay
  derivedDiscs : List D
  plugins : List Plugin
  resources : List R
  errors : List String
  diagnostics : List Diagnostic

variable {P D R : Type}

def Resolution.report (r : Resolution P D R) (reports : List Report) : Resolution P D R :=
  { r with
    errors := r.errors ++ reports.map Report.message
    diagnostics := r.diagnostics ++ reports.filterMap Report.diagnostic }

/-- More than one provider of a derived disc is an error. -/
def derivedDiscReports (providerOf : D → String) (ds : List D) : List Report :=
  if 1 < ds.length then
    [{ message := "more than one derived-disc provider is active: " ++
        ", ".intercalate (ds.map providerOf)
       diagnostic := none }]
  else []

/-- What the writes and overlays of a plan come to. -/
structure Coalesced where
  writes : List Write
  overlays : List Overlay
  reports : List Report

/-- The two loops over writes and overlays. -/
def coalesceContributions (ws : List Write) (os : List Overlay) : Coalesced :=
  let writes := coalesceWrites ws
  let overlays := coalesceOverlays writes.kept os
  { writes := writes.kept, overlays := overlays.kept, reports := writes.errors ++ overlays.errors }

/-- The coalescing of `resolve`: what the packages contributed comes in, the plan goes out. -/
def coalesceStage (providerOf : D → String) (r : Resolution P D R) : Resolution P D R :=
  let r := r.report (derivedDiscReports providerOf r.derivedDiscs)
  let plugins := coalescePlugins r.plugins
  let r := { r.report plugins.errors with plugins := plugins.kept }
  let c := coalesceContributions r.writes r.overlays
  { r.report c.reports with writes := c.writes, overlays := c.overlays }

/-- `resolve` behind the gathering of the contributions: a reported error empties the plan. -/
def finish (providerOf : D → String) (r : Resolution P D R) : Resolution P D R :=
  let r := coalesceStage providerOf r
  if r.errors ≠ [] then
    { r with
      ordered := [], writes := [], overlays := [], derivedDiscs := [], plugins := []
      resources := [] }
  else { r with ok := true }

/-- What the packages contribute. -/
structure Gathered (D R : Type) where
  writes : List Write
  overlays : List Overlay
  derivedDiscs : List D
  plugins : List Plugin
  resources : List R
  errors : List String

/-- `resolve`: `order` selects and orders the packages, with the errors found so far; `gather` is
what the packages then contribute. -/
def resolve (providerOf : D → String) (order : List P × List String × List Diagnostic)
    (gather : List P → Gathered D R) : Resolution P D R :=
  let start : Resolution P D R :=
    { ok := false, ordered := order.1, writes := [], overlays := [], derivedDiscs := []
      plugins := [], resources := [], errors := order.2.1, diagnostics := order.2.2 }
  if start.errors ≠ [] then { start with ordered := [] }
  else
    let g := gather start.ordered
    finish providerOf { start with
      writes := g.writes, overlays := g.overlays, derivedDiscs := g.derivedDiscs
      plugins := g.plugins, resources := g.resources, errors := g.errors }

end PsxRecomp.Mods
