import PsxRecomp.Overlays.Tables

/-! The index of the cached libraries that are not loaded yet: what the cache directories list, the manifest of
each file, and the functions of every manifest by entry, by file and by page. -/
namespace PsxRecomp.Overlays
set_option autoImplicit false

/-! ## Paths -/

abbrev Path := List Char

def separator (c : Char) : Bool := c = '/' || c = '\\'

def components (p : Path) : List Path := p.splitOnP separator

/-- `path_component_eq` -/
def pathComponentEq (p wanted : Path) : Bool := (components p).any fun c => c.map Char.toLower = wanted

def tierUnknown : Byte := 0
def tierTcc : Byte := 1
def tierGcc : Byte := 2

/-- `cache_tier_from_path` -/
def cacheTierFromPath (p : Path) : Byte :=
  if pathComponentEq p ['g', 'c', 'c'] then tierGcc
  else if pathComponentEq p ['t', 'c', 'c'] then tierTcc
  else tierUnknown

/-- `cache_seg_from_path`: by the directory that holds the file. -/
def cacheSegFromPath (p : Path) : Word :=
  match (components p).reverse with
  | _ :: dir :: _ =>
    if dir.map Char.toLower = ['s', 'e', 'g', '-', 'k', 'u', 's', 'e', 'g'] then 0x00000000
    else if dir.map Char.toLower = ['s', 'e', 'g', '-', 'k', 's', 'e', 'g', '1'] then 0xA0000000
    else 0x80000000
  | _ => 0x80000000

/-! ## Files -/

inductive Provenance where
  | ambiguous
  | authority
  | hosted
  | orphan
  deriving DecidableEq, Inhabited

/-- A parsed manifest; one without functions does not parse. -/
structure Manifest where
  fns : List ManFn
  seg : Word
  pairId : Option (BitVec 64)
  provenance : Provenance
  nonempty : fns ≠ []

/-- What the exports of a shared library say. -/
structure Image where
  abi : Word
  pairId : Option (BitVec 64)
  hasInit : Bool
  hasFlush : Bool
  exports : Word → Bool

structure CacheFile where
  path : Path
  regionStart : Word
  mtime : ℕ
  /-- `cache_name_is_immutable` of its name -/
  immutable : Bool

structure CacheDir where
  tier : Byte
  files : List CacheFile
  /-- The marker of a finished ABI sweep is there. -/
  swept : Bool

/-- The cache root as the loader finds it: manifests and images by the path of the library. -/
structure Disk where
  dirs : List CacheDir
  manifest : Path → Option Manifest
  image : Path → Option Image
  resident : Path → Bool
  /-- The canonical form of a published path that is valid. -/
  published : Path → Option Path

/-! ## Cache entries -/

def cacheIdxCap : ℕ := 4096
def lazyManCap : ℕ := candCap * 2
def lazyRangeLinkCap : ℕ := lazyManCap * 8

structure CacheEntry where
  regionStart : Word
  seg : Word
  mtime : ℕ
  funcCount : ℕ
  indexedFuncCount : ℕ
  tier : Byte
  loadFailed : Bool
  resident : Bool
  capacitySuppressed : Bool
  path : Path
  deriving Inhabited

inductive LazyState where
  | unknown
  | valid
  | invalid
  deriving DecidableEq, Inhabited

structure LazyMan where
  cacheIdx : ℕ
  fn : ManFn
  valGen : Word
  state : LazyState
  deriving Inhabited

/-- The chains hold indexes of `man`. -/
structure Cache where
  entry : ℕ → CacheEntry
  count : ℕ
  man : ℕ → LazyMan
  manN : ℕ
  overflow : Bool
  /-- By bucket, the newest first. -/
  entryHead : ℕ → List ℕ
  /-- By cache entry, the newest first. -/
  bundleHead : ℕ → List ℕ
  range : RangeIndex

def Cache.init : Cache where
  entry := fun _ => default
  count := 0
  man := fun _ => default
  manN := 0
  overflow := false
  entryHead := fun _ => []
  bundleHead := fun _ => []
  range := ⟨fun _ => [], 0, false⟩

def Cache.setEntry (ci : ℕ) (e : CacheEntry) (c : Cache) : Cache :=
  { c with entry := Function.update c.entry ci e }

def Cache.setMan (li : ℕ) (lm : LazyMan) (c : Cache) : Cache :=
  { c with man := Function.update c.man li lm }

/-! ## Indexing manifests -/

def lazyBucket (entry : Word) : ℕ := ((entry * 2654435761) &&& 65535).toNat

/-- The pages of one range after another are watched and linked, until the links run out. -/
def linkRanges (li : ℕ) : List CodeRange → List ℕ → Memory × RangeIndex → Memory × RangeIndex
  | [], _, x => x
  | r :: rs, seen, (m, ix) =>
    let pages := indexPages (stripSegment r)
    let ix := addLinks lazyRangeLinkCap li pages seen ix
    if ix.overflow then (ovRangesWatch [r] m, ix)
    else linkRanges li rs (pages ++ seen) (ovRangesWatch [r] m, ix)

/-- One manifested function of a cache entry. -/
def indexFn (ci : ℕ) (x : Memory × Cache) (fn : ManFn) : Memory × Cache :=
  let (m, c) := x
  if c.overflow || !fn.hasCrc || fn.ranges = [] then (m, c)
  else if c.manN ≥ lazyManCap then (m, { c with overflow := true })
  else
    let li := c.manN
    let b := lazyBucket (fn.entry &&& 0x1FFFFFFF)
    let e := c.entry ci
    let r := linkRanges li fn.ranges [] (m, c.range)
    (r.1,
      { entry := Function.update c.entry ci { e with indexedFuncCount := e.indexedFuncCount + 1 }
        count := c.count
        man := Function.update c.man li ⟨ci, fn, 0, .unknown⟩
        manN := li + 1
        overflow := r.2.overflow
        entryHead := Function.update c.entryHead b (li :: c.entryHead b)
        bundleHead := Function.update c.bundleHead ci (li :: c.bundleHead ci)
        range := r.2 })

/-- One cache entry; nothing more is indexed once something has run out. -/
def indexEntry (d : Disk) (x : Memory × Cache) (ci : ℕ) : Memory × Cache :=
  let (m, c) := x
  if c.overflow then (m, c)
  else
    let e := { c.entry ci with funcCount := 0, indexedFuncCount := 0 }
    match d.manifest e.path with
    | none => (m, c.setEntry ci e)
    | some man =>
      if man.seg ≠ e.seg then (m, c.setEntry ci e)
      else man.fns.foldl (indexFn ci) (m, c.setEntry ci { e with funcCount := man.fns.length })

def Cache.cleared (c : Cache) : Cache :=
  { Cache.init with entry := c.entry, count := c.count }

/-- `rebuild_lazy_manifest_index` -/
def rebuildLazyManifestIndex (d : Disk) (m : Memory) (c : Cache) : Memory × Cache :=
  (List.range c.count).foldl (indexEntry d) (m, c.cleared)

/-! ## Scanning the directories -/

/-- `cache_idx_has_path` -/
def Cache.hasPath (c : Cache) (p : Path) : Bool := (List.range c.count).any fun i => (c.entry i).path = p

def newEntry (d : Disk) (tier : Byte) (f : CacheFile) : CacheEntry where
  regionStart := f.regionStart
  seg := cacheSegFromPath f.path
  mtime := f.mtime
  funcCount := 0
  indexedFuncCount := 0
  tier := tier
  loadFailed := false
  resident := d.resident f.path
  capacitySuppressed := false
  path := f.path

/-- `add_posix_cache_file` -/
def addCacheFile (d : Disk) (tier : Byte) (c : Cache) (f : CacheFile) : Cache :=
  if !f.immutable || c.count ≥ cacheIdxCap || c.hasPath f.path then c
  else { c.setEntry c.count (newEntry d tier f) with count := c.count + 1 }

/-- `cache_idx_remove_path`: the last entry takes the place. -/
def cacheIdxRemovePath (p : Path) (c : Cache) : Cache :=
  match (List.range c.count).find? fun i => (c.entry i).path = p with
  | none => c
  | some i => { c.setEntry i (c.entry (c.count - 1)) with count := c.count - 1 }

/-- `abi_preflight_sweep` -/
def abiPreflightSweep (d : Disk) (abiTag : Word) (dir : CacheDir) (c : Cache) : Cache :=
  if dir.swept then c
  else dir.files.foldl (fun c f =>
    if !f.immutable || (d.image f.path).map Image.abi = some abiTag then c else cacheIdxRemovePath f.path c) c

def scanOneCacheDir (d : Disk) (abiTag : Word) (c : Cache) (dir : CacheDir) : Cache :=
  abiPreflightSweep d abiTag dir (dir.files.foldl (addCacheFile d dir.tier) c)

/-- `refresh_bios_resident_flags` -/
def refreshBiosResidentFlags (d : Disk) (c : Cache) : Cache :=
  { c with entry := fun i => { c.entry i with resident := d.resident (c.entry i).path } }

/-- `scan_cache_dir` -/
def scanCacheDir (d : Disk) (abiTag : Word) (m : Memory) (c : Cache) : Memory × Cache :=
  rebuildLazyManifestIndex d m (refreshBiosResidentFlags d (d.dirs.foldl (scanOneCacheDir d abiTag) c))

/-! ## Matching manifests -/

/-- `lazy_man_contains` -/
def lazyManContains (fn : ManFn) (seg phys : Word) : Bool :=
  fn.entry &&& 0xE0000000 = seg &&
    (fn.entry &&& 0x1FFFFFFF = phys || fn.ranges.any fun r =>
      let lo := r.lo &&& 0x1FFFFFFF
      phys ≥ lo && phys < lo + r.len)

/-- `lazy_man_matches` -/
def lazyManMatches (m : Memory) (lm : LazyMan) : LazyMan × Bool :=
  if !manStructurallyValid lm.fn then ({ lm with state := .invalid }, false)
  else
    let gen := ovRangesGensum m lm.fn.ranges
    if lm.state = .valid ∧ lm.valGen = gen then (lm, true)
    else if lm.state = .invalid ∧ lm.valGen = gen then (lm, false)
    else
      let live := liveMatches m.geometry m.ram lm.fn.ranges lm.fn.crc
      ({ lm with valGen := gen, state := if live then .valid else .invalid }, live)

def Cache.matchMan (m : Memory) (li : ℕ) (c : Cache) : Cache × Bool :=
  (c.setMan li (lazyManMatches m (c.man li)).1, (lazyManMatches m (c.man li)).2)

/-- The loop of `lazy_bundle_matches`, with the functions it has seen. -/
def matchBundle (m : Memory) : List ℕ → ℕ → Cache → Cache × Option ℕ
  | [], seen, c => (c, some seen)
  | li :: lis, seen, c =>
    let r := c.matchMan m li
    if r.2 then matchBundle m lis (seen + 1) r.1 else (r.1, none)

/-- `lazy_bundle_matches` -/
def lazyBundleMatches (m : Memory) (ci : ℕ) (c : Cache) : Cache × Bool :=
  if ci ≥ c.count ∨ ci ≥ cacheIdxCap then (c, false)
  else
    let e := c.entry ci
    if e.funcCount = 0 ∨ e.indexedFuncCount ≠ e.funcCount then (c, false)
    else
      let r := matchBundle m (c.bundleHead ci) 0 c
      (r.1, r.2 = some e.funcCount)

/-- `lazy_candidate_preferred` -/
def lazyCandidatePreferred (c : Cache) (li : ℕ) : Option ℕ → Bool
  | none => true
  | some current =>
    let a := c.entry (c.man li).cacheIdx
    let b := c.entry (c.man current).cacheIdx
    if a.tier ≠ b.tier then b.tier < a.tier
    else if a.mtime ≠ b.mtime then b.mtime < a.mtime
    else decide (b.path < a.path)

/-- `lazy_choose_complete_or_fallback` -/
def lazyChooseCompleteOrFallback (c : Cache) : Option ℕ → Option ℕ → Option ℕ
  | none, fallback => fallback
  | complete, none => complete
  | some complete, some fallback =>
    let a := c.entry (c.man complete).cacheIdx
    let b := c.entry (c.man fallback).cacheIdx
    if a.tier ≠ b.tier then (if b.tier < a.tier then some complete else some fallback) else some complete

end PsxRecomp.Overlays
