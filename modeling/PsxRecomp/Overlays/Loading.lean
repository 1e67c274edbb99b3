import PsxRecomp.Overlays.Manifests

/-! Loading a library: the pair of image and manifest checked and registered, the artifact selected for a PC
among the manifests that match, the loads of a rescan and of a publication. -/
namespace PsxRecomp.Overlays
set_option autoImplicit false

/-! ## State -/

structure Settings where
  /-- `g_psx_cps_mode` -/
  cpsMode : Bool
  /-- `overlay_loads_allowed` -/
  loadsAllowed : Bool
  /-- `g_overlay_region_floor` -/
  regionFloor : Word
  /-- `g_text_image_lo` -/
  textImageLo : Word
  forceInterp : Bool
  shellwinInterp : Bool
  /-- `s_native_exec` -/
  nativeExec : Bool
  nativeBlocked : Word → Bool
  /-- `PSX_OVERLAY_ABI_TAG` -/
  abiTag : Word

structure LazyMissEntry where
  /-- `phys`: the full PC -/
  pc : Word
  codeGen : Word
  watchedCodeGen : Word
  loaderGen : Word

structure LoadedPair where
  pairId : BitVec 64
  fns : List ManFn
  tier : Byte
  provenance : Provenance

structure Runtime where
  settings : Settings
  mem : Memory
  tab : Table
  act : Activity
  cache : Cache
  loadedPaths : List Path
  ndlls : ℕ
  pairs : List LoadedPair
  miss : ℕ → LazyMissEntry
  /-- `s_lazy_loader_gen` -/
  loaderGen : Word
  /-- `s_lazy_watched_code_gen` -/
  watchedCodeGen : Word
  /-- `g_dirty_ram_code_gen` -/
  codeGen : Word
  /-- `dirty_ram_bitmap`, by page -/
  dirty : ℕ → Bool

def noMisses : ℕ → LazyMissEntry := fun _ => ⟨0, 0, 0, 0⟩

/-- `lazy_miss_invalidate_loader` -/
def Runtime.invalidateLoader (s : Runtime) : Runtime :=
  if s.loaderGen + 1 = 0 then { s with loaderGen := 1, miss := noMisses }
  else { s with loaderGen := s.loaderGen + 1 }

/-- `overlay_loader_note_code_write` -/
def Runtime.noteCodeWrite (s : Runtime) : Runtime :=
  if s.watchedCodeGen + 1 = 0 then { s with watchedCodeGen := 1, miss := noMisses }
  else { s with watchedCodeGen := s.watchedCodeGen + 1 }

/-! ## Pairs -/

def loadedPairCap : ℕ := 4096
def maxLoadedDlls : ℕ := 4096

/-- `manifest_pair_equal` -/
def manifestPairEqual (a b : List ManFn) : Bool :=
  let plain := List.map fun fn : ManFn => { fn with ranges := fn.ranges.map stripSegment }
  plain a = plain b

/-- `loaded_pair_find` -/
def loadedPairFind (tier : Byte) (man : Manifest) (pairs : List LoadedPair) : Bool :=
  man.provenance ≠ .ambiguous && pairs.any fun p =>
    p.tier = tier && p.provenance = man.provenance && some p.pairId = man.pairId && manifestPairEqual p.fns man.fns

/-- `loaded_pair_commit` -/
def loadedPairCommit (tier : Byte) (man : Manifest) (pairs : List LoadedPair) : List LoadedPair :=
  match man.pairId with
  | none => pairs
  | some id =>
    if man.provenance = .ambiguous ∨ pairs.length ≥ loadedPairCap ∨ loadedPairFind tier man pairs then pairs
    else pairs ++ [⟨id, man.fns, tier, man.provenance⟩]

/-! ## One library -/

/-- The functions of a manifest one by one, with the number that were registered. -/
def registerAll (image : Image) (dll : ℕ) (tier : Byte) : List ManFn → Memory × Table → (Memory × Table) × ℕ
  | [], x => (x, 0)
  | fn :: fns, x =>
    if fn.entry = 0 ∨ fn.ranges = [] ∨ !image.exports fn.entry then registerAll image dll tier fns x
    else
      let r := candRegister (fn.entry &&& 0x1FFFFFFF) fn dll tier x.1 x.2
      let q := registerAll image dll tier fns r.1
      (q.1, q.2 + if r.2 then 1 else 0)

/-- `LOAD_PAIR_ALIAS` -/
def loadPairAlias : ℤ := -1

/-- `load_overlay_dll` -/
def loadOverlayDll (d : Disk) (path : Path) (man : Manifest) (prepared : Option Image) (tier : Byte) (s : Runtime) :
    Runtime × ℤ :=
  match prepared.or (d.image path) with
  | none => (s, 0)
  | some image =>
    if image.abi ≠ s.settings.abiTag then (s, 0)
    else if image.pairId ≠ man.pairId then (s, 0)
    else if !image.hasInit then (s, 0)
    else if man.fns.any fun fn => !image.exports fn.entry then (s, 0)
    else if !image.hasFlush then (s, 0)
    else if man.pairId.isSome && loadedPairFind tier man s.pairs then (s, loadPairAlias)
    else if s.ndlls ≥ maxLoadedDlls then (s, 0)
    else if man.fns.length > candCap - s.tab.candN then (s, 0)
    else
      let r := registerAll image s.ndlls tier man.fns (s.mem, s.tab)
      ({ s with
          mem := r.1.1
          tab := r.1.2
          pairs := if r.2 = man.fns.length then loadedPairCommit tier man s.pairs else s.pairs }, r.2)

/-- `cache_entry_suppress_for_shortfall` -/
def suppressForShortfall (ci needed : ℕ) (s : Runtime) : Runtime × Bool :=
  let e := s.cache.entry ci
  if ci ≥ s.cache.count ∨ needed = 0 then (s, false)
  else if e.capacitySuppressed then (s, true)
  else if needed ≤ candCap - s.tab.candN then (s, false)
  else ({ s with cache := s.cache.setEntry ci { e with capacitySuppressed := true } }, true)

/-- `cache_entry_suppress_at_capacity` -/
def suppressAtCapacity (ci : ℕ) (s : Runtime) : Runtime × Bool :=
  let e := s.cache.entry ci
  if ci ≥ s.cache.count then (s, false)
  else if e.capacitySuppressed then (s, true)
  else if s.tab.candN < candCap then (s, false)
  else
    let dropped := if 0 < e.indexedFuncCount then e.indexedFuncCount else e.funcCount
    suppressForShortfall ci (if dropped = 0 then 1 else dropped) s

/-- The suppression of an indexed library that no longer fits. -/
def suppressed (ci : Option ℕ) (knownAlias : Bool) (needed : ℕ) (s : Runtime) : Runtime × Bool :=
  match ci with
  | none => (s, false)
  | some i =>
    if knownAlias then (s, false)
    else if s.tab.candN ≥ candCap then suppressAtCapacity i s
    else suppressForShortfall i needed s

/-- `load_one_dll` -/
def loadOneDll (d : Disk) (path : Path) (prepared : Option Image) (s : Runtime) : Runtime × ℤ :=
  if s.loadedPaths.length ≥ maxLoadedDlls then (s, 0)
  else
    let ci := (List.range s.cache.count).find? fun i => (s.cache.entry i).path = path
    let tier := match ci with
      | some i => (s.cache.entry i).tier
      | none => cacheTierFromPath path
    match d.manifest path with
    | none => (s, 0)
    | some man =>
      if man.seg ≠ cacheSegFromPath path then (s, 0)
      else
        let r := suppressed ci (man.pairId.isSome && loadedPairFind tier man s.pairs) man.fns.length s
        if r.2 then (r.1, 0)
        else
          let q := loadOverlayDll d path man prepared tier r.1
          if q.2 = 0 then q
          else
            let s := q.1.invalidateLoader
            ({ s with
                loadedPaths := s.loadedPaths ++ [path]
                ndlls := if q.2 > 0 then s.ndlls + 1 else s.ndlls }, q.2)

/-! ## Selecting an artifact -/

/-- `lazy_is_loadable` -/
def lazyIsLoadable (m : Memory) (loaded : List Path) (regionStart seg phys : Word) (requireRegionStart : Bool)
    (li : ℕ) (c : Cache) : Cache × Bool :=
  let lm := c.man li
  let e := c.entry lm.cacheIdx
  if li ≥ c.manN ∨ lm.cacheIdx ≥ c.count then (c, false)
  else if (!requireRegionStart || e.regionStart = regionStart) && !e.loadFailed && !e.capacitySuppressed &&
      e.path ∉ loaded && lazyManContains lm.fn seg phys then c.matchMan m li
  else (c, false)

structure Choice where
  best : Option ℕ
  fallback : Option ℕ

/-- A loadable function: the fallback of its region, and the best where its whole library matches. -/
def weigh (m : Memory) (li : ℕ) (own : Bool) (x : Cache × Choice) : Cache × Choice :=
  let (c, ch) := x
  let fallback := if own && lazyCandidatePreferred c li ch.fallback then some li else ch.fallback
  let r := lazyBundleMatches m (c.man li).cacheIdx c
  (r.1, ⟨if r.2 && lazyCandidatePreferred r.1 li ch.best then some li else ch.best, fallback⟩)

/-- One function of the entry chain. -/
def weighExact (m : Memory) (loaded : List Path) (regionStart seg phys : Word) (x : Cache × Choice) (li : ℕ) :
    Cache × Choice :=
  if (x.1.man li).fn.entry &&& 0x1FFFFFFF ≠ phys then x
  else
    let r := lazyIsLoadable m loaded regionStart seg phys false li x.1
    if r.2 then weigh m li ((r.1.entry (r.1.man li).cacheIdx).regionStart = regionStart) (r.1, x.2) else (r.1, x.2)

/-- One function linked to the page. -/
def weighRange (m : Memory) (loaded : List Path) (regionStart seg phys : Word) (x : Cache × Choice) (li : ℕ) :
    Cache × Choice :=
  if (x.1.man li).fn.entry &&& 0x1FFFFFFF = phys then x
  else
    let r := lazyIsLoadable m loaded regionStart seg phys true li x.1
    if r.2 then weigh m li true (r.1, x.2) else (r.1, x.2)

/-- The choice between the functions that may serve the PC. -/
def weighAll (m : Memory) (loaded : List Path) (regionStart seg phys : Word) (c : Cache) : Cache × Choice :=
  let x := (c.entryHead (lazyBucket phys)).foldl (weighExact m loaded regionStart seg phys) (c, ⟨none, none⟩)
  if x.2.fallback = none ∧ pageOf phys < rangePageCount then
    (x.1.range.pages (pageOf phys)).foldl (weighRange m loaded regionStart seg phys) x
  else x

/-- The artifact that serves the PC best. -/
def selectArtifact (m : Memory) (loaded : List Path) (regionStart seg phys : Word) (c : Cache) : Cache × Option ℕ :=
  let x := weighAll m loaded regionStart seg phys c
  (x.1, lazyChooseCompleteOrFallback x.1 x.2.best x.2.fallback)

/-- `lazy_load_selected` -/
def lazyLoadSelected (d : Disk) (li : ℕ) (s : Runtime) : Runtime × Bool :=
  let ci := (s.cache.man li).cacheIdx
  let e := s.cache.entry ci
  if li ≥ s.cache.manN ∨ ci ≥ s.cache.count ∨ e.loadFailed ∨ e.capacitySuppressed ∨ e.path ∈ s.loadedPaths ∨
      e.funcCount = 0 then (s, false)
  else
    let r := loadOneDll d e.path none s
    if r.2 > 0 then (r.1, true)
    else
      let c := r.1.cache
      ({ r.1 with cache := c.setEntry ci { c.entry ci with loadFailed := true } }, false)

/-! ## The region of a PC -/

def kernelWindowEnd : Word := 0x00010000

/-- Back over the dirty pages, to the first page of the window at most. -/
def walkBack (dirty : ℕ → Bool) (floor : ℕ) : ℕ → ℕ
  | 0 => 0
  | pg + 1 => if pg + 1 > floor ∧ dirty pg then walkBack dirty floor pg else pg + 1

def floorPage (regionFloor phys : Word) : ℕ :=
  if pageOf phys < pageOf kernelWindowEnd then 0
  else if pageOf phys < pageOf regionFloor then pageOf kernelWindowEnd
  else pageOf regionFloor

def regionStartOf (s : Runtime) (phys : Word) : Word :=
  BitVec.ofNat 32 (walkBack s.dirty (floorPage s.settings.regionFloor phys) (pageOf phys) * 4096)

/-- One selection: nothing, or whether it was loaded. -/
def tryOnce (d : Disk) (seg phys : Word) (s : Runtime) : Runtime × Option Bool :=
  let r := selectArtifact s.mem s.loadedPaths (regionStartOf s phys) seg phys s.cache
  let s := { s with cache := r.1 }
  match r.2 with
  | none => (s, none)
  | some li =>
    let q := lazyLoadSelected d li s
    (q.1, some q.2)

/-- The selection again after an artifact that does not load. -/
def attempts (d : Disk) (seg phys : Word) : ℕ → Runtime → Runtime × Bool
  | 0, s => ((tryOnce d seg phys s).1, (tryOnce d seg phys s).2 = some true)
  | n + 1, s =>
    let r := tryOnce d seg phys s
    if r.2 = some false then attempts d seg phys n r.1 else (r.1, r.2 = some true)

/-- `try_load_region` -/
def tryLoadRegion (d : Disk) (seg phys : Word) (s : Runtime) : Runtime × Bool :=
  if !s.settings.loadsAllowed then (s, false) else attempts d seg phys (s.cache.count - 1) s

/-! ## Rescans and publications -/

/-- One turn of `load_bios_resident_shards`. -/
def loadResident (d : Disk) (s : Runtime) (i : ℕ) : Runtime :=
  let e := s.cache.entry i
  if !e.resident || e.funcCount = 0 || e.indexedFuncCount ≠ e.funcCount || e.capacitySuppressed ||
      e.path ∈ s.loadedPaths then s
  else (loadOneDll d e.path none s).1

def loadBiosResidentShards (d : Disk) (s : Runtime) : Runtime :=
  (List.range s.cache.count).foldl (loadResident d) s

/-- The directories read again, with everything that they publish at once. -/
def Runtime.scanned (d : Disk) (s : Runtime) : Runtime :=
  let r := scanCacheDir d s.settings.abiTag s.mem s.cache
  loadBiosResidentShards d { s with mem := r.1, cache := r.2 }

/-- `overlay_loader_rescan` -/
def Runtime.rescan (d : Disk) (s : Runtime) : Runtime :=
  if !s.settings.loadsAllowed then s else (s.scanned d).invalidateLoader

/-- `overlay_loader_commit_published` -/
def Runtime.commitPublished (d : Disk) (path : Path) (image : Image) (s : Runtime) : Runtime :=
  if !s.settings.loadsAllowed then s
  else
    match d.published path with
    | none => s
    | some canon => if canon ∈ s.loadedPaths then s else (loadOneDll d canon (some image) s).1

end PsxRecomp.Overlays
