import PsxRecomp.Overlays.Loading

/-! The dispatch of a PC: the negative cache in front, the owner of a continuation, the chain of an entry, one
library loaded at most, and the events between two dispatches. -/
namespace PsxRecomp.Overlays
set_option autoImplicit false

/-! ## Dirty pages -/

/-- `phys_is_overlay_region` -/
def physIsOverlayRegion (st : Settings) (phys : Word) : Bool :=
  phys ≥ st.regionFloor || (phys ≥ kernelWindowEnd && phys < st.textImageLo)

/-- `dirty_ram_is_dirty` -/
def dirtyRamIsDirty (phys : Word) (s : Runtime) : Bool :=
  let phys := psxRamMapWrite s.mem.geometry phys
  if phys ≥ s.mem.geometry.size then false
  else if s.settings.forceInterp && phys ≥ kernelWindowEnd then true
  else if s.settings.shellwinInterp && phys ≥ 0x00030000 && phys ≤ 0x0005AFFF then true
  else physIsOverlayRegion s.settings phys || s.dirty (pageOf phys)

/-- `overlay_cache_window_contains` -/
def overlayCacheWindowContains (phys : Word) (s : Runtime) : Bool :=
  phys < kernelWindowEnd || phys ≥ s.settings.regionFloor || dirtyRamIsDirty phys s

/-! ## The negative cache -/

def missSlot (pc : Word) : ℕ := ((pc >>> (2 : ℕ)) &&& 16383).toNat

/-- `lazy_miss_cached` -/
def lazyMissCached (pc : Word) (s : Runtime) : Bool :=
  let e := s.miss (missSlot pc)
  e.pc = pc && e.codeGen = s.codeGen && e.watchedCodeGen = s.watchedCodeGen && e.loaderGen = s.loaderGen

/-- `lazy_miss_record` -/
def lazyMissRecord (pc : Word) (s : Runtime) : Runtime :=
  { s with miss := Function.update s.miss (missSlot pc) ⟨pc, s.codeGen, s.watchedCodeGen, s.loaderGen⟩ }

/-! ## Activations -/

def activeStackCap : ℕ := 64

/-- An activation begins; a full stack drops it. -/
def Activity.push (i : ℕ) (act : Activity) : Activity :=
  if act.depth < activeStackCap then ⟨Function.update act.stack act.depth i, act.depth + 1⟩ else act

/-- An activation returns. -/
def Activity.pop (act : Activity) : Activity := { act with depth := act.depth - 1 }

/-! ## One pass -/

inductive Pass where
  /-- A library was loaded: the candidates are tried again. -/
  | again
  | native (i : ℕ)
  /-- Left to the interpreter. -/
  | interp
  /-- Left to the interpreter without an owner. -/
  | missed
  deriving DecidableEq

/-- A candidate whose bytes are live, run unless something keeps it from native execution. -/
def runCandidate (i : ℕ) (blocked : Bool) (s : Runtime) : Runtime × Pass :=
  if (s.tab.cand i).deviceTouch || !s.settings.nativeExec || blocked then (s, .interp)
  else ({ s with act := s.act.push i }, .native i)

/-- The loop over the chain of an entry. -/
def runChain (seg : Word) : List ℕ → Runtime → Runtime × Option Pass
  | [], s => (s, none)
  | i :: is, s =>
    let c := s.tab.cand i
    if c.seg ≠ seg ∨ c.state = .blacklist then runChain seg is s
    else
      let r := c.judge s.mem
      let s := { s with tab := s.tab.setCand i r.1 }
      if r.2 then
        let q := runCandidate i (s.settings.nativeBlocked c.addr) s
        (q.1, some q.2)
      else runChain seg is s

def Runtime.findByRange (addr : Word) (s : Runtime) : Runtime × Option ℕ :=
  let r := overlayFindByRange s.mem (segOf addr) (physOf addr) s.tab
  ({ s with tab := r.1 }, r.2)

/-- The verdict on the owner of a continuation; a mismatch moves its generation sum only. -/
def Candidate.confirm (m : Memory) (c : Candidate) : Candidate × Bool :=
  let gen := ovRangesGensum m c.ranges
  if c.state = .valid ∧ gen = c.valGen then (c, true)
  else
    let matched := liveMatches m.geometry m.ram c.ranges c.crcCode
    ({ c with valGen := gen, state := if matched then .valid else c.state }, matched)

/-- The continuation of a registered function. -/
def resume (addr : Word) (owner : Option ℕ) (s : Runtime) : Runtime × Option Pass :=
  if !s.settings.cpsMode then (s, none)
  else
    let r := match owner with
      | some i => (s, some i)
      | none => s.findByRange addr
    match r.2 with
    | none => (r.1, none)
    | some i =>
      let c := r.1.tab.cand i
      let v := c.confirm r.1.mem
      let s := { r.1 with tab := r.1.tab.setCand i v.1 }
      if v.2 then
        let q := runCandidate i (s.settings.nativeBlocked c.addr || s.settings.nativeBlocked addr) s
        (q.1, some q.2)
      else (s, none)

/-- `lazy_has_exact_entry` -/
def lazyHasExactEntry (addr : Word) (c : Cache) : Bool :=
  (c.entryHead (lazyBucket (physOf addr))).any fun li => (c.man li).fn.entry = addr

structure Early where
  rt : Runtime
  owner : Option ℕ
  loaded : Bool

/-- A PC that is no entry of its segment: its owner, and a load where there is none or an entry is manifested. -/
def earlyLoad (lazyLoaded : Bool) (d : Disk) (addr : Word) (s : Runtime) : Early :=
  let r := if s.settings.cpsMode then s.findByRange addr else (s, none)
  let wanting := match r.2 with
    | none => true
    | some i => lazyHasExactEntry addr s.cache && (r.1.tab.cand i).deviceTouch
  if wanting && !lazyLoaded then
    let q := tryLoadRegion d (segOf addr) (physOf addr) r.1
    ⟨q.1, r.2, q.2⟩
  else ⟨r.1, r.2, false⟩

/-- The end of a pass without an owner: a load, else a miss. -/
def lateLoad (lazyLoaded : Bool) (d : Disk) (addr : Word) (s : Runtime) : Runtime × Pass :=
  if !overlayCacheWindowContains (physOf addr) s then (s, .missed)
  else
    let q := if lazyLoaded then (s, false) else tryLoadRegion d (segOf addr) (physOf addr) s
    if q.2 then (q.1, .again) else (lazyMissRecord addr q.1, .missed)

/-- The chain from the first candidate of the segment on. -/
def segChain (addr : Word) (t : Table) : List ℕ :=
  (t.chain (physOf addr)).dropWhile fun i => (t.cand i).seg ≠ segOf addr

def dispatchPass (lazyLoaded : Bool) (d : Disk) (addr : Word) (s : Runtime) : Runtime × Pass :=
  if segChain addr s.tab = [] then
    let e := if overlayCacheWindowContains (physOf addr) s then earlyLoad lazyLoaded d addr s else ⟨s, none, false⟩
    if e.loaded then (e.rt, .again)
    else
      let r := resume addr e.owner e.rt
      match r.2 with
      | some p => (r.1, p)
      | none => lateLoad lazyLoaded d addr r.1
  else
    let r := runChain (segOf addr) (segChain addr s.tab) s
    match r.2 with
    | some p => (r.1, p)
    | none => lateLoad lazyLoaded d addr r.1

/-- `overlay_loader_dispatch_seg` without its shortcut. -/
def dispatchUncut (d : Disk) (addr : Word) (s : Runtime) : Runtime × Pass :=
  if !codeSegment addr then (s, .interp)
  else
    let r := dispatchPass false d addr s
    if r.2 = .again then dispatchPass true d addr r.1 else r

/-- `overlay_loader_dispatch_seg` -/
def overlayLoaderDispatchSeg (d : Disk) (addr : Word) (s : Runtime) : Runtime × Pass :=
  if codeSegment addr && overlayCacheWindowContains (physOf addr) s && lazyMissCached addr s then (s, .interp)
  else dispatchUncut d addr s

/-! ## Stores and the dirty bitmap -/

/-- `dirty_ram_mark_kernel_write` -/
def markKernelWrite (phys : Word) (s : Runtime) : Runtime :=
  if phys ≥ kernelWindowEnd ∨ s.dirty (pageOf phys) then s
  else { s with dirty := Function.update s.dirty (pageOf phys) true, codeGen := s.codeGen + 1 }

/-- `overlay_watch_note_write` beyond the generation of the page. -/
def watchNoteWrite (phys size : Word) (s : Runtime) : Runtime :=
  if s.mem.noted phys then { s.noteCodeWrite with tab := activeWriteCheck s.act phys size s.tab } else s

/-- A guest store. -/
def Runtime.store (addr : Word) (bytes : List Byte) (s : Runtime) : Runtime :=
  let phys := psxRamMapWrite s.mem.geometry addr
  if phys < ramWindow then
    let s := watchNoteWrite phys (BitVec.ofNat 32 bytes.length) (markKernelWrite phys s)
    { s with mem := s.mem.write phys bytes }
  else s

/-- `dirty_ram_mark_executable_range` -/
def markExecutableRange (phys len : Word) (s : Runtime) : Runtime :=
  if len = 0 ∨ phys ≥ s.mem.geometry.size then s
  else { s with dirty := fun p => s.dirty p || decide (p ∈ watchPages s.mem.geometry phys len)
                codeGen := s.codeGen + 1 }

/-- `dirty_ram_set_bitmap_words` -/
def setBitmapWords (words : List Word) (s : Runtime) : Runtime :=
  let live := words.take (pageOf s.mem.geometry.size / 32)
  { s with dirty := fun p => (live.getD (p / 32) 0).getLsbD (p % 32), codeGen := s.codeGen + 1 }

/-- The pages that `dirty_ram_clear_image_baseline` takes for clean. -/
def imagePages (s : Runtime) : List ℕ :=
  let floor := if s.settings.regionFloor > s.mem.geometry.size then s.mem.geometry.size else s.settings.regionFloor
  let base := if s.settings.textImageLo < kernelWindowEnd then kernelWindowEnd else s.settings.textImageLo
  if s.settings.regionFloor ≤ kernelWindowEnd ∨ base ≥ floor then []
  else List.range' (pageOf base) (pageOf (floor - 1) + 1 - pageOf base)

/-- `dirty_ram_clear_image_baseline` -/
def clearImageBaseline (s : Runtime) : Runtime :=
  { s with dirty := fun p => s.dirty p && decide (p ∉ imagePages s) }

/-- `dirty_ram_reset_for_boot` -/
def resetForBoot (s : Runtime) : Runtime :=
  { s with mem := { s.mem with watch := fun _ => false, pageGen := fun _ => 0 }
           dirty := fun _ => false, codeGen := s.codeGen + 1 }

/-! ## Restores -/

/-- `overlay_loader_resync_validation_after_restore` -/
def Table.resync (t : Table) : Table :=
  { t with cand := fun i => { t.cand i with valGen := (t.cand i).valGen ^^^ 0x80000000 } }

/-- `overlay_watch_invalidate_after_ram_restore` -/
def invalidateAfterRamRestore (s : Runtime) : Runtime :=
  { s.noteCodeWrite with mem := { s.mem with pageGen := fun p => s.mem.pageGen p + 1 }, tab := s.tab.resync }

/-! ## Events -/

inductive Action where
  | dispatch (d : Disk) (addr : Word)
  /-- The innermost activation returns. -/
  | leave
  /-- The nesting is put back by the landing of a long jump. -/
  | setNesting (depth : ℕ)
  | store (addr : Word) (bytes : List Byte)
  | markExecutable (phys len : Word)
  | setBitmap (words : List Word)
  | clearBaseline
  | resetForBoot
  | publish (d : Disk) (path : Path) (image : Image)
  | rescan (d : Disk)
  | clearMisses
  /-- RAM is copied back without a note. -/
  | copyRam (ram : Ram)
  | invalidate

/-- `overlay_loader_set_native_nesting` -/
def Activity.setDepth (depth : ℕ) (act : Activity) : Activity :=
  if depth ≤ activeStackCap then { act with depth := depth } else act

def Runtime.step (s : Runtime) : Action → Runtime
  | .dispatch d addr => (overlayLoaderDispatchSeg d addr s).1
  | .leave => { s with act := s.act.pop }
  | .setNesting depth => { s with act := s.act.setDepth depth }
  | .store addr bytes => s.store addr bytes
  | .markExecutable phys len => markExecutableRange phys len s
  | .setBitmap words => setBitmapWords words s
  | .clearBaseline => clearImageBaseline s
  | .resetForBoot => resetForBoot s
  | .publish d path image => s.commitPublished d path image
  | .rescan d => s.rescan d
  | .clearMisses => s.invalidateLoader
  | .copyRam ram => { s with mem := { s.mem with ram := ram } }
  | .invalidate => invalidateAfterRamRestore s

/-- What `overlay_loader_init` leaves. -/
def Runtime.start (st : Settings) (m : Memory) (dirty : ℕ → Bool) (d : Disk) : Runtime :=
  Runtime.scanned d
    { settings := st, mem := m, tab := .init, act := ⟨fun _ => 0, 0⟩, cache := .init, loadedPaths := [], ndlls := 0
      pairs := [], miss := noMisses, loaderGen := 1, watchedCodeGen := 1, codeGen := 1, dirty := dirty }

end PsxRecomp.Overlays
