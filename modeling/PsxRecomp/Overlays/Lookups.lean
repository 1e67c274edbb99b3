import PsxRecomp.Overlays.Tables

/-! Runs of registrations, stores and lookups: the cached lookup answers what the scan would. -/
namespace PsxRecomp.Overlays
set_option autoImplicit false

structure Loader where
  mem : Memory
  tab : Table
  act : Activity

/-- A guest store, with the notes it leaves when it lands in RAM. -/
def Loader.store (addr : Word) (bytes : List Byte) (l : Loader) : Loader :=
  let phys := psxRamMapWrite l.mem.geometry addr
  if phys < ramWindow then
    { l with
      mem := l.mem.write phys bytes
      tab := if l.mem.noted phys then activeWriteCheck l.act phys (BitVec.ofNat 32 bytes.length) l.tab else l.tab }
  else l

def Loader.register (man : ManFn) (dll : ℕ) (tier : Byte) (l : Loader) : Loader :=
  let r := (candRegister (man.entry &&& 0x1FFFFFFF) man dll tier l.mem l.tab).1
  { l with mem := r.1, tab := r.2 }

def Loader.lookup (addr : Word) (l : Loader) : Loader × Option ℕ :=
  let r := overlayFindByRange l.mem (segOf addr) (physOf addr) l.tab
  ({ l with tab := r.1 }, r.2)

/-! ## The invariant -/

structure Sound (m : Memory) (t : Table) : Prop where
  formed : Formed t
  judged : AllJudged m t
  watched : ∀ i < t.candN, ∀ p ∈ pagesUnder m.geometry (t.cand i).ranges, m.watch p = true
  settled : ∀ addr, Settled m t (segOf addr) (physOf addr)

theorem sound_init (m : Memory) : Sound m Table.init where
  formed := formed_init
  judged i hi := absurd hi (Nat.not_lt_zero i)
  watched i hi := absurd hi (Nat.not_lt_zero i)
  settled addr w hw := absurd hw.cand (by simp [Table.init])

section Invariant

variable {m : Memory} {t t' : Table}

theorem Sound.looked (h : Sound m t) (hl : Looked m t t') : Sound m t' where
  formed := h.formed.kin hl.kin hl.pcCache
  judged := hl.judged
  watched i hi p hp := by
    rw [hl.kin.candN] at hi
    rw [(hl.kin.cand i).ranges] at hp
    exact h.watched i hi p hp
  settled addr w hw ho j hj := by
    rw [hl.kin.owner] at ho hj
    rw [hl.kin.beats]
    refine h.settled addr w ⟨?_, ?_, ?_⟩ ho j hj
    · exact hl.pcCache ▸ hw.cand
    · exact hl.pcCache ▸ hl.kin.generation ▸ hw.generation
    · exact hl.pcCache ▸ hw.key

/-- A slot filled with the answer of a scan. -/
theorem Sound.setSlot (h : Sound m t) (addr : Word) {r : Option ℕ} (ha : Answer m t (segOf addr) (physOf addr) r) :
    Sound m (t.setSlot (pcSlot (segOf addr ||| physOf addr)) ⟨segOf addr ||| physOf addr, t.generation, r⟩) where
  formed := by
    refine h.formed.setSlot _ _ fun i hi => ?_
    subst hi
    exact ha.1.known
  judged := h.judged
  watched := h.watched
  settled addr' w hw ho j hj := by
    by_cases hk : pcSlot (segOf addr' ||| physOf addr') = pcSlot (segOf addr ||| physOf addr)
    · have hkey := hw.key
      have hcand := hw.cand
      simp only [Table.setSlot, hk, Function.update_self] at hkey hcand
      rw [addr_split, addr_split] at hkey
      subst hkey
      subst hcand
      by_cases hjw : j = w
      · subst hjw
        exact fun hb => hb.asymm hb
      · exact (ha.2 j ⟨hj.known, hj.listed, hj.spans, hj.live⟩ hjw).asymm
    · refine h.settled addr' w ⟨?_, ?_, ?_⟩ ⟨ho.known, ho.listed, ho.spans, ho.live⟩ j
        ⟨hj.known, hj.listed, hj.spans, hj.live⟩
      · simpa [Table.setSlot, hk] using hw.cand
      · simpa [Table.setSlot, hk] using hw.generation
      · simpa [Table.setSlot, hk] using hw.key

/-- The cached lookup answers the scan. -/
theorem lookup_sound (h : Sound m t) (addr : Word) :
    Answer m t (segOf addr) (physOf addr) (overlayFindByRange m (segOf addr) (physOf addr) t).2 ∧
      Sound m (overlayFindByRange m (segOf addr) (physOf addr) t).1 := by
  have hscan : ∀ t', Looked m t t' → Answer m t (segOf addr) (physOf addr)
        (findUncached m (segOf addr) (physOf addr) t').2 ∧
      Sound m (findUncached m (segOf addr) (physOf addr) t').1 := by
    intro t' hl
    have hs' := h.looked hl
    obtain ⟨hans, r, hr, htab⟩ :=
      findUncached_spec (segOf addr) (physOf addr) hs'.judged hs'.formed.indexed
    refine ⟨hl.kin.answer.1 hans, ?_⟩
    rw [htab, ← hr.kin.generation]
    exact (hs'.looked hr).setSlot addr (hr.kin.answer.2 hans)
  unfold overlayFindByRange
  split
  · next hpage =>
    refine ⟨fun i ho => ?_, h⟩
    have hin := h.formed.inside i ho.known _ _ ho.spans
    omega
  · dsimp only
    split
    · exact hscan t ⟨.refl t, rfl, h.judged⟩
    · next w hw =>
      split
      · next htrust =>
        have hknown := h.formed.slotKnown _ w hw
        obtain ⟨hmatch, hlooked⟩ := matches_spec (segOf addr) (physOf addr) h.judged hknown
        split
        · next hyes =>
          exact ⟨(h.settled addr).answer ⟨hw, htrust.1, htrust.2⟩ (hmatch.1 hyes), h.looked hlooked⟩
        · exact hscan _ hlooked
      · exact hscan t ⟨.refl t, rfl, h.judged⟩

theorem Judged.watch {c : Candidate} (h : Judged m c) (ranges : List CodeRange) :
    Judged (ovRangesWatch ranges m) c := by
  obtain ⟨hg, hram, -, -⟩ := watch_eq m ranges
  intro hlisted hgen
  rw [watch_same] at hgen
  rw [hg, hram]
  exact h hlisted hgen

/-- A new candidate is judged as it is entered. -/
theorem newCandidate_judged (m : Memory) (phys : Word) (man : ManFn) (dll : ℕ) (tier : Byte) :
    Judged m (newCandidate m phys man dll tier) := by
  intro _ _
  show liveState _ _ _ = EntryState.valid ↔ _
  unfold liveState
  split
  · next hlive => exact iff_of_true rfl hlive
  · next hno => exact iff_of_false (by decide) hno

theorem register_sound (h : Sound m t) (phys : Word) (man : ManFn) (dll : ℕ) (tier : Byte) :
    Sound (candRegister phys man dll tier m t).1.1 (candRegister phys man dll tier m t).1.2 := by
  rcases candRegister_cases phys man dll tier m t with hno | ⟨hroom, c, hc, hbounded, hyes⟩
  · rw [hno]
    exact h
  · rw [hyes]
    obtain ⟨hg, -, -, hwatch⟩ := watch_eq m ((man.ranges.take maxCodeRanges).map stripSegment)
    have hranges : c.ranges = (man.ranges.take maxCodeRanges).map stripSegment := by
      rw [hc]
      rfl
    refine ⟨h.formed.enter hroom hbounded, fun i hi => ?_, fun i hi p hp => ?_, fun addr w hw => ?_⟩
    · rcases Nat.lt_succ_iff_lt_or_eq.1 hi with hlt | heq
      · rw [enter_old c hlt]
        exact (h.judged i hlt).watch _
      · subst heq
        rw [enter_new, hc]
        exact newCandidate_judged _ phys man dll tier
    · rw [hg] at hp
      rw [hwatch]
      rcases Nat.lt_succ_iff_lt_or_eq.1 hi with hlt | heq
      · rw [enter_old c hlt] at hp
        rw [h.watched i hlt p hp, Bool.true_or]
      · subst heq
        rw [enter_new, hranges] at hp
        rw [decide_eq_true hp, Bool.or_true]
    · have hslot := h.formed.slots (pcSlot (segOf addr ||| physOf addr))
      have hgen := hw.generation
      rw [enter_pcCache] at hgen
      rw [hgen, h.formed.enter_generation hroom c] at hslot
      omega

end Invariant

/-! ## Stores -/

/-- A store that the cached lookups see: it stays in its page, its note does not bring a generation sum round to
the value a verdict was reached at, and it makes no candidate match that is preferred to a cached owner that
matches too. -/
structure Loader.Seen (l : Loader) (addr : Word) (bytes : List Byte) : Prop where
  within : (psxRamMapWrite l.mem.geometry addr).toNat % 4096 + bytes.length ≤ 4096
  unwrapped : ∀ i < l.tab.candN, (l.tab.cand i).state ≠ .blacklist →
    pageOf (psxRamMapWrite l.mem.geometry addr) ∈ pagesUnder l.mem.geometry (l.tab.cand i).ranges →
    l.mem.noted (psxRamMapWrite l.mem.geometry addr) = true →
    ovRangesGensum (l.store addr bytes).mem (l.tab.cand i).ranges ≠ (l.tab.cand i).valGen
  settled : ∀ pc, Settled (l.store addr bytes).mem (l.store addr bytes).tab (segOf pc) (physOf pc)

/-- A store meets no page that is left unwatched under a candidate. -/
theorem Sound.noted {m : Memory} {t : Table} (h : Sound m t) {i : ℕ} (hi : i < t.candN) {phys : Word}
    (hp : pageOf phys ∈ pagesUnder m.geometry (t.cand i).ranges) : m.noted phys = true := by
  have hlive : pageOf phys < pageOf m.geometry.size := by
    obtain ⟨r, hr, hpage⟩ := List.mem_flatMap.1 hp
    exact page_inside hpage
  rw [Memory.noted, h.watched i hi _ hp, decide_eq_true hlive]
  rfl

theorem store_sound {l : Loader} (h : Sound l.mem l.tab) {addr : Word} {bytes : List Byte} (hseen : l.Seen addr bytes) :
    Sound (l.store addr bytes).mem (l.store addr bytes).tab := by
  obtain ⟨hwithin, hunwrapped, hsettled⟩ := hseen
  unfold Loader.store at hunwrapped hsettled ⊢
  dsimp only at hunwrapped hsettled ⊢
  generalize psxRamMapWrite l.mem.geometry addr = phys at *
  split at hunwrapped
  · next hram =>
    rw [if_pos hram] at hsettled ⊢
    dsimp only at hunwrapped hsettled ⊢
    generalize htab : (if l.mem.noted phys then activeWriteCheck l.act phys (BitVec.ofNat 32 bytes.length) l.tab
      else l.tab) = tab at hsettled ⊢
    have hblack : Blacklisted l.tab tab := by
      rw [← htab]
      split
      · exact activeWriteCheck_blacklisted _ _ _ _
      · exact .refl _
    refine ⟨h.formed.blacklisted hblack, fun i hi hlisted hgen => ?_, fun i hi p hp => ?_, hsettled⟩
    · rw [hblack.candN] at hi
      have hsame := hblack.same hlisted
      rw [hsame] at hlisted hgen ⊢
      by_cases hpage : pageOf phys ∈ pagesUnder l.mem.geometry (l.tab.cand i).ranges
      · exact absurd hgen (hunwrapped i hi hlisted hpage (h.noted hi hpage))
      · rw [write_gensum hpage] at hgen
        rw [write_geometry, ← liveMatches_congr (write_elsewhere hwithin hpage)]
        exact h.judged i hi hlisted hgen
    · rw [hblack.candN] at hi
      rw [write_geometry, hblack.ranges] at hp
      rw [write_watch]
      exact h.watched i hi p hp
  · next hno =>
    rw [if_neg hno]
    exact h

/-- A store to a page that is not watched lies under no candidate. -/
theorem seen_unwatched {l : Loader} (h : Sound l.mem l.tab) (addr : Word) (bytes : List Byte)
    (hwithin : (psxRamMapWrite l.mem.geometry addr).toNat % 4096 + bytes.length ≤ 4096)
    (hno : l.mem.noted (psxRamMapWrite l.mem.geometry addr) = false) : l.Seen addr bytes := by
  refine ⟨hwithin, fun i _ _ _ hyes => absurd (hno.symm.trans hyes) (by decide), fun pc w hw ho j hj => ?_⟩
  have hsame : (l.store addr bytes).tab = l.tab := by
    unfold Loader.store
    dsimp only
    rw [hno]
    split <;> rfl
  have howner : ∀ i, Owner (l.store addr bytes).mem (l.store addr bytes).tab (segOf pc) (physOf pc) i →
      Owner l.mem l.tab (segOf pc) (physOf pc) i := by
    rw [hsame]
    rintro i ⟨hknown, hlisted, hspans, hlive⟩
    refine ⟨hknown, hlisted, hspans, ?_⟩
    unfold Loader.store at hlive
    dsimp only at hlive
    split at hlive
    · have hpage : pageOf (psxRamMapWrite l.mem.geometry addr) ∉ pagesUnder l.mem.geometry (l.tab.cand i).ranges :=
        fun hp => absurd (hno.symm.trans (h.noted hknown hp)) (by decide)
      rw [liveMatches_congr (write_elsewhere hwithin hpage)]
      rwa [write_geometry] at hlive
    · exact hlive
  rw [hsame] at hw ⊢
  exact h.settled pc w hw (howner w ho) j (howner j hj)

/-! ## Runs -/

inductive Event where
  | register (man : ManFn) (dll : ℕ) (tier : Byte)
  | store (addr : Word) (bytes : List Byte)
  | lookup (addr : Word)
  /-- Native code is entered or left. -/
  | nest (act : Activity)

def Loader.step (l : Loader) : Event → Loader
  | .register man dll tier => l.register man dll tier
  | .store addr bytes => l.store addr bytes
  | .lookup addr => (l.lookup addr).1
  | .nest act => { l with act := act }

def Loader.run (l : Loader) (es : List Event) : Loader := es.foldl Loader.step l

/-- Every store of the run is one that the lookups see. -/
def Loader.AllSeen (l : Loader) : List Event → Prop
  | [] => True
  | e :: es => (∀ addr bytes, e = .store addr bytes → l.Seen addr bytes) ∧ (l.step e).AllSeen es

theorem step_sound {l : Loader} (h : Sound l.mem l.tab) {e : Event}
    (hseen : ∀ addr bytes, e = .store addr bytes → l.Seen addr bytes) : Sound (l.step e).mem (l.step e).tab := by
  cases e with
  | register man dll tier => exact register_sound h _ man dll tier
  | store addr bytes => exact store_sound h (hseen addr bytes rfl)
  | lookup addr => exact (lookup_sound h addr).2
  | nest act => exact h

theorem run_sound {l : Loader} (h : Sound l.mem l.tab) (es : List Event) (hseen : l.AllSeen es) :
    Sound (l.run es).mem (l.run es).tab := by
  induction es generalizing l with
  | nil => exact h
  | cons e es ih => exact ih (step_sound h hseen.1) hseen.2

/-- The continuation owner lookup is transparent: after any run of registrations, stores and lookups that it sees
it answers what a scan of all candidates without any cache answers. -/
theorem find_by_range_transparent {l : Loader} (hnew : l.tab = .init) (es : List Event) (h : l.AllSeen es)
    (addr : Word) : Answer (l.run es).mem (l.run es).tab (segOf addr) (physOf addr) ((l.run es).lookup addr).2 := by
  have hsound : Sound l.mem l.tab := hnew ▸ sound_init l.mem
  exact (lookup_sound (run_sound hsound es h) addr).1

/-- Retail RAM full of zeros. -/
def blankMemory : Memory := ⟨.retail, fun _ => 0, fun _ => false, fun _ => 0⟩

def idleLoader : Loader := ⟨blankMemory, .init, ⟨fun _ => 0, 0⟩⟩

/-- A function compiled from what a memory holds. -/
def compiled (ram : Ram) (entry len : Word) : ManFn where
  entry := entry
  crc := (ovRangesCrc .retail ram [⟨entry, len⟩]).getD 0
  hasCrc := true
  ranges := [⟨entry, len⟩]

/-- One word of zeros at `80001000`, then the same with a second word that is not there yet. -/
def twoOwners : List Event :=
  [.register (compiled (fun _ => 0) 0x80001000 4) 0 2,
    .register (compiled (fun a => if a = 0x1004 then 1 else 0) 0x80001000 8) 1 2]

/-- A lookup, a store beside both, and one to the first word of both. -/
def firstWord : List Event :=
  twoOwners ++ [.lookup 0x80001000, .store 0x80009000 [1], .store 0x80001000 [1]]

def lookedUp : Loader := idleLoader.run (twoOwners ++ [.lookup 0x80001000, .store 0x80009000 [1]])

set_option maxRecDepth 4000 in
/-- Neither matches what the store leaves. -/
theorem firstWord_unowned (seg phys : Word) (i : ℕ) :
    ¬Owner (lookedUp.store 0x80001000 [1]).mem (lookedUp.store 0x80001000 [1]).tab seg phys i := by
  have hknown : (lookedUp.store 0x80001000 [1]).tab.candN = 2 := by decide
  have hlive : ∀ i < 2, liveMatches (lookedUp.store 0x80001000 [1]).mem.geometry
      (lookedUp.store 0x80001000 [1]).mem.ram ((lookedUp.store 0x80001000 [1]).tab.cand i).ranges
      ((lookedUp.store 0x80001000 [1]).tab.cand i).crcCode = false := by decide
  intro h
  exact absurd ((hlive i (hknown ▸ h.known)).symm.trans h.live) (by decide)

set_option maxRecDepth 4000 in
theorem firstWord_seen : idleLoader.AllSeen firstWord := by
  have hsound := run_sound (sound_init blankMemory) (l := idleLoader) (twoOwners ++ [.lookup 0x80001000])
    (by simp [Loader.AllSeen, twoOwners])
  have hbeside := seen_unwatched hsound 0x80009000 [1] (by decide) (by decide)
  have hfirst : lookedUp.Seen 0x80001000 [1] := by
    refine ⟨by decide, ?_, fun pc w _ ho => absurd ho (firstWord_unowned _ _ w)⟩
    have hknown : lookedUp.tab.candN = 2 := by decide
    have hmoved : ∀ i < 2, ovRangesGensum (lookedUp.store 0x80001000 [1]).mem (lookedUp.tab.cand i).ranges ≠
        (lookedUp.tab.cand i).valGen := by decide
    exact fun i hi _ _ _ => hmoved i (hknown ▸ hi)
  refine ⟨by simp, by simp, by simp, fun addr bytes he => ?_, fun addr bytes he => ?_, trivial⟩
  · obtain ⟨rfl, rfl⟩ := Event.store.inj he
    exact hbeside
  · obtain ⟨rfl, rfl⟩ := Event.store.inj he
    exact hfirst

/-- The cached owner is not returned once its bytes have changed. -/
theorem find_by_range_transparent_changed : ((idleLoader.run firstWord).lookup 0x80001000).2 = none := by
  have h := find_by_range_transparent (l := idleLoader) rfl firstWord firstWord_seen
  have hnone := firstWord_unowned
  rw [show lookedUp.store 0x80001000 [1] = idleLoader.run firstWord from rfl] at hnone
  generalize idleLoader.run firstWord = l at h hnone ⊢
  specialize h 0x80001000
  cases hanswer : (l.lookup 0x80001000).2 with
  | none => rfl
  | some i =>
    rw [hanswer] at h
    exact absurd h.1 (hnone _ _ i)

/-- A lookup, then the second word of the newer owner. -/
def secondWord : List Event := twoOwners ++ [.lookup 0x80001000, .store 0x80001004 [1]]

set_option maxRecDepth 4000 in
/-- Both match, the newer is preferred, and the older is still returned from its slot. -/
theorem cached_owner_outlives :
    ¬Answer (idleLoader.run secondWord).mem (idleLoader.run secondWord).tab (segOf 0x80001000) (physOf 0x80001000)
      ((idleLoader.run secondWord).lookup 0x80001000).2 := by
  have hold : ((idleLoader.run secondWord).lookup 0x80001000).2 = some 0 := by
    decide
  have hnew : Owner (idleLoader.run secondWord).mem (idleLoader.run secondWord).tab (segOf 0x80001000)
      (physOf 0x80001000) 1 := by
    constructor <;> decide
  have htier : ((idleLoader.run secondWord).tab.cand 0).tier = ((idleLoader.run secondWord).tab.cand 1).tier := by
    decide
  rw [hold]
  generalize idleLoader.run secondWord = l at hnew htier ⊢
  intro h
  have hbeaten := h.2 1 hnew (by decide)
  exact hbeaten.asymm (Or.inr ⟨htier, by decide⟩)

end PsxRecomp.Overlays
