import Mathlib
import PsxRecomp.Library.LinkedPath
import PsxRecomp.MemoryCard.Format

/-! What a card without errors looks like. The chain of a head frame is the path of its next
pointers, so it depends on its own frames only; a scan meets no error exactly when the heads are
sound, claim different blocks, and have different names. -/
namespace PsxRecomp.MemoryCard
open LinkedPath MemoryEdit
set_option autoImplicit false

/-! ## Threads of blocks -/

def successor (p : Pointer) (b : ℕ) : Option ℕ :=
  if nextPointer p b = 0xffff then none else some (nextPointer p b + 1)

/-- A frame that a chain may pass, at its head or behind it. -/
structure Linked (p : Pointer) (first : Prop) (b : ℕ) : Prop where
  low : 1 ≤ b
  high : b ≤ 15
  next : nextPointer p b = 0xffff ∨ nextPointer p b ≤ 14
  headState : first → state p b = 0x51
  tailState : ¬first → state p b = continuationState (nextPointer p b)

/-- The blocks of a chain in order. -/
structure Threaded (p : Pointer) (first : Prop) (b : ℕ) (L : List ℕ) : Prop where
  path : IsPath (successor p) b L
  nodup : L.Nodup
  head : Linked p first b
  tail : ∀ d ∈ L.tail, Linked p False d

section Walk
variable {p : Pointer} {c c' : Chain} {b : ℕ} {L : List ℕ} {first : Prop}

theorem threaded_last (hend : nextPointer p b = 0xffff) :
    Threaded p first b L ↔ Linked p first b ∧ L = [b] := by
  have hnone : successor p b = none := if_pos hend
  constructor
  · intro h
    exact ⟨h.head, (isPath_end hnone).mp h.path⟩
  · rintro ⟨hhead, rfl⟩
    exact ⟨(isPath_end hnone).mpr rfl, List.nodup_singleton b, hhead, by simp⟩

theorem threaded_more (hmore : nextPointer p b ≠ 0xffff) :
    Threaded p first b L ↔ Linked p first b ∧ ∃ rest, L = b :: rest ∧ b ∉ rest ∧
      Threaded p False (nextPointer p b + 1) rest := by
  have hstep : successor p b = some (nextPointer p b + 1) := if_neg hmore
  constructor
  · intro h
    obtain ⟨rest, rfl, hpath⟩ := (isPath_step hstep).mp h.path
    obtain ⟨hfresh, hnodup⟩ := List.nodup_cons.mp h.nodup
    refine ⟨h.head, rest, rfl, hfresh, hpath, hnodup, h.tail _ hpath.start_mem, fun d hd => ?_⟩
    exact h.tail d (List.mem_of_mem_tail hd)
  · rintro ⟨hhead, rest, rfl, hfresh, hrest⟩
    refine ⟨(isPath_step hstep).mpr ⟨rest, rfl, hrest.path⟩,
      List.nodup_cons.mpr ⟨hfresh, hrest.nodup⟩, hhead, fun d hd => ?_⟩
    cases rest with
    | nil => simp at hd
    | cons d' rest =>
      rcases List.mem_cons.mp hd with rfl | hd
      · exact hrest.path.head_eq ▸ hrest.head
      · exact hrest.tail d hd

theorem chainPass_linked (hfresh : c.block ∉ c.owned) (hlink : Linked p (c.blocks = []) c.block) :
    chainPass p c = if nextPointer p c.block = 0xffff then .done (c.claim p)
      else .more { c.claim p with block := nextPointer p c.block + 1 } := by
  obtain ⟨hlow, hhigh, hnext, hhead, htail⟩ := hlink
  unfold chainPass
  rw [if_neg (by push Not; exact ⟨hlow, hhigh, hfresh⟩), if_neg (by push Not; exact hhead),
    if_neg (by push Not; exact htail)]
  split_ifs with hend hfar
  · rfl
  · omega
  · rfl

theorem chainPass_thrown (h : c.block ∈ c.owned ∨ ¬Linked p (c.blocks = []) c.block) :
    ∃ owned what, chainPass p c = .thrown owned what := by
  unfold chainPass
  split_ifs with hclaimed hhead htail hend hfar
  · exact ⟨_, _, rfl⟩
  · exact ⟨_, _, rfl⟩
  · exact ⟨_, _, rfl⟩
  · push Not at hclaimed hhead htail
    obtain ⟨hlow, hhigh, hfresh⟩ := hclaimed
    exact absurd ⟨hlow, hhigh, Or.inl hend, hhead, htail⟩ (h.resolve_left hfresh)
  · exact ⟨_, _, rfl⟩
  · push Not at hclaimed hhead htail
    obtain ⟨hlow, hhigh, hfresh⟩ := hclaimed
    exact absurd ⟨hlow, hhigh, Or.inr (by omega), hhead, htail⟩ (h.resolve_left hfresh)

theorem chainPass_sound (h : ∀ owned what, chainPass p c ≠ .thrown owned what) :
    c.block ∉ c.owned ∧ Linked p (c.blocks = []) c.block := by
  by_contra hbad
  rw [not_and_or, not_not] at hbad
  obtain ⟨owned, what, hthrown⟩ := chainPass_thrown hbad
  exact h owned what hthrown

/-- What the walk leaves when it has taken the blocks `L`. -/
structure Walked (p : Pointer) (c : Chain) (L : List ℕ) (owned : Finset ℕ) (c' : Chain) : Prop where
  owned : owned = c.owned ∪ L.toFinset
  blocks : c'.blocks = c.blocks ++ L
  data : c'.data = c.data ++ L.flatMap (blockData p)

theorem claim_blocks_ne_nil : ((c.claim p).blocks = []) = False := by
  simp [Chain.claim]

theorem Walked.more {rest : List ℕ} {owned : Finset ℕ} {n : ℕ}
    (h : Walked p { c.claim p with block := n } rest owned c') :
    Walked p c (c.block :: rest) owned c' := by
  obtain ⟨howned, hblocks, hdata⟩ := h
  refine ⟨?_, ?_, ?_⟩
  · rw [howned, List.toFinset_cons]
    ext d
    simp only [Chain.claim, Finset.mem_union, Finset.mem_insert]
    tauto
  · rw [hblocks]
    simp [Chain.claim]
  · rw [hdata]
    simp [Chain.claim]

theorem Walked.last : Walked p c [c.block] (c.claim p).owned (c.claim p) := by
  refine ⟨?_, rfl, ?_⟩
  · ext d
    simp only [Chain.claim, Finset.mem_union, Finset.mem_insert, List.toFinset_cons,
      List.toFinset_nil, Finset.notMem_empty]
    tauto
  · simp [Chain.claim]

/-- A walk that ends without an exception took a chain of blocks nobody had claimed. -/
theorem walk_sound (owned : Finset ℕ) (h : walk p c = (owned, .ok c')) :
    ∃ L, Threaded p (c.blocks = []) c.block L ∧ (∀ b ∈ L, b ∉ c.owned) ∧ Walked p c L owned c' := by
  induction c using walk.induct p with
  | case1 c owned' what hpass =>
    rw [walk, hpass] at h
    cases h
  | case2 c last hpass =>
    rw [walk, hpass] at h
    have hsound := chainPass_sound (p := p) (c := c) (by rw [hpass]; nofun)
    rw [chainPass_linked hsound.1 hsound.2] at hpass
    split_ifs at hpass with hend
    obtain rfl := Pass.done.inj hpass
    simp only [Prod.mk.injEq, Except.ok.injEq] at h
    obtain ⟨rfl, rfl⟩ := h
    refine ⟨[c.block], (threaded_last hend).mpr ⟨hsound.2, rfl⟩, ?_, Walked.last⟩
    simpa using hsound.1
  | case3 c next hpass ih =>
    rw [walk, hpass] at h
    obtain ⟨rest, hthread, hunowned, hwalked⟩ := ih h
    have hsound := chainPass_sound (p := p) (c := c) (by rw [hpass]; nofun)
    rw [chainPass_linked hsound.1 hsound.2] at hpass
    split_ifs at hpass with hend
    obtain rfl := Pass.more.inj hpass
    have hfresh : ∀ d ∈ rest, d ∉ c.owned ∧ d ≠ c.block := by
      intro d hd
      have hd' := hunowned d hd
      simp only [Chain.claim, Finset.mem_insert, not_or] at hd'
      exact ⟨hd'.2, hd'.1⟩
    refine ⟨c.block :: rest, (threaded_more hend).mpr ⟨hsound.2, rest, rfl, ?_, ?_⟩, ?_, hwalked.more⟩
    · exact fun hmem => (hfresh _ hmem).2 rfl
    · rwa [claim_blocks_ne_nil] at hthread
    · intro d hd
      rcases List.mem_cons.mp hd with rfl | hd
      · exact hsound.1
      · exact (hfresh d hd).1

/-- A chain of unclaimed blocks is walked to its end. -/
theorem walk_complete (hthread : Threaded p (c.blocks = []) c.block L)
    (hunowned : ∀ b ∈ L, b ∉ c.owned) :
    ∃ c', walk p c = (c.owned ∪ L.toFinset, .ok c') ∧ Walked p c L (c.owned ∪ L.toFinset) c' := by
  induction L generalizing c with
  | nil => exact absurd hthread.path not_isPath_nil
  | cons b rest ih =>
    obtain rfl := hthread.path.head_eq
    have hpass := chainPass_linked (hunowned _ List.mem_cons_self) hthread.head
    by_cases hend : nextPointer p c.block = 0xffff
    · rw [if_pos hend] at hpass
      obtain ⟨-, hlast⟩ := (threaded_last hend).mp hthread
      obtain rfl : rest = [] := by simpa using hlast
      have hwalked : Walked p c [c.block] (c.claim p).owned (c.claim p) := Walked.last
      refine ⟨c.claim p, ?_, hwalked.owned ▸ hwalked⟩
      rw [walk, hpass, ← hwalked.owned]
    · rw [if_neg hend] at hpass
      obtain ⟨-, rest', hrest, hfresh, htail⟩ := (threaded_more hend).mp hthread
      obtain ⟨-, rfl⟩ := List.cons.inj hrest
      obtain ⟨c', hwalk, hwalked⟩ := ih (c := { c.claim p with block := nextPointer p c.block + 1 })
        (by rwa [claim_blocks_ne_nil]) (fun d hd => by
          simp only [Chain.claim, Finset.mem_insert, not_or]
          exact ⟨fun heq => hfresh (heq ▸ hd), hunowned d (List.mem_cons_of_mem _ hd)⟩)
      have hmore := hwalked.more
      refine ⟨c', ?_, hmore.owned ▸ hmore⟩
      rw [walk, hpass, ← hmore.owned]
      exact hwalk

end Walk

/-! ## One head -/

/-- The blocks of the chain of a head, followed alone. -/
def chainOf (p : Pointer) (head : ℕ) : List ℕ :=
  match (walk p (startChain ∅ head)).2 with
  | .ok c => c.blocks
  | .error _ => []

def chainData (p : Pointer) (head : ℕ) : Bytes := (chainOf p head).flatMap (blockData p)

def nameAt (p : Pointer) (head : ℕ) : Bytes := nameField (frame p head)

/-- A head that can be read when nothing else is on the card. -/
structure HeadSound (p : Pointer) (head : ℕ) : Prop where
  chain : Threaded p True head (chainOf p head)
  name : filename (frame p head) = .ok (nameAt p head)
  size : u32 (shift (frame p head) 4) = (chainData p head).length
  header : presentable (chainData p head) = true

def saveAt (p : Pointer) (head : ℕ) : Save :=
  presented (freshSave p head (nameAt p head) (chainOf p head) (chainData p head))

section Head
variable {p : Pointer} {head : ℕ} {L : List ℕ}

/-- A chain does not depend on what else was claimed. -/
theorem chainOf_eq (h : Threaded p True head L) : chainOf p head = L := by
  have hstart : Threaded p ((startChain ∅ head).blocks = []) (startChain ∅ head).block L := by
    rwa [show ((startChain ∅ head).blocks = []) = True from eq_true rfl]
  obtain ⟨c, hwalk, hwalked⟩ := walk_complete hstart (fun b _ => Finset.notMem_empty b)
  rw [chainOf, hwalk]
  exact hwalked.blocks

@[simp] theorem blockData_length (b : ℕ) : (blockData p b).length = blockSize := by
  rw [blockData, bytesOf, List.length_map, List.length_range]

theorem chainData_length : (chainData p head).length = blockSize * (chainOf p head).length := by
  rw [chainData, List.length_flatMap]
  simp [Nat.mul_comm]

theorem filename_ok {name : Bytes} (h : filename p = .ok name) : name = nameField p := by
  unfold filename at h
  dsimp only at h
  split_ifs at h
  exact (Except.ok.inj h).symm

theorem Threaded.mem_slots (h : Threaded p True head L) : ∀ b ∈ L, 1 ≤ b ∧ b ≤ 15 := by
  intro b hb
  cases L with
  | nil => simp at hb
  | cons d L =>
    rcases List.mem_cons.mp hb with rfl | hb
    · exact h.path.head_eq ▸ ⟨h.head.low, h.head.high⟩
    · exact ⟨(h.tail b hb).low, (h.tail b hb).high⟩

theorem Threaded.length_le (h : Threaded p True head L) : 1 ≤ L.length ∧ L.length ≤ 15 := by
  have hsub : L.toFinset ⊆ Finset.Icc 1 15 := by
    intro b hb
    exact Finset.mem_Icc.mpr (h.mem_slots b (List.mem_toFinset.mp hb))
  have hcard := Finset.card_le_card hsub
  rw [List.toFinset_card_of_nodup h.nodup, Nat.card_Icc] at hcard
  exact ⟨List.length_pos_of_ne_nil h.path.ne_nil, hcard⟩

theorem presentation_ok {s s' : Save} :
    presentation s = .ok s' ↔ presentable s.data = true ∧ s' = presented s := by
  unfold presentation
  split_ifs with h
  · simp [h]
  · simp only [Except.ok.injEq]
    exact ⟨fun heq => ⟨by simpa using h, heq.symm⟩, fun hboth => hboth.2.symm⟩

/-- What the card remembers after a head was read. -/
def Seen.add (seen : Seen) (p : Pointer) (head : ℕ) : Seen :=
  ⟨seen.owned ∪ (chainOf p head).toFinset, insert (nameAt p head) seen.names⟩

/-- A head that nothing read before it can spoil. -/
structure Readable (p : Pointer) (seen : Seen) (head : ℕ) : Prop where
  sound : HeadSound p head
  name : nameAt p head ∉ seen.names
  blocks : ∀ b ∈ chainOf p head, b ∉ seen.owned

theorem readSave_of_readable {seen : Seen} (h : Readable p seen head) :
    readSave p seen head = (seen.add p head, .ok (saveAt p head)) := by
  obtain ⟨⟨hchain, hname, hsize, hheader⟩, hfresh, hblocks⟩ := h
  have hlen := hchain.length_le
  have hdata := @chainData_length p head
  have hallocation : ¬(u32 (shift (frame p head) 4) = 0 ∨
      u32 (shift (frame p head) 4) > 15 * blockSize ∨
      u32 (shift (frame p head) 4) % blockSize ≠ 0) := by
    rw [hsize, hdata, Nat.mul_mod_right, blockSize]
    omega
  have hstart : Threaded p ((startChain seen.owned head).blocks = []) (startChain seen.owned head).block
      (chainOf p head) := by
    rwa [show ((startChain seen.owned head).blocks = []) = True from eq_true rfl]
  obtain ⟨c, hwalk, -, hcblocks, hcdata⟩ := walk_complete hstart hblocks
  have hcblocks' : c.blocks = chainOf p head := hcblocks
  have hcdata' : c.data = chainData p head := hcdata
  unfold readSave
  rw [hname]
  dsimp only
  rw [if_neg hfresh, if_neg hallocation, hwalk]
  dsimp only
  rw [hcdata', hcblocks', if_neg (not_not.mpr hsize.symm)]
  exact Prod.ext rfl (presentation_ok.mpr ⟨hheader, rfl⟩)

theorem readable_of_readSave {seen seen' : Seen} {s : Save}
    (h : readSave p seen head = (seen', .ok s)) : Readable p seen head := by
  unfold readSave at h
  cases hname : filename (frame p head) with
  | error what =>
    rw [hname] at h
    cases h
  | ok name =>
    obtain rfl := filename_ok hname
    rw [hname] at h
    dsimp only at h
    split_ifs at h with hfresh hallocation
    · cases h
    · cases h
    · cases hwalk : walk p (startChain seen.owned head) with
      | mk owned result =>
        rw [hwalk] at h
        cases result with
        | error what => cases h
        | ok c =>
          obtain ⟨L, hthread, hblocks, hwalked⟩ := walk_sound owned hwalk
          have hthread' : Threaded p True head L := by
            rwa [show ((startChain seen.owned head).blocks = []) = True from eq_true rfl] at hthread
          obtain rfl := chainOf_eq hthread'
          have hdata : c.data = chainData p head := hwalked.data
          dsimp only at h
          split_ifs at h with hsize
          · cases h
          · rw [Prod.mk.injEq, presentation_ok] at h
            rw [hdata] at hsize
            refine ⟨⟨hthread', hname, (not_not.mp hsize).symm, ?_⟩, hfresh, hblocks⟩
            rw [← hdata]
            exact h.2.1

end Head

/-! ## All heads -/

/-- Heads that can be read one after the other. -/
structure Clean (p : Pointer) (seen : Seen) (hs : List ℕ) : Prop where
  sound : ∀ h ∈ hs, HeadSound p h
  blocks : (hs.flatMap (chainOf p)).Nodup
  unowned : ∀ b ∈ hs.flatMap (chainOf p), b ∉ seen.owned
  names : (hs.map (nameAt p)).Nodup
  unnamed : ∀ h ∈ hs, nameAt p h ∉ seen.names

section Heads
variable {p : Pointer} {hs : List ℕ}

theorem clean_nil (seen : Seen) : Clean p seen [] :=
  ⟨by simp, by simp, by simp, by simp, by simp⟩

theorem Seen.mem_add_owned {seen : Seen} {h b : ℕ} :
    b ∈ (seen.add p h).owned ↔ b ∈ seen.owned ∨ b ∈ chainOf p h := by
  rw [Seen.add, Finset.mem_union, List.mem_toFinset]

theorem Seen.mem_add_names {seen : Seen} {h : ℕ} {name : Bytes} :
    name ∈ (seen.add p h).names ↔ name = nameAt p h ∨ name ∈ seen.names :=
  Finset.mem_insert

theorem clean_cons {seen : Seen} {h : ℕ} :
    Clean p seen (h :: hs) ↔ Readable p seen h ∧ Clean p (seen.add p h) hs := by
  constructor
  · rintro ⟨hsound, hblocks, hunowned, hnames, hunnamed⟩
    rw [List.flatMap_cons, List.nodup_append] at hblocks
    rw [List.map_cons, List.nodup_cons] at hnames
    rw [List.flatMap_cons] at hunowned
    refine ⟨⟨hsound h List.mem_cons_self, hunnamed h List.mem_cons_self, fun b hb => ?_⟩,
      fun d hd => hsound d (List.mem_cons_of_mem h hd), hblocks.2.1, fun b hb => ?_, hnames.2,
      fun d hd => ?_⟩
    · exact hunowned b (List.mem_append_left _ hb)
    · rw [Seen.mem_add_owned, not_or]
      exact ⟨hunowned b (List.mem_append_right _ hb), fun hmem => hblocks.2.2 b hmem b hb rfl⟩
    · rw [Seen.mem_add_names, not_or]
      refine ⟨fun heq => hnames.1 ?_, hunnamed d (List.mem_cons_of_mem h hd)⟩
      exact heq ▸ List.mem_map_of_mem hd
  · rintro ⟨⟨hsound, hname, hfresh⟩, hrest⟩
    refine ⟨fun d hd => ?_, ?_, fun b hb => ?_, ?_, fun d hd => ?_⟩
    · rcases List.mem_cons.mp hd with rfl | hd
      · exact hsound
      · exact hrest.sound d hd
    · rw [List.flatMap_cons, List.nodup_append]
      refine ⟨hsound.chain.nodup, hrest.blocks, fun b hb d hd heq => ?_⟩
      have hnot := hrest.unowned d hd
      rw [Seen.mem_add_owned, not_or] at hnot
      exact hnot.2 (heq ▸ hb)
    · rw [List.flatMap_cons, List.mem_append] at hb
      rcases hb with hb | hb
      · exact hfresh b hb
      · have hnot := hrest.unowned b hb
        rw [Seen.mem_add_owned, not_or] at hnot
        exact hnot.1
    · rw [List.map_cons, List.nodup_cons]
      refine ⟨fun hmem => ?_, hrest.names⟩
      obtain ⟨d, hd, heq⟩ := List.mem_map.mp hmem
      have hnot := hrest.unnamed d hd
      rw [Seen.mem_add_names, not_or] at hnot
      exact hnot.1 heq
    · rcases List.mem_cons.mp hd with rfl | hd
      · exact hname
      · have hnot := hrest.unnamed d hd
        rw [Seen.mem_add_names, not_or] at hnot
        exact hnot.2

/-- Clean heads are all read, and leave no error. -/
theorem scan_of_clean {s : Scan} (h : Clean p s.seen hs) :
    (scan p hs s).saves = s.saves ++ hs.map (saveAt p) ∧ (scan p hs s).errors = s.errors ∧
      ∀ b, b ∈ (scan p hs s).seen.owned ↔ b ∈ s.seen.owned ∨ b ∈ hs.flatMap (chainOf p) := by
  induction hs generalizing s with
  | nil => simp [scan]
  | cons head hs ih =>
    obtain ⟨hreadable, hrest⟩ := clean_cons.mp h
    have hread : scanHead p s head =
        { seen := s.seen.add p head, saves := s.saves ++ [saveAt p head], errors := s.errors } := by
      rw [scanHead, readSave_of_readable hreadable]
    obtain ⟨hsaves, herrors, howned⟩ := ih (s := scanHead p s head) (by rwa [hread])
    have hstep : scan p (head :: hs) s = scan p hs (scanHead p s head) := rfl
    rw [hstep, hsaves, herrors]
    refine ⟨by simp [hread], by rw [hread], fun b => ?_⟩
    rw [howned, hread, Seen.mem_add_owned, List.flatMap_cons, List.mem_append, or_assoc]

/-- A scan without errors met clean heads. -/
theorem clean_of_scan {s : Scan} (h : (scan p hs s).errors = []) :
    s.errors = [] ∧ Clean p s.seen hs := by
  induction hs generalizing s with
  | nil => exact ⟨h, clean_nil s.seen⟩
  | cons head hs ih =>
    obtain ⟨herrors, hrest⟩ := ih (s := scanHead p s head) h
    unfold scanHead at herrors hrest
    cases hread : readSave p s.seen head with
    | mk seen result =>
      rw [hread] at herrors hrest
      cases result with
      | error what => simp at herrors
      | ok save =>
        have hreadable := readable_of_readSave hread
        have hseen := readSave_of_readable hreadable
        rw [hread, Prod.mk.injEq] at hseen
        refine ⟨herrors, clean_cons.mpr ⟨hreadable, ?_⟩⟩
        rw [← hseen.1]
        exact hrest

end Heads

/-! ## The whole card -/

/-- A card on which every allocated block belongs to one readable save. -/
structure SoundCard (p : Pointer) : Prop where
  header : headerErrors p = []
  frames : ∀ b ∈ slots, frameErrors p b = []
  heads : Clean p ⟨∅, ∅⟩ (heads p)
  covered : ∀ b ∈ slots, activeState (state p b) = true → b ∈ (MemoryCard.heads p).flatMap (chainOf p)

section Whole
variable {p : Pointer} {image : Bytes}

theorem mem_slots {b : ℕ} : b ∈ slots ↔ 1 ≤ b ∧ b ≤ 15 := by
  rw [slots, List.mem_range'_1]
  omega

theorem mem_heads {b : ℕ} : b ∈ heads p ↔ (1 ≤ b ∧ b ≤ 15) ∧ state p b = 0x51 := by
  rw [heads, List.mem_filter, mem_slots, decide_eq_true_eq]

theorem orphanErrors_nil {owned : Finset ℕ} :
    orphanErrors p owned = [] ↔ ∀ b ∈ slots, activeState (state p b) = true → b ∈ owned := by
  rw [orphanErrors, List.map_eq_nil_iff, List.filter_eq_nil_iff]
  simp

/-- A card parses without errors exactly when it is sound. -/
theorem parseData_errors : (parseData image p).errors = [] ↔ SoundCard p := by
  constructor
  · intro h
    obtain ⟨hscan, horphans⟩ := List.append_eq_nil_iff.mp h
    obtain ⟨hdirectory, hclean⟩ := clean_of_scan hscan
    obtain ⟨hheader, hframes⟩ := List.append_eq_nil_iff.mp hdirectory
    obtain ⟨-, -, howned⟩ := scan_of_clean hclean
    refine ⟨hheader, List.flatMap_eq_nil_iff.mp hframes, hclean, fun b hb hactive => ?_⟩
    have hmem := orphanErrors_nil.mp horphans b hb hactive
    rw [howned] at hmem
    exact hmem.resolve_left (Finset.notMem_empty b)
  · rintro ⟨hheader, hframes, hclean, hcovered⟩
    have hdirectory : headerErrors p ++ slots.flatMap (frameErrors p) = [] :=
      List.append_eq_nil_iff.mpr ⟨hheader, List.flatMap_eq_nil_iff.mpr hframes⟩
    obtain ⟨-, herrors, howned⟩ := scan_of_clean (s := ⟨⟨∅, ∅⟩, [], _⟩) hclean
    refine List.append_eq_nil_iff.mpr ⟨herrors.trans hdirectory, orphanErrors_nil.mpr ?_⟩
    intro b hb hactive
    rw [howned]
    exact Or.inr (hcovered b hb hactive)

theorem parseData_saves (h : SoundCard p) :
    (parseData image p).saves = (heads p).map (saveAt p) := by
  obtain ⟨hsaves, -, -⟩ := scan_of_clean (s := ⟨⟨∅, ∅⟩, [], _⟩) h.heads
  exact hsaves

theorem parse_whole {input : Bytes} (h : input.length = cardSize) :
    parse input = parseData input (dataOf input) := if_neg (not_not.mpr h)

theorem remapWarnings_nil : remapWarnings p = [] ↔ remapped p = false := by
  unfold remapWarnings
  split_ifs with h <;> simp [h]

/-- A card can be edited when it is whole, sound, and not remapped. -/
theorem parse_editable {input : Bytes} : (parse input).editable = true ↔
    input.length = cardSize ∧ SoundCard (dataOf input) ∧ remapped (dataOf input) = false := by
  unfold parse
  split_ifs with hsize
  · constructor
    · intro h
      cases h
    · intro h
      exact absurd h.1 hsize
  · rw [Card.editable, Card.valid, Bool.and_eq_true, List.isEmpty_iff, List.isEmpty_iff,
      parseData_errors, ← remapWarnings_nil]
    exact ⟨fun h => ⟨not_not.mp hsize, h⟩, fun h => h.2⟩

end Whole

end PsxRecomp.MemoryCard
