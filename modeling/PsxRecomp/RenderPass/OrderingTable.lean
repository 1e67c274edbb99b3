import Mathlib

/-! The ordering table of a drawing section in RAM, and the journal of a section whose packets are to be moved: the
lists before the section, after its core and after its tail (`PSXOTRelocation`). -/
namespace PsxRecomp.OTRelocation
set_option autoImplicit false

abbrev Word := BitVec 32

/-- By the address of an aligned word. -/
abbrev Ram := ℕ → Word

def ramBytes : ℕ := 0x200000

structure Node where
  address : ℕ
  header : Word
  deriving DecidableEq

structure Range where
  first : ℕ
  last : ℕ
  deriving DecidableEq

/-- `Word` of the source. -/
structure Write where
  address : ℕ
  value : Word
  deriving DecidableEq

/-- The bytes behind a header. -/
def payloadBytes (header : Word) : ℕ := header.toNat / 0x1000000 * 4

def linkOf (header : Word) : ℕ := header.toNat % 0x1000000

/-- Whether two headers have different sizes. -/
def resized (a b : Word) : Bool := a.toNat / 0x1000000 ≠ b.toNat / 0x1000000

namespace Node

def stop (n : Node) : ℕ := n.address + 4 + payloadBytes n.header

def link (n : Node) : ℕ := linkOf n.header

def empty (n : Node) : Bool := n.header.toNat / 0x1000000 = 0

/-- The addresses of the words behind the header. -/
def payload (n : Node) : List ℕ := (List.range (n.header.toNat / 0x1000000)).map fun k => n.address + 4 * (k + 1)

end Node

/-! ## Sorted vectors -/

section Sorted

variable {α : Type} (key : α → ℕ)

def sortBy (l : List α) : List α := l.insertionSort fun a b => key a ≤ key b

/-- `std::lower_bound` in a sorted vector -/
def lowerBound (l : List α) (k : ℕ) : Option α := l.find? fun a => decide (k ≤ key a)

/-- The element before `std::upper_bound`. -/
def beforeUpperBound (l : List α) (k : ℕ) : Option α := (l.takeWhile fun a => decide (key a ≤ k)).getLast?

end Sorted

def find (nodes : List Node) (address : ℕ) : Option Node :=
  (lowerBound Node.address nodes address).filter fun n => n.address = address

/-- Each of the ranges begins where the one before has ended. -/
def separate (ranges : List Range) : Bool :=
  let sorted := sortBy Range.first ranges
  (sorted.zip sorted.tail).all fun p => p.1.last ≤ p.2.first

def within (ranges : List Range) (address : ℕ) : Bool :=
  match beforeUpperBound Range.first ranges address with
  | none => false
  | some r => address < r.last

/-! ## Reading the list -/

def word (ram : Ram) (address : ℕ) : Word :=
  let a := address % ramBytes
  let shift := 8 * (a % 4)
  ram (a - a % 4) >>> shift ||| ram (a - a % 4 + 4) <<< (32 - shift)

def walkFrom (ram : Ram) : ℕ → ℕ → Option (List Node)
  | 0, _ => none
  | n + 1, address =>
    if address = 0xFFFFFF then some []
    else if address % 4 ≠ 0 ∨ ramBytes ≤ address ∨ ramBytes - address < 4 then none
    else
      let header := word ram address
      if ramBytes - address - 4 < payloadBytes header then none
      else (walkFrom ram n (linkOf header)).map (⟨address, header⟩ :: ·)

def walk (ram : Ram) (ot : Word) : Option (List Node) :=
  (walkFrom ram 32768 (linkOf ot)).filter fun nodes => separate (nodes.map fun n => ⟨n.address, n.stop⟩)

/-! ## The journal -/

structure Journal where
  prefixNodes : List Node := []
  core : List Node := []
  complete : List Node := []
  payloads : List Range := []
  changes : List Write := []
  prefixPayload : List Write := []
  headers : List Node := []
  afterCore : Ram := fun _ => 0
  cursor : Word := 0
  finalCursor : ℕ := 0
  orderingTable : Word := 0
  captured : Bool := false
  ready : Bool := false
  spliceWrites : List Write := []
  relocatedFirst : ℕ := 0
  relocatedLast : ℕ := 0
  relocatedDestination : ℕ := 0
  arenaBegin : ℕ := 0

/-- Every node of the list before is a node of the list, of the same size. -/
def keepsNodes (nodes before : List Node) : Bool :=
  before.all fun n => match find nodes n.address with
    | none => false
    | some actual => !resized actual.header n.header

def keepsPayload (ram : Ram) (saved : List Write) : Bool := saved.all fun w => word ram w.address = w.value

def wordAddresses : List ℕ := (List.range (ramBytes / 4)).map fun i => 4 * i

namespace Journal

/-- `PSXOTRelocation::begin` -/
def beginSection (j : Journal) (ram : Ram) (ot initialCursor : Word) : Option Journal :=
  let arena := initialCursor.toNat % ramBytes
  if arena % 4 ≠ 0 ∨ ramBytes ≤ arena then none
  else match walk ram ot with
    | none => none
    | some nodes => some
        { j with
          captured := false, ready := false, changes := [], payloads := [], orderingTable := ot, arenaBegin := arena,
          prefixNodes := nodes, prefixPayload := nodes.flatMap fun n => n.payload.map fun a => ⟨a, word ram a⟩ }

/-- `PSXOTRelocation::end` -/
def endCore (j : Journal) (ram : Ram) (currentCursor : Word) : Option Journal :=
  match walk ram j.orderingTable with
  | none => none
  | some core =>
    if keepsPayload ram j.prefixPayload = false then none
    else if keepsNodes (sortBy Node.address core) j.prefixNodes = false then none
    else
      let payloads := sortBy Range.first
        (j.payloads ++ (core.filter fun n => !n.empty).map fun n => ⟨n.address + 4, n.stop⟩)
      if separate payloads = false then none
      else if core.any fun n => within payloads n.address then none
      else some
        { j with
          core := core, payloads := payloads, headers := sortBy Node.address core, cursor := currentCursor,
          afterCore := ram, captured := true }

/-- A changed word outside the core's packets, or the link of one of its headers. -/
def mayChange (j : Journal) (address : ℕ) (value : Word) : Bool :=
  !within j.payloads address && match find j.headers address with
    | none => true
    | some header => !resized value header.header

/-- `PSXOTRelocation::prepare` -/
def prepare (j : Journal) (ram : Ram) (producerEnd : Word) : Option Journal :=
  if j.captured = false then none
  else match walk ram j.orderingTable with
    | none => none
    | some complete =>
      let changes := (wordAddresses.filter fun a => word ram a ≠ word j.afterCore a).map fun a => ⟨a, word ram a⟩
      if changes.all fun w => j.mayChange w.address w.value then
        some { j with
          finalCursor := producerEnd.toNat % ramBytes, complete := complete, changes := changes, ready := true }
      else none

end Journal

/-! ## What sorting and searching find -/

section Sorted

variable {α : Type} {key : α → ℕ} {l : List α} {a : α} {k : ℕ}

instance key_total : Std.Total fun a b : α => key a ≤ key b := ⟨fun a b => Nat.le_total (key a) (key b)⟩

instance key_trans : IsTrans α fun a b => key a ≤ key b := ⟨fun _ _ _ => Nat.le_trans⟩

theorem sortBy_perm : (sortBy key l).Perm l := List.perm_insertionSort _ l

theorem mem_sortBy : a ∈ sortBy key l ↔ a ∈ l := sortBy_perm.mem_iff

theorem sortBy_sorted : (sortBy key l).Pairwise fun a b => key a ≤ key b := List.pairwise_insertionSort _ l

theorem lowerBound_mem (h : lowerBound key l k = some a) : a ∈ l := List.mem_of_find?_eq_some h

theorem lowerBound_eq (hsorted : l.Pairwise fun a b => key a ≤ key b) (hone : ∀ b ∈ l, key b = key a → b = a)
    (ha : a ∈ l) : lowerBound key l (key a) = some a := by
  induction l with
  | nil => cases ha
  | cons b l ih =>
    obtain ⟨hle, hsorted⟩ := List.pairwise_cons.1 hsorted
    unfold lowerBound
    by_cases hb : key a ≤ key b
    · have heq : b = a := by
        cases List.mem_cons.1 ha with
        | inl h => exact h.symm
        | inr h => exact hone b (List.mem_cons_self ..) (Nat.le_antisymm (hle a h) hb)
      simp [heq]
    · have hne : a ≠ b := fun h => hb (h ▸ le_rfl)
      rw [List.find?_cons_of_neg (by simpa using hb)]
      exact ih hsorted (fun c hc => hone c (List.mem_cons_of_mem _ hc)) ((List.mem_cons.1 ha).resolve_left hne)

/-- In a list of disjoint intervals, the one that holds a place is the last that begins no later. -/
theorem beforeUpperBound_eq {stop : α → ℕ} (hsorted : l.Pairwise fun a b => stop a ≤ key b) (hsize : ∀ a ∈ l, key a ≤ stop a)
    (ha : a ∈ l) (hle : key a ≤ k) (hlt : k < stop a) : beforeUpperBound key l k = some a := by
  induction l with
  | nil => cases ha
  | cons b l ih =>
    obtain ⟨hnext, hsorted⟩ := List.pairwise_cons.1 hsorted
    have hsize' := fun a ha => hsize a (List.mem_cons_of_mem b ha)
    cases List.mem_cons.1 ha with
    | inl h =>
      subst h
      have hnone : l.takeWhile (fun b => decide (key b ≤ k)) = [] := by
        cases l with
        | nil => rfl
        | cons c l =>
          have := hnext c (List.mem_cons_self ..)
          rw [List.takeWhile_cons_of_neg (by simp; omega)]
      unfold beforeUpperBound
      rw [List.takeWhile_cons_of_pos (by simpa using hle), hnone]
      rfl
    | inr h =>
      have hb : key b ≤ k := (hsize b (List.mem_cons_self ..)).trans ((hnext a h).trans hle)
      have hih := ih hsorted hsize' h
      unfold beforeUpperBound at hih ⊢
      rw [List.takeWhile_cons_of_pos (by simpa using hb), List.getLast?_cons, hih]
      rfl

end Sorted

section Find

variable {nodes : List Node} {n : Node} {address : ℕ}

theorem find_some (h : find nodes address = some n) : n ∈ nodes ∧ n.address = address := by
  unfold find at h
  rw [Option.filter_eq_some_iff] at h
  exact ⟨lowerBound_mem h.1, by simpa using h.2⟩

theorem find_sorted (hnodup : (nodes.map Node.address).Nodup) :
    find (sortBy Node.address nodes) address = some n ↔ n ∈ nodes ∧ n.address = address := by
  refine ⟨fun h => ?_, ?_⟩
  · obtain ⟨hmem, haddr⟩ := find_some h
    exact ⟨mem_sortBy.1 hmem, haddr⟩
  · rintro ⟨hmem, rfl⟩
    unfold find
    rw [lowerBound_eq sortBy_sorted (fun b hb hkey => ?_) (mem_sortBy.2 hmem)]
    · simp
    · exact List.inj_on_of_nodup_map hnodup (mem_sortBy.1 hb) hmem hkey

theorem find_none (hnodup : (nodes.map Node.address).Nodup) :
    find (sortBy Node.address nodes) address = none ↔ address ∉ nodes.map Node.address := by
  rw [Option.eq_none_iff_forall_ne_some]
  simp only [ne_eq, find_sorted hnodup, List.mem_map, not_exists]

end Find

/-! ## Ranges that do not meet -/

def Range.Apart (r s : Range) : Prop := r.last ≤ s.first ∨ s.last ≤ r.first

theorem Range.Apart.symm {r s : Range} (h : r.Apart s) : s.Apart r := Or.symm h

section Separate

variable {ranges : List Range}

theorem chained_iff (hsorted : ranges.Pairwise fun a b => a.first ≤ b.first) (hsize : ∀ r ∈ ranges, r.first < r.last) :
    ((ranges.zip ranges.tail).all fun p => p.1.last ≤ p.2.first) = true ↔
      ranges.Pairwise fun a b => a.last ≤ b.first := by
  induction ranges with
  | nil => simp
  | cons r ranges ih =>
    obtain ⟨hle, hsorted⟩ := List.pairwise_cons.1 hsorted
    have hih := ih hsorted fun s hs => hsize s (List.mem_cons_of_mem _ hs)
    cases ranges with
    | nil => simp
    | cons s ranges =>
      rw [List.tail_cons] at hih ⊢
      rw [List.zip_cons_cons, List.all_cons, Bool.and_eq_true, hih, List.pairwise_cons (a := r), decide_eq_true_eq]
      refine and_congr_left fun hrest => ⟨fun hrs => ?_, fun hall => hall s (List.mem_cons_self ..)⟩
      intro u hu
      cases List.mem_cons.1 hu with
      | inl h => exact h ▸ hrs
      | inr h =>
        have hsu := (List.pairwise_cons.1 hsorted).1 u h
        exact hrs.trans hsu

theorem separate_iff (hsize : ∀ r ∈ ranges, r.first < r.last) :
    separate ranges = true ↔ ranges.Pairwise Range.Apart := by
  have hsorted : (sortBy Range.first ranges).Pairwise fun a b => a.first ≤ b.first := sortBy_sorted
  have hsize' : ∀ r ∈ sortBy Range.first ranges, r.first < r.last := fun r hr => hsize r (mem_sortBy.1 hr)
  have hperm : (sortBy Range.first ranges).Pairwise Range.Apart ↔ ranges.Pairwise Range.Apart :=
    List.Perm.pairwise_iff (fun h => h.symm) sortBy_perm
  unfold separate
  rw [chained_iff hsorted hsize', ← hperm]
  refine ⟨fun h => h.imp Or.inl, fun h => ?_⟩
  refine (hsorted.and h).imp_of_mem fun ha hb hab => ?_
  cases hab.2 with
  | inl h => exact h
  | inr h =>
    have := hsize' _ hb
    omega

end Separate

/-! ## Segments of the list -/

theorem word_aligned {ram : Ram} {address : ℕ} (halign : address % 4 = 0) (hlt : address < ramBytes) :
    word ram address = ram address := by
  simp [word, Nat.mod_eq_of_lt hlt, halign]

/-- The nodes from one link to another. -/
def Segment (ram : Ram) : ℕ → List Node → ℕ → Prop
  | address, [], last => address = last
  | address, n :: ns, last =>
    n = ⟨address, ram address⟩ ∧ address % 4 = 0 ∧ n.stop ≤ ramBytes ∧ Segment ram n.link ns last

section Segment

variable {ram ram' : Ram} {address last : ℕ} {ns : List Node} {n : Node}

theorem Segment.mem (h : Segment ram address ns last) (hn : n ∈ ns) :
    n.header = ram n.address ∧ n.address % 4 = 0 ∧ n.stop ≤ ramBytes := by
  induction ns generalizing address with
  | nil => cases hn
  | cons m ns ih =>
    obtain ⟨hm, halign, hstop, hrest⟩ := h
    cases List.mem_cons.1 hn with
    | inl heq => subst heq; exact ⟨by rw [hm], by rw [hm]; exact halign, hstop⟩
    | inr hn => exact ih hrest hn

theorem Segment.append {ms : List Node} {mid : ℕ} (h : Segment ram address ns mid) (h' : Segment ram mid ms last) :
    Segment ram address (ns ++ ms) last := by
  induction ns generalizing address with
  | nil => exact (show address = mid from h) ▸ h'
  | cons n ns ih => exact ⟨h.1, h.2.1, h.2.2.1, ih h.2.2.2⟩

theorem Node.address_lt (hstop : n.stop ≤ ramBytes) : n.address < ramBytes := by
  unfold Node.stop at hstop
  omega

theorem Segment.head_lt (h : Segment ram address (n :: ns) last) : address < ramBytes := by
  obtain ⟨rfl, -, hstop, -⟩ := h
  exact Node.address_lt hstop

/-- A RAM has one list from a node to the end. -/
theorem Segment.unique {ms : List Node} (hlast : ramBytes ≤ last) (h : Segment ram address ns last)
    (h' : Segment ram address ms last) : ns = ms := by
  induction ns generalizing address ms with
  | nil =>
    cases ms with
    | nil => rfl
    | cons m ms =>
      obtain rfl : address = last := h
      exact absurd h'.head_lt (not_lt.2 hlast)
  | cons n ns ih =>
    cases ms with
    | nil =>
      obtain rfl : address = last := h'
      exact absurd h.head_lt (not_lt.2 hlast)
    | cons m ms =>
      obtain ⟨hn, -, -, hrest⟩ := h
      obtain ⟨hm, -, -, hrest'⟩ := h'
      obtain rfl : n = m := hn.trans hm.symm
      rw [ih hrest hrest']

theorem Segment.congr (h : Segment ram address ns last) (heq : ∀ n ∈ ns, ram' n.address = ram n.address) :
    Segment ram' address ns last := by
  induction ns generalizing address with
  | nil => exact h
  | cons n ns ih =>
    obtain ⟨hn, halign, hstop, hrest⟩ := h
    have hhead := heq n (List.mem_cons_self ..)
    refine ⟨?_, halign, hstop, ih hrest fun m hm => heq m (List.mem_cons_of_mem _ hm)⟩
    rw [hn] at hhead ⊢
    rw [hhead]

theorem walkFrom_iff {fuel : ℕ} :
    walkFrom ram fuel address = some ns ↔ Segment ram address ns 0xFFFFFF ∧ ns.length < fuel := by
  induction fuel generalizing address ns with
  | zero => simp [walkFrom]
  | succ fuel ih =>
    rw [walkFrom]
    by_cases hend : address = 0xFFFFFF
    · rw [if_pos hend]
      cases ns with
      | nil => simp [Segment, hend]
      | cons n ns =>
        refine iff_of_false (by simp) fun h => ?_
        have := h.1.head_lt
        rw [hend] at this
        exact absurd this (by decide)
    · rw [if_neg hend]
      by_cases hbad : address % 4 ≠ 0 ∨ ramBytes ≤ address ∨ ramBytes - address < 4
      · rw [if_pos hbad]
        refine iff_of_false (by simp) fun h => ?_
        cases ns with
        | nil => exact hend h.1
        | cons n ns =>
          obtain ⟨⟨rfl, halign, hstop, -⟩, -⟩ := h
          simp only [Node.stop] at hstop
          omega
      · rw [if_neg hbad]
        simp only [not_or, not_not, not_le, not_lt] at hbad
        dsimp only
        rw [word_aligned hbad.1 hbad.2.1]
        by_cases hlong : ramBytes - address - 4 < payloadBytes (ram address)
        · rw [if_pos hlong]
          refine iff_of_false (by simp) fun h => ?_
          cases ns with
          | nil => exact hend h.1
          | cons n ns =>
            obtain ⟨⟨rfl, halign, hstop, -⟩, -⟩ := h
            simp only [Node.stop] at hstop
            omega
        · rw [if_neg hlong]
          cases ns with
          | nil => simp [Segment, hend]
          | cons n ns =>
            rw [Option.map_eq_some_iff]
            constructor
            · rintro ⟨ms, hms, heq⟩
              obtain ⟨rfl, rfl⟩ := List.cons.inj heq
              obtain ⟨hrest, hlen⟩ := ih.1 hms
              refine ⟨⟨rfl, hbad.1, ?_, hrest⟩, Nat.succ_lt_succ hlen⟩
              simp only [Node.stop]
              omega
            · rintro ⟨⟨rfl, -, -, hrest⟩, hlen⟩
              exact ⟨ns, ih.2 ⟨hrest, Nat.lt_of_succ_lt_succ hlen⟩, rfl⟩

end Segment

/-- The packets of nodes do not meet. -/
def Scattered (ns : List Node) : Prop := ns.Pairwise fun m n => m.stop ≤ n.address ∨ n.stop ≤ m.address

theorem Node.address_lt_stop (n : Node) : n.address < n.stop := by
  unfold Node.stop
  omega

theorem separate_nodes {ns : List Node} :
    separate (ns.map fun n => ⟨n.address, n.stop⟩) = true ↔ Scattered ns := by
  rw [separate_iff, List.pairwise_map]
  · rfl
  · intro r hr
    obtain ⟨n, -, rfl⟩ := List.mem_map.1 hr
    exact n.address_lt_stop

theorem walk_iff {ram : Ram} {ot : Word} {ns : List Node} :
    walk ram ot = some ns ↔ Segment ram (linkOf ot) ns 0xFFFFFF ∧ ns.length < 32768 ∧ Scattered ns := by
  unfold walk
  rw [Option.filter_eq_some_iff, walkFrom_iff, separate_nodes, and_assoc]

section Scattered

variable {ns : List Node} {m n : Node}

theorem Scattered.nodup (h : Scattered ns) : (ns.map Node.address).Nodup := by
  refine List.pairwise_map.2 (h.imp fun {m n} hmn heq => ?_)
  have := m.address_lt_stop
  have := n.address_lt_stop
  omega

instance apart_symm : Std.Symm fun m n : Node => m.stop ≤ n.address ∨ n.stop ≤ m.address := ⟨fun _ _ h => h.symm⟩

theorem Scattered.apart (h : Scattered ns) (hm : m ∈ ns) (hn : n ∈ ns) (hne : m ≠ n) :
    m.stop ≤ n.address ∨ n.stop ≤ m.address :=
  List.Pairwise.forall h hm hn hne

end Scattered

end PsxRecomp.OTRelocation
