import PsxRecomp.RenderPass.OrderingTable

/-! The tail of a section moved behind the core of a replay: the packets it appended and the zero-length heads it
inserted them at are carried over to another RAM (`prepare_splice`, `apply_splice`). -/
namespace PsxRecomp.OTRelocation
set_option autoImplicit false

/-- The region of the tail, and where it goes: `old_first`, `end`, `new_first`. -/
structure Tail where
  oldFirst : ℕ
  stop : ℕ
  newFirst : ℕ

namespace Tail

/-- `is_tail` -/
def holds (t : Tail) (address : ℕ) : Bool := t.oldFirst ≤ address ∧ address < t.stop

def relocate (t : Tail) (address : ℕ) : ℕ := t.newFirst + (address - t.oldFirst)

/-- `new_end` -/
def newEnd (t : Tail) : ℕ := t.newFirst + (t.stop - t.oldFirst)

end Tail

/-- A head with the packets that the tail put behind it, and what the head links to in the replay. -/
structure Insert where
  head : ℕ
  first : ℕ
  nodes : List Node
  onward : ℕ

/-- Where the last of the appended packets ends; `none` where they overlap or are headers alone. -/
def tailEnd (finalCursor : ℕ) : ℕ → List Node → Option ℕ
  | stop, [] => some stop
  | stop, n :: ns =>
    if n.address < stop ∨ n.empty then none
    else if ramBytes < n.stop ∨ (finalCursor ≠ 0 ∧ finalCursor < n.stop) then none
    else tailEnd finalCursor n.stop ns

/-- The appended packets from a link on, and the link at which they leave the tail. -/
def chainFrom (t : Tail) (added : List Node) : ℕ → ℕ → Option (List Node × ℕ)
  | fuel, link =>
    if t.holds link = false then some ([], link)
    else match fuel with
      | 0 => none
      | fuel + 1 => match find added link with
        | none => none
        | some n => (chainFrom t added fuel n.link).map fun c => (n :: c.1, c.2)

/-- A changed word of the core's list, as an insertion at a head. -/
def insertAt (t : Tail) (now added : List Node) (prior : Node) (change : Write) : Option Insert :=
  if prior.empty = false ∨ change.value.toNat / 0x1000000 ≠ 0 ∨ t.holds (linkOf change.value) = false then none
  else match find now change.address with
    | none => none
    | some current =>
      if current.empty = false then none
      else match chainFrom t added added.length (linkOf change.value) with
        | none => none
        | some (nodes, link) =>
          if link ≠ prior.link then none
          else some ⟨change.address, linkOf change.value, nodes, current.link⟩

def insertions (t : Tail) (old now added : List Node) : List Write → Option (List Insert)
  | [] => some []
  | change :: rest => match find old change.address with
    | none => insertions t old now added rest
    | some prior => match insertAt t now added prior change with
      | none => none
      | some i => (insertions t old now added rest).map (i :: ·)

/-- The last packet of each chain, with what its head links to in the replay. -/
def terminals (inserts : List Insert) : List (ℕ × ℕ) :=
  inserts.filterMap fun i => i.nodes.getLast?.map fun n => (n.address, i.onward)

def owned (inserts : List Insert) : List ℕ := inserts.flatMap fun i => i.nodes.map Node.address

/-- A word of the tail: the one that the core left, or the change of it. -/
def tailWord (j : Journal) (address : ℕ) : Word :=
  match (lowerBound Write.address j.changes address).filter fun w => w.address = address with
  | none => word j.afterCore address
  | some change => change.value

/-- What an appended packet links to once it is moved. -/
def movedLink (t : Tail) (ends : List (ℕ × ℕ)) (n : Node) : Option ℕ :=
  if t.holds n.link then some (t.relocate n.link)
  else (ends.find? fun e => e.1 = n.address).map Prod.snd

def movedHeader (header : Word) (link : ℕ) : Word := header &&& 0xFF000000 ||| BitVec.ofNat 32 link

def movedPackets (j : Journal) (t : Tail) (ends : List (ℕ × ℕ)) : List Node → Option (List Write)
  | [] => some []
  | n :: ns => match movedLink t ends n with
    | none => none
    | some link => (movedPackets j t ends ns).map fun writes =>
        ⟨t.relocate n.address, movedHeader n.header link⟩ ::
          ((n.payload.map fun a => ⟨t.relocate a, tailWord j a⟩) ++ writes)

/-- Whether a word lies in one of the packets. -/
def covers (now : List Node) (address : ℕ) : Bool :=
  match beforeUpperBound Node.address now address with
  | none => false
  | some n => address < n.stop

/-- The tail's other writes; the cursor is set behind the moved packets. -/
def carried (t : Tail) (old now : List Node) (currentCursor : Word) (cursorWord : ℕ) :
    List Write → Option (List Write)
  | [] => some []
  | change :: rest =>
    if t.holds change.address ∨ (find old change.address).isSome then carried t old now currentCursor cursorWord rest
    else if change.address = cursorWord then
      if change.value.toNat % ramBytes ≠ t.stop then none
      else (carried t old now currentCursor cursorWord rest).map
        (⟨change.address, currentCursor &&& 0xFFE00000 ||| BitVec.ofNat 32 t.newEnd⟩ :: ·)
    else
      if covers now change.address then none
      else (carried t old now currentCursor cursorWord rest).map (change :: ·)

/-- Where the tail ends: at the cursor that its producer left, where it is known. -/
def regionEnd (finalCursor oldFirst stop : ℕ) : Option ℕ :=
  if finalCursor = 0 then some stop
  else if finalCursor < stop ∨ finalCursor < oldFirst ∨ ramBytes ≤ finalCursor then none
  else some finalCursor

namespace Journal

/-- What the replay has to have in common with the section. -/
def admits (j : Journal) (ram : Ram) (live : List Node) : Bool :=
  let now := sortBy Node.address live
  keepsNodes now j.prefixNodes && keepsPayload ram j.prefixPayload &&
    (sortBy Node.address j.core).all fun n => !n.empty || match find now n.address with
      | none => false
      | some actual => actual.empty

/-- The packets that the tail appended. -/
def added (j : Journal) : List Node :=
  sortBy Node.address (j.complete.filter fun n => (find (sortBy Node.address j.core) n.address).isNone)

def splice (j : Journal) (t : Tail) (live : List Node) (currentCursor : Word) (cursorWord : ℕ) : Option Journal :=
  let old := sortBy Node.address j.core
  let now := sortBy Node.address live
  match insertions t old now j.added j.changes with
  | none => none
  | some inserts =>
    if (terminals inserts).isEmpty then none
    else if (owned inserts).length ≠ j.added.length ∨ ¬(owned inserts).Nodup then none
    else match movedPackets j t (terminals inserts) j.added, carried t old now currentCursor cursorWord j.changes with
      | some packets, some others => some
          { j with
            spliceWrites := (inserts.map fun i => ⟨i.head, BitVec.ofNat 32 (t.relocate i.first)⟩) ++ packets ++ others
            relocatedFirst := t.oldFirst, relocatedLast := t.stop, relocatedDestination := t.newFirst }
      | _, _ => none

/-- `PSXOTRelocation::prepare_splice` -/
def prepareSplice (j : Journal) (ram : Ram) (ot currentCursor cursorWord : Word) : Option Journal :=
  let cursorAt := cursorWord.toNat % ramBytes
  if j.ready = false ∨ ot ≠ j.orderingTable ∨ ramBytes - 4 < cursorAt ∨ word ram cursorAt ≠ currentCursor then none
  else
    let oldFirst := j.cursor.toNat % ramBytes
    let newFirst := currentCursor.toNat % ramBytes
    if oldFirst % 4 ≠ 0 ∨ newFirst % 4 ≠ 0 ∨ oldFirst < j.arenaBegin ∨ newFirst < j.arenaBegin then none
    else match walk ram ot with
      | none => none
      | some live =>
        if j.admits ram live = false ∨ j.added.isEmpty then none
        else match (tailEnd j.finalCursor oldFirst j.added).bind (regionEnd j.finalCursor oldFirst) with
          | none => none
          | some stop =>
            let t : Tail := ⟨oldFirst, stop, newFirst⟩
            if ramBytes - newFirst < stop - oldFirst then none
            else if live.any fun n => n.address < t.newEnd ∧ newFirst < n.stop then none
            else j.splice t live currentCursor cursorAt

/-- `PSXOTRelocation::apply_splice` -/
def applySplice (j : Journal) (ram : Ram) : Ram :=
  j.spliceWrites.foldl (fun r w => Function.update r w.address w.value) ram

end Journal

/-! ## What the calls have recorded -/

/-- The journal of a section that left `r1` behind its core and `r2` behind its tail. -/
structure Recorded (j : Journal) (r1 r2 : Ram) : Prop where
  core : walk r1 j.orderingTable = some j.core
  complete : walk r2 j.orderingTable = some j.complete
  changes : j.changes = (wordAddresses.filter fun a => r2 a ≠ r1 a).map fun a => ⟨a, r2 a⟩
  afterCore : j.afterCore = r1

theorem mem_wordAddresses {a : ℕ} : a ∈ wordAddresses ↔ a % 4 = 0 ∧ a < ramBytes := by
  simp only [wordAddresses, List.mem_map, List.mem_range, ramBytes]
  constructor
  · rintro ⟨i, hi, rfl⟩
    omega
  · rintro ⟨h0, hlt⟩
    exact ⟨a / 4, by omega, by omega⟩

theorem wordAddresses_sorted : wordAddresses.Pairwise (· < ·) := by
  refine List.pairwise_map.2 (List.pairwise_lt_range.imp fun h => ?_)
  omega

theorem recorded {j₀ j₁ j₂ j₃ : Journal} {r0 r1 r2 : Ram} {ot initialCursor currentCursor producerEnd : Word}
    (hbegin : j₀.beginSection r0 ot initialCursor = some j₁) (hend : j₁.endCore r1 currentCursor = some j₂)
    (hprepare : j₂.prepare r2 producerEnd = some j₃) :
    Recorded j₃ r1 r2 ∧ j₃.orderingTable = ot ∧ j₃.cursor = currentCursor ∧
      j₃.finalCursor = producerEnd.toNat % ramBytes := by
  unfold Journal.beginSection at hbegin
  unfold Journal.endCore at hend
  unfold Journal.prepare at hprepare
  dsimp only at hbegin hend hprepare
  split at hbegin
  · cases hbegin
  split at hbegin
  · cases hbegin
  obtain rfl := Option.some.inj hbegin
  split at hend
  · cases hend
  next core hcore =>
  split at hend
  · cases hend
  split at hend
  · cases hend
  split at hend
  · cases hend
  split at hend
  · cases hend
  obtain rfl := Option.some.inj hend
  split at hprepare
  · cases hprepare
  split at hprepare
  · cases hprepare
  next complete hcomplete =>
  split at hprepare
  · obtain rfl := Option.some.inj hprepare
    have hword : ∀ (r : Ram), ∀ a ∈ wordAddresses, word r a = r a := fun r a ha =>
      have := mem_wordAddresses.1 ha
      word_aligned this.1 this.2
    refine ⟨⟨hcore, hcomplete, ?_, rfl⟩, rfl, rfl, rfl⟩
    dsimp only
    have hfilter : (wordAddresses.filter fun a => word r2 a ≠ word r1 a) =
        wordAddresses.filter fun a => r2 a ≠ r1 a :=
      List.filter_congr fun a ha => by rw [hword r2 a ha, hword r1 a ha]
    rw [hfilter]
    refine List.map_congr_left fun a ha => ?_
    rw [hword r2 a (List.mem_filter.1 ha).1]
  · cases hprepare

section Recorded

variable {j : Journal} {r1 r2 : Ram}

theorem Recorded.mem_changes (h : Recorded j r1 r2) {w : Write} :
    w ∈ j.changes ↔ w.address % 4 = 0 ∧ w.address < ramBytes ∧ r2 w.address ≠ r1 w.address ∧ w.value = r2 w.address := by
  rw [h.changes, List.mem_map]
  simp only [List.mem_filter, mem_wordAddresses, decide_eq_true_eq]
  constructor
  · rintro ⟨a, ⟨⟨h0, hlt⟩, hne⟩, rfl⟩
    exact ⟨h0, hlt, hne, rfl⟩
  · rintro ⟨h0, hlt, hne, hval⟩
    exact ⟨w.address, ⟨⟨h0, hlt⟩, hne⟩, by rw [← hval]⟩

theorem Recorded.sorted (h : Recorded j r1 r2) : j.changes.Pairwise fun v w => v.address < w.address := by
  rw [h.changes, List.pairwise_map]
  exact wordAddresses_sorted.filter _

theorem Recorded.tailWord (h : Recorded j r1 r2) {a : ℕ} (halign : a % 4 = 0) (hlt : a < ramBytes) :
    tailWord j a = r2 a := by
  unfold OTRelocation.tailWord
  by_cases hne : r2 a = r1 a
  · have hnone : (lowerBound Write.address j.changes a).filter (fun w => w.address = a) = none := by
      rw [Option.eq_none_iff_forall_ne_some]
      intro w hw
      rw [Option.filter_eq_some_iff] at hw
      obtain ⟨-, -, hchanged, -⟩ := h.mem_changes.1 (lowerBound_mem hw.1)
      have haddr : w.address = a := by simpa using hw.2
      exact hchanged (haddr ▸ hne)
    rw [hnone, h.afterCore]
    exact (word_aligned halign hlt).trans hne.symm
  · have hmem : (⟨a, r2 a⟩ : Write) ∈ j.changes := h.mem_changes.2 ⟨halign, hlt, hne, rfl⟩
    have hfound : lowerBound Write.address j.changes a = some ⟨a, r2 a⟩ := by
      refine lowerBound_eq (h.sorted.imp fun hlt => hlt.le) (fun w hw hkey => ?_) hmem
      obtain ⟨-, -, -, hval⟩ := h.mem_changes.1 hw
      obtain ⟨b, v⟩ := w
      obtain rfl : b = a := hkey
      exact congrArg (Write.mk b) hval
    rw [hfound, Option.filter_some, if_pos (decide_eq_true rfl)]

end Recorded

/-! ## What a prepared splice has found -/

structure Prepared (j : Journal) (ram : Ram) (currentCursor : Word) (cursorAt : ℕ) (t : Tail) (live : List Node)
    (inserts : List Insert) (packets others : List Write) : Prop where
  walked : walk ram j.orderingTable = some live
  inside : cursorAt ≤ ramBytes - 4
  cursor : word ram cursorAt = currentCursor
  oldFirst : t.oldFirst = j.cursor.toNat % ramBytes
  newFirst : t.newFirst = currentCursor.toNat % ramBytes
  aligned : t.oldFirst % 4 = 0 ∧ t.newFirst % 4 = 0
  stop : (tailEnd j.finalCursor t.oldFirst j.added).bind (regionEnd j.finalCursor t.oldFirst) = some t.stop
  fits : t.stop - t.oldFirst ≤ ramBytes - t.newFirst
  clear : ∀ n ∈ live, t.newEnd ≤ n.address ∨ n.stop ≤ t.newFirst
  added : j.added ≠ []
  heads : insertions t (sortBy Node.address j.core) (sortBy Node.address live) j.added j.changes = some inserts
  once : (owned inserts).length = j.added.length ∧ (owned inserts).Nodup
  moves : movedPackets j t (terminals inserts) j.added = some packets
  rest : carried t (sortBy Node.address j.core) (sortBy Node.address live) currentCursor cursorAt j.changes =
    some others

def headWrites (t : Tail) (inserts : List Insert) : List Write :=
  inserts.map fun i => ⟨i.head, BitVec.ofNat 32 (t.relocate i.first)⟩

/-- The journal ready to be applied. -/
def Journal.readied (j : Journal) (t : Tail) (inserts : List Insert) (packets others : List Write) : Journal :=
  { j with
    spliceWrites := headWrites t inserts ++ packets ++ others
    relocatedFirst := t.oldFirst, relocatedLast := t.stop, relocatedDestination := t.newFirst }

theorem prepareSplice_some {j j' : Journal} {ram : Ram} {ot currentCursor cursorWord : Word}
    (h : j.prepareSplice ram ot currentCursor cursorWord = some j') :
    ∃ t live inserts packets others,
      Prepared j ram currentCursor (cursorWord.toNat % ramBytes) t live inserts packets others ∧
        j' = j.readied t inserts packets others := by
  unfold Journal.prepareSplice at h
  dsimp only at h
  split at h
  · cases h
  next hready =>
  split at h
  · cases h
  next haligned =>
  split at h
  · cases h
  next live hlive =>
  split at h
  · cases h
  next hadmits =>
  split at h
  · cases h
  next stop hstop =>
  split at h
  · cases h
  next hfits =>
  split at h
  · cases h
  next hclear =>
  unfold Journal.splice at h
  dsimp only at h
  split at h
  · cases h
  next inserts hinserts =>
  split at h
  · cases h
  split at h
  · cases h
  next howned =>
  split at h
  · next packets others hpackets hothers =>
    simp only [not_or, not_not, not_lt, Bool.not_eq_false] at hready haligned howned
    obtain ⟨-, hot, hinside, hcursor⟩ := hready
    subst hot
    refine ⟨⟨_, stop, _⟩, live, inserts, packets, others, ⟨hlive, hinside, hcursor, rfl, rfl, ⟨haligned.1, haligned.2.1⟩,
      hstop, not_lt.1 hfits, fun n hn => ?_, fun hnil => ?_, hinserts, howned, hpackets, hothers⟩, (Option.some.inj h).symm⟩
    · have := mt List.any_eq_true.2 hclear
      simp only [not_exists, not_and, decide_eq_true_eq] at this
      have := this n hn
      dsimp only at this ⊢
      omega
    · simp [hnil] at hadmits
  · cases h

theorem tailEnd_some {finalCursor first stop : ℕ} {ns : List Node} (h : tailEnd finalCursor first ns = some stop) :
    first ≤ stop ∧ (∀ n ∈ ns, first ≤ n.address ∧ n.stop ≤ stop ∧ n.stop ≤ ramBytes ∧ n.empty = false) ∧
      ns.Pairwise fun m n => m.stop ≤ n.address := by
  induction ns generalizing first with
  | nil => exact ⟨(Option.some.inj h).le, fun n hn => absurd hn List.not_mem_nil, List.Pairwise.nil⟩
  | cons n ns ih =>
    unfold tailEnd at h
    split at h
    · cases h
    next hbad =>
    split at h
    · cases h
    next hlong =>
    simp only [not_or, not_lt, Bool.not_eq_true] at hbad hlong
    obtain ⟨hle, hall, hsorted⟩ := ih h
    have hsize := n.address_lt_stop
    refine ⟨by omega, fun m hm => ?_, List.pairwise_cons.2 ⟨fun m hm => (hall m hm).1, hsorted⟩⟩
    cases List.mem_cons.1 hm with
    | inl heq => subst heq; exact ⟨hbad.1, hle, hlong.1, hbad.2⟩
    | inr hm =>
      obtain ⟨hfirst, hrest⟩ := hall m hm
      exact ⟨by omega, hrest⟩

section Prepared

variable {j : Journal} {r1 r2 ram : Ram} {currentCursor : Word} {cursorAt : ℕ} {t : Tail} {live : List Node}
  {inserts : List Insert} {packets others : List Write}

/-- The appended packets lie in the tail's region, one behind the other. -/
theorem Prepared.region (h : Prepared j ram currentCursor cursorAt t live inserts packets others) :
    (∀ n ∈ j.added, t.oldFirst ≤ n.address ∧ n.stop ≤ t.stop ∧ n.stop ≤ ramBytes ∧ n.empty = false) ∧
      j.added.Pairwise fun m n => m.stop ≤ n.address := by
  obtain ⟨stop, htail, hregion⟩ := Option.bind_eq_some_iff.1 h.stop
  obtain ⟨-, hall, hsorted⟩ := tailEnd_some htail
  have hle : stop ≤ t.stop := by
    unfold regionEnd at hregion
    split at hregion
    · exact (Option.some.inj hregion).le
    · split at hregion
      · cases hregion
      · have := Option.some.inj hregion
        omega
  exact ⟨fun n hn => ⟨(hall n hn).1, (hall n hn).2.1.trans hle, (hall n hn).2.2⟩, hsorted⟩

theorem Recorded.nodup_core (h : Recorded j r1 r2) : (j.core.map Node.address).Nodup := (walk_iff.1 h.core).2.2.nodup

theorem Recorded.mem_added (h : Recorded j r1 r2) {n : Node} :
    n ∈ j.added ↔ n ∈ j.complete ∧ n.address ∉ j.core.map Node.address := by
  unfold Journal.added
  rw [mem_sortBy, List.mem_filter, Option.isNone_iff_eq_none, find_none h.nodup_core]

/-- A chain of appended packets is a segment of the list that the tail left. -/
theorem chainFrom_segment {added : List Node} (hadded : ∀ n ∈ added, n.header = r2 n.address ∧ n.address % 4 = 0 ∧
    n.stop ≤ ramBytes) {fuel link out : ℕ} {ns : List Node} (h : chainFrom t added fuel link = some (ns, out)) :
    Segment r2 link ns out ∧ (∀ n ∈ ns, n ∈ added ∧ t.holds n.address = true) ∧ t.holds out = false := by
  induction fuel generalizing link ns with
  | zero =>
    unfold chainFrom at h
    split at h
    · next hout =>
      obtain ⟨rfl, rfl⟩ := Prod.mk.inj (Option.some.inj h)
      exact ⟨rfl, fun n hn => absurd hn List.not_mem_nil, hout⟩
    · cases h
  | succ fuel ih =>
    unfold chainFrom at h
    split at h
    · next hout =>
      obtain ⟨rfl, rfl⟩ := Prod.mk.inj (Option.some.inj h)
      exact ⟨rfl, fun n hn => absurd hn List.not_mem_nil, hout⟩
    · next hin =>
      dsimp only at h
      split at h
      · cases h
      next n hn =>
      obtain ⟨⟨ms, out'⟩, hchain, heq⟩ := Option.map_eq_some_iff.1 h
      obtain ⟨rfl, rfl⟩ := Prod.mk.inj heq
      obtain ⟨hmem, rfl⟩ := find_some hn
      obtain ⟨hheader, halign, hstop⟩ := hadded n hmem
      obtain ⟨hseg, hall, hout⟩ := ih hchain
      refine ⟨⟨by rw [← hheader], halign, hstop, hseg⟩, fun m hm => ?_, hout⟩
      cases List.mem_cons.1 hm with
      | inl heq => subst heq; exact ⟨hmem, by simpa using hin⟩
      | inr hm => exact hall m hm

end Prepared

/-! ## Insertions -/

theorem insertAt_some {t : Tail} {now added : List Node} {prior : Node} {change : Write} {i : Insert}
    (h : insertAt t now added prior change = some i) :
    prior.empty = true ∧ change.value.toNat / 0x1000000 = 0 ∧ t.holds (linkOf change.value) = true ∧
      i.head = change.address ∧ i.first = linkOf change.value ∧
      (∃ current, find now change.address = some current ∧ current.empty = true ∧ i.onward = current.link) ∧
      chainFrom t added added.length (linkOf change.value) = some (i.nodes, prior.link) := by
  unfold insertAt at h
  split at h
  · cases h
  next hkinds =>
  split at h
  · cases h
  next current hcurrent =>
  split at h
  · cases h
  next hempty =>
  split at h
  · cases h
  next nodes link hchain =>
  split at h
  · cases h
  next hlink =>
  simp only [not_or, Bool.not_eq_false, not_not] at hkinds hempty hlink
  obtain rfl := Option.some.inj h
  exact ⟨hkinds.1, hkinds.2.1, hkinds.2.2, rfl, rfl, ⟨current, hcurrent, hempty, rfl⟩, hlink ▸ hchain⟩

theorem insertions_some {t : Tail} {old now added : List Node} {changes : List Write} {is : List Insert}
    (h : insertions t old now added changes = some is) :
    (∀ i ∈ is, ∃ c ∈ changes, ∃ prior, find old c.address = some prior ∧ insertAt t now added prior c = some i) ∧
      (∀ c ∈ changes, ∀ prior, find old c.address = some prior → ∃ i ∈ is, insertAt t now added prior c = some i) ∧
      (is.map Insert.head).Sublist (changes.map Write.address) := by
  induction changes generalizing is with
  | nil =>
    obtain rfl := Option.some.inj h
    exact ⟨fun i hi => absurd hi List.not_mem_nil, fun c hc => absurd hc List.not_mem_nil, .slnil⟩
  | cons c changes ih =>
    unfold insertions at h
    split at h
    · next hnone =>
      obtain ⟨hfrom, hto, hsub⟩ := ih h
      refine ⟨fun i hi => ?_, fun d hd prior hprior => ?_, hsub.cons _⟩
      · obtain ⟨d, hd, hrest⟩ := hfrom i hi
        exact ⟨d, List.mem_cons_of_mem _ hd, hrest⟩
      · cases List.mem_cons.1 hd with
        | inl heq => rw [heq, hnone] at hprior; cases hprior
        | inr hd => exact hto d hd prior hprior
    · next prior hprior =>
      split at h
      · cases h
      next i hi =>
      obtain ⟨js, hjs, rfl⟩ := Option.map_eq_some_iff.1 h
      obtain ⟨hfrom, hto, hsub⟩ := ih hjs
      refine ⟨fun k hk => ?_, fun d hd prior' hprior' => ?_, ?_⟩
      · cases List.mem_cons.1 hk with
        | inl heq => exact ⟨c, List.mem_cons_self .., prior, hprior, heq ▸ hi⟩
        | inr hk =>
          obtain ⟨d, hd, hrest⟩ := hfrom k hk
          exact ⟨d, List.mem_cons_of_mem _ hd, hrest⟩
      · cases List.mem_cons.1 hd with
        | inl heq =>
          subst heq
          obtain rfl : prior = prior' := Option.some.inj (hprior.symm.trans hprior')
          exact ⟨i, List.mem_cons_self .., hi⟩
        | inr hd =>
          obtain ⟨k, hk, hinsert⟩ := hto d hd prior' hprior'
          exact ⟨k, List.mem_cons_of_mem _ hk, hinsert⟩
      · rw [List.map_cons, List.map_cons, (insertAt_some hi).2.2.2.1]
        exact hsub.cons_cons _

/-- A head with what the tail put behind it, between the list that the core left and the one of the replay. -/
structure Insert.Sound (i : Insert) (j : Journal) (r1 r2 : Ram) (t : Tail) (live : List Node) : Prop where
  changed : r2 i.head ≠ r1 i.head
  first : i.first = linkOf (r2 i.head)
  bare : payloadBytes (r2 i.head) = 0
  enters : t.holds i.first = true
  prior : ∃ n ∈ j.core, n.address = i.head ∧ Segment r2 i.first i.nodes n.link ∧ t.holds n.link = false
  current : ∃ n ∈ live, n.address = i.head ∧ n.empty = true ∧ i.onward = n.link
  nodes : ∀ n ∈ i.nodes, n ∈ j.added ∧ t.holds n.address = true

section Prepared

variable {j : Journal} {r1 r2 ram : Ram} {currentCursor : Word} {cursorAt : ℕ} {t : Tail} {live : List Node}
  {inserts : List Insert} {packets others : List Write}

theorem Recorded.added_header (h : Recorded j r1 r2) {n : Node} (hn : n ∈ j.added) :
    n.header = r2 n.address ∧ n.address % 4 = 0 ∧ n.stop ≤ ramBytes :=
  (walk_iff.1 h.complete).1.mem (h.mem_added.1 hn).1

theorem Prepared.nodup_live (h : Prepared j ram currentCursor cursorAt t live inserts packets others) :
    (live.map Node.address).Nodup := (walk_iff.1 h.walked).2.2.nodup

theorem Prepared.sound (hrec : Recorded j r1 r2)
    (h : Prepared j ram currentCursor cursorAt t live inserts packets others) {i : Insert} (hi : i ∈ inserts) :
    i.Sound j r1 r2 t live := by
  obtain ⟨c, hc, prior, hprior, hinsert⟩ := (insertions_some h.heads).1 i hi
  obtain ⟨-, -, hchanged, hvalue⟩ := hrec.mem_changes.1 hc
  obtain ⟨-, hbare, henters, hhead, hfirst, ⟨current, hcurrent, hempty, honward⟩, hchain⟩ := insertAt_some hinsert
  rw [find_sorted hrec.nodup_core] at hprior
  rw [find_sorted h.nodup_live] at hcurrent
  obtain ⟨hseg, hnodes, hout⟩ := chainFrom_segment (fun n hn => hrec.added_header hn) hchain
  rw [hvalue, ← hhead] at hfirst
  rw [hvalue, ← hhead, ← hfirst] at hseg henters
  refine ⟨hhead ▸ hchanged, hfirst, ?_, henters, ⟨prior, hprior.1, hprior.2.trans hhead.symm, hseg, hout⟩,
    ⟨current, hcurrent.1, hcurrent.2.trans hhead.symm, hempty, honward⟩, hnodes⟩
  rw [payloadBytes, hhead, ← hvalue, hbare]

/-- The changed words of the core's list are the heads. -/
theorem Prepared.head_of_changed (hrec : Recorded j r1 r2)
    (h : Prepared j ram currentCursor cursorAt t live inserts packets others) {n : Node} (hn : n ∈ j.core)
    (hchanged : r2 n.address ≠ r1 n.address) : ∃ i ∈ inserts, i.head = n.address := by
  obtain ⟨-, halign, hstop⟩ := (walk_iff.1 hrec.core).1.mem hn
  have hc : (⟨n.address, r2 n.address⟩ : Write) ∈ j.changes :=
    hrec.mem_changes.2 ⟨halign, Node.address_lt hstop, hchanged, rfl⟩
  obtain ⟨i, hi, hinsert⟩ := (insertions_some h.heads).2.1 _ hc n ((find_sorted hrec.nodup_core).2 ⟨hn, rfl⟩)
  exact ⟨i, hi, (insertAt_some hinsert).2.2.2.1⟩

theorem Prepared.nodup_heads (hrec : Recorded j r1 r2)
    (h : Prepared j ram currentCursor cursorAt t live inserts packets others) : (inserts.map Insert.head).Nodup :=
  (insertions_some h.heads).2.2.nodup (List.pairwise_map.2 (hrec.sorted.imp fun hlt => hlt.ne))

/-- The appended packets are those of the insertions, each once. -/
theorem Prepared.mem_added (hrec : Recorded j r1 r2)
    (h : Prepared j ram currentCursor cursorAt t live inserts packets others) {n : Node} (hn : n ∈ j.added) :
    ∃ i ∈ inserts, n ∈ i.nodes := by
  have hnodup : (j.added.map Node.address).Nodup := by
    refine List.pairwise_map.2 (h.region.2.imp fun {m n} hmn heq => ?_)
    have := m.address_lt_stop
    omega
  have hsub : owned inserts ⊆ j.added.map Node.address := by
    intro a ha
    obtain ⟨i, hi, ha⟩ := List.mem_flatMap.1 ha
    obtain ⟨m, hm, rfl⟩ := List.mem_map.1 ha
    exact List.mem_map_of_mem ((h.sound hrec hi).nodes m hm).1
  have hperm := (List.subperm_of_subset h.once.2 hsub).perm_of_length_le (by simp [h.once.1])
  obtain ⟨i, hi, ha⟩ := List.mem_flatMap.1 (hperm.mem_iff.2 (List.mem_map_of_mem hn))
  obtain ⟨m, hm, heq⟩ := List.mem_map.1 ha
  obtain rfl := List.inj_on_of_nodup_map hnodup ((h.sound hrec hi).nodes m hm).1 hn heq
  exact ⟨i, hi, hm⟩

end Prepared

/-! ## The writes -/

theorem movedPackets_some {j : Journal} {t : Tail} {ends : List (ℕ × ℕ)} {ns : List Node} {ws : List Write}
    (h : movedPackets j t ends ns = some ws) :
    (∀ n ∈ ns, (∃ link, movedLink t ends n = some link ∧ ⟨t.relocate n.address, movedHeader n.header link⟩ ∈ ws) ∧
      ∀ a ∈ n.payload, ⟨t.relocate a, tailWord j a⟩ ∈ ws) ∧
      ∀ w ∈ ws, ∃ n ∈ ns, (∃ link, movedLink t ends n = some link ∧
        w = ⟨t.relocate n.address, movedHeader n.header link⟩) ∨ ∃ a ∈ n.payload, w = ⟨t.relocate a, tailWord j a⟩ := by
  induction ns generalizing ws with
  | nil =>
    obtain rfl := Option.some.inj h
    exact ⟨fun n hn => absurd hn List.not_mem_nil, fun w hw => absurd hw List.not_mem_nil⟩
  | cons n ns ih =>
    unfold movedPackets at h
    split at h
    · cases h
    next link hlink =>
    obtain ⟨vs, hvs, rfl⟩ := Option.map_eq_some_iff.1 h
    obtain ⟨hto, hfrom⟩ := ih hvs
    have hlift : ∀ w ∈ vs, w ∈ (⟨t.relocate n.address, movedHeader n.header link⟩ : Write) ::
        ((n.payload.map fun a => ⟨t.relocate a, tailWord j a⟩) ++ vs) := fun w hw =>
      List.mem_cons_of_mem _ (List.mem_append_right _ hw)
    constructor
    · intro m hm
      cases List.mem_cons.1 hm with
      | inl heq =>
        subst heq
        refine ⟨⟨link, hlink, List.mem_cons_self ..⟩, fun a ha => ?_⟩
        exact List.mem_cons_of_mem _ (List.mem_append_left _ (List.mem_map.2 ⟨a, ha, rfl⟩))
      | inr hm =>
        obtain ⟨⟨link', hlink', hmem⟩, hpayload⟩ := hto m hm
        exact ⟨⟨link', hlink', hlift _ hmem⟩, fun a ha => hlift _ (hpayload a ha)⟩
    · intro w hw
      cases List.mem_cons.1 hw with
      | inl heq => exact ⟨n, List.mem_cons_self .., Or.inl ⟨link, hlink, heq⟩⟩
      | inr hw =>
        cases List.mem_append.1 hw with
        | inl hw =>
          obtain ⟨a, ha, rfl⟩ := List.mem_map.1 hw
          exact ⟨n, List.mem_cons_self .., Or.inr ⟨a, ha, rfl⟩⟩
        | inr hw =>
          obtain ⟨m, hm, hrest⟩ := hfrom w hw
          exact ⟨m, List.mem_cons_of_mem _ hm, hrest⟩

/-- The cursor behind the moved packets. -/
def cursorValue (t : Tail) (currentCursor : Word) : Word := currentCursor &&& 0xFFE00000 ||| BitVec.ofNat 32 t.newEnd

/-- The write that a changed word is carried over as. -/
structure Carries (t : Tail) (old now : List Node) (currentCursor : Word) (cursorAt : ℕ) (c w : Write) : Prop where
  outside : t.holds c.address = false
  unlisted : find old c.address = none
  address : w.address = c.address
  value : (c.address = cursorAt ∧ w.value = cursorValue t currentCursor) ∨
    (c.address ≠ cursorAt ∧ w.value = c.value ∧ covers now c.address = false)

section Carried

variable {t : Tail} {old now : List Node} {currentCursor : Word} {cursorAt : ℕ} {changes ws : List Write}

theorem carried_cons {c : Write} (h : carried t old now currentCursor cursorAt (c :: changes) = some ws) :
    (carried t old now currentCursor cursorAt changes = some ws ∧
      ¬(t.holds c.address = false ∧ find old c.address = none)) ∨
    ∃ w vs, ws = w :: vs ∧ carried t old now currentCursor cursorAt changes = some vs ∧
      Carries t old now currentCursor cursorAt c w := by
  unfold carried at h
  split at h
  · next hskip => exact Or.inl ⟨h, fun hkeep => by simp [hkeep.1, hkeep.2] at hskip⟩
  next hkeep =>
  simp only [not_or, Bool.not_eq_true, Option.isSome_eq_false_iff, Option.isNone_iff_eq_none] at hkeep
  split at h
  · next hcursor =>
    split at h
    · cases h
    obtain ⟨vs, hvs, rfl⟩ := Option.map_eq_some_iff.1 h
    exact Or.inr ⟨_, vs, rfl, hvs, hkeep.1, hkeep.2, rfl, Or.inl ⟨hcursor, rfl⟩⟩
  · next hcursor =>
    split at h
    · cases h
    next hhit =>
    obtain ⟨vs, hvs, rfl⟩ := Option.map_eq_some_iff.1 h
    exact Or.inr ⟨c, vs, rfl, hvs, hkeep.1, hkeep.2, rfl, Or.inr ⟨hcursor, rfl, by simpa using hhit⟩⟩

theorem carried_some (h : carried t old now currentCursor cursorAt changes = some ws) :
    (∀ w ∈ ws, ∃ c ∈ changes, Carries t old now currentCursor cursorAt c w) ∧
      ∀ c ∈ changes, t.holds c.address = false → find old c.address = none → ∃ w ∈ ws, w.address = c.address := by
  induction changes generalizing ws with
  | nil =>
    obtain rfl := Option.some.inj h
    exact ⟨fun w hw => absurd hw List.not_mem_nil, fun c hc => absurd hc List.not_mem_nil⟩
  | cons c changes ih =>
    cases carried_cons h with
    | inl hskip =>
      obtain ⟨hfrom, hto⟩ := ih hskip.1
      refine ⟨fun w hw => ?_, fun d hd hholds hnone => ?_⟩
      · obtain ⟨d, hd, hcarries⟩ := hfrom w hw
        exact ⟨d, List.mem_cons_of_mem _ hd, hcarries⟩
      · cases List.mem_cons.1 hd with
        | inl heq => exact absurd ⟨heq ▸ hholds, heq ▸ hnone⟩ hskip.2
        | inr hd => exact hto d hd hholds hnone
    | inr hkeep =>
      obtain ⟨v, vs, rfl, hvs, hcarries⟩ := hkeep
      obtain ⟨hfrom, hto⟩ := ih hvs
      refine ⟨fun w hw => ?_, fun d hd hholds hnone => ?_⟩
      · cases List.mem_cons.1 hw with
        | inl heq => exact ⟨c, List.mem_cons_self .., heq ▸ hcarries⟩
        | inr hw =>
          obtain ⟨d, hd, hcarries'⟩ := hfrom w hw
          exact ⟨d, List.mem_cons_of_mem _ hd, hcarries'⟩
      · cases List.mem_cons.1 hd with
        | inl heq => exact ⟨v, List.mem_cons_self .., heq ▸ hcarries.address⟩
        | inr hd =>
          obtain ⟨w, hw, heq⟩ := hto d hd hholds hnone
          exact ⟨w, List.mem_cons_of_mem _ hw, heq⟩

end Carried

end PsxRecomp.OTRelocation
