import Mathlib
import PsxRecomp.RenderPass.Relocation

/-! What a splice is for: the list of the replay with the tail's packets behind the heads that it had inserted them at,
and when the words that are written leave just that. -/
namespace PsxRecomp.OTRelocation
set_option autoImplicit false

/-! ## The packets that a tail put behind a head -/

/-- The nodes of the complete list between a node of the core's list and the next. -/
def inserted (core complete : List Node) (head : ℕ) : List Node :=
  if head ∈ core.map Node.address then
    ((complete.dropWhile fun n => n.address ≠ head).tail).takeWhile fun n => n.address ∉ core.map Node.address
  else []

/-- A list with others put behind its nodes. -/
def weave (ns : List Node) (header : Ram) (f : ℕ → List Node) : List Node :=
  ns.flatMap fun n => ⟨n.address, header n.address⟩ :: f n.address

theorem inserted_weave {core : List Node} {header : Ram} {f : ℕ → List Node} (hnodup : (core.map Node.address).Nodup)
    (hf : ∀ n ∈ core, ∀ p ∈ f n.address, p.address ∉ core.map Node.address) {n : Node} (hn : n ∈ core) :
    inserted core (weave core header f) n.address = f n.address := by
  rw [inserted, if_pos (List.mem_map_of_mem hn)]
  suffices hsuff : ∀ ns : List Node, ns ⊆ core → (ns.map Node.address).Nodup → n ∈ ns →
      (((weave ns header f).dropWhile fun m => m.address ≠ n.address).tail).takeWhile
        (fun m => m.address ∉ core.map Node.address) = f n.address from
    hsuff core (List.Subset.refl _) hnodup hn
  intro ns hsub hnodup hn
  induction ns with
  | nil => cases hn
  | cons m ns ih =>
    obtain ⟨hm, hsub⟩ := List.cons_subset.1 hsub
    obtain ⟨hfresh, hnodup⟩ := List.nodup_cons.1 (List.map_cons ▸ hnodup)
    unfold weave
    rw [List.flatMap_cons, List.cons_append]
    by_cases heq : m.address = n.address
    · have hout : ∀ p ∈ f n.address, p.address ∉ core.map Node.address := heq ▸ hf m hm
      rw [List.dropWhile_cons_of_neg (by simpa using heq), List.tail_cons, heq,
        List.takeWhile_append_of_pos fun p hp => by simpa using hout p hp]
      cases ns with
      | nil => simp
      | cons m' ns =>
        have hm' : m'.address ∈ core.map Node.address := List.mem_map_of_mem (hsub (List.mem_cons_self ..))
        rw [List.flatMap_cons, List.cons_append, List.takeWhile_cons_of_neg (by simpa using hm'), List.append_nil]
    · have hn : n ∈ ns := by
        cases List.mem_cons.1 hn with
        | inl h => exact absurd (by rw [h]) heq
        | inr h => exact h
      rw [List.dropWhile_cons_of_pos (by simpa using heq), List.dropWhile_append_of_pos fun p hp => ?_]
      · exact ih hsub hnodup hn
      · have := hf m hm p hp
        simp only [ne_eq, decide_eq_true_eq]
        exact fun h => this (h ▸ List.mem_map_of_mem (hsub hn))

theorem Segment.weave {base ram : Ram} {start last : ℕ} {ns : List Node} {f : ℕ → List Node}
    (h : Segment base start ns last) (hf : ∀ n ∈ ns, Node.stop ⟨n.address, ram n.address⟩ ≤ ramBytes ∧
      Segment ram (linkOf (ram n.address)) (f n.address) n.link) :
    Segment ram start (weave ns ram f) last := by
  induction ns generalizing start with
  | nil => exact h
  | cons n ns ih =>
    obtain ⟨hn, halign, -, hrest⟩ := h
    obtain ⟨hstop, hseg⟩ := hf n (List.mem_cons_self ..)
    have haddr : n.address = start := by rw [hn]
    rw [OTRelocation.weave, List.flatMap_cons, haddr, List.cons_append]
    rw [haddr] at hstop hseg
    exact ⟨rfl, halign, hstop, hseg.append (ih hrest fun m hm => hf m (List.mem_cons_of_mem _ hm))⟩

/-- The packets of the insertion at a head. -/
def nodesAt (inserts : List Insert) (head : ℕ) : List Node :=
  ((inserts.find? fun i => i.head = head).map Insert.nodes).getD []

theorem nodesAt_of_mem {inserts : List Insert} (hnodup : (inserts.map Insert.head).Nodup) {i : Insert}
    (hi : i ∈ inserts) : nodesAt inserts i.head = i.nodes := by
  unfold nodesAt
  cases hfound : inserts.find? fun k => k.head = i.head with
  | none =>
    have := List.find?_eq_none.1 hfound i hi
    simp at this
  | some k =>
    have hk : k.head = i.head := by simpa using List.find?_some hfound
    rw [List.inj_on_of_nodup_map hnodup (List.mem_of_find?_eq_some hfound) hi hk]
    rfl

theorem mem_nodesAt {inserts : List Insert} {head : ℕ} {n : Node} (hn : n ∈ nodesAt inserts head) :
    ∃ i ∈ inserts, i.head = head ∧ n ∈ i.nodes := by
  unfold nodesAt at hn
  cases hfound : inserts.find? fun k => k.head = head with
  | none => rw [hfound] at hn; exact absurd hn List.not_mem_nil
  | some i =>
    rw [hfound] at hn
    exact ⟨i, List.mem_of_find?_eq_some hfound, by simpa using List.find?_some hfound, hn⟩

theorem nodesAt_none {inserts : List Insert} {head : ℕ} (h : head ∉ inserts.map Insert.head) :
    nodesAt inserts head = [] := by
  refine List.eq_nil_iff_forall_not_mem.2 fun n hn => ?_
  obtain ⟨i, hi, rfl, -⟩ := mem_nodesAt hn
  exact h (List.mem_map_of_mem hi)

section Prepared

variable {j : Journal} {r1 r2 ram : Ram} {currentCursor : Word} {cursorAt : ℕ} {t : Tail} {live : List Node}
  {inserts : List Insert} {packets others : List Write}

/-- The list that the tail left is the core's with the insertions. -/
theorem Prepared.complete_eq (hrec : Recorded j r1 r2)
    (h : Prepared j ram currentCursor cursorAt t live inserts packets others) :
    j.complete = weave j.core r2 (nodesAt inserts) := by
  have hcore := (walk_iff.1 hrec.core).1
  refine (walk_iff.1 hrec.complete).1.unique (by decide) (hcore.weave fun n hn => ?_)
  obtain ⟨hheader, -, hstop⟩ := hcore.mem hn
  by_cases hchanged : r2 n.address = r1 n.address
  · have hnone : n.address ∉ inserts.map Insert.head := by
      intro hmem
      obtain ⟨i, hi, hhead⟩ := List.mem_map.1 hmem
      exact (h.sound hrec hi).changed (hhead ▸ hchanged)
    rw [nodesAt_none hnone, hchanged, ← hheader]
    exact ⟨hstop, rfl⟩
  · obtain ⟨i, hi, hhead⟩ := h.head_of_changed hrec hn hchanged
    have hsound := h.sound hrec hi
    obtain ⟨m, hm, hmaddr, hseg, -⟩ := hsound.prior
    obtain rfl := List.inj_on_of_nodup_map hrec.nodup_core hm hn (hmaddr.trans hhead)
    rw [← hhead, nodesAt_of_mem (h.nodup_heads hrec) hi]
    refine ⟨?_, hsound.first ▸ hseg⟩
    have hbare := hsound.bare
    simp only [Node.stop] at hstop ⊢
    omega

theorem Prepared.inserted_eq (hrec : Recorded j r1 r2)
    (h : Prepared j ram currentCursor cursorAt t live inserts packets others) :
    inserted j.core j.complete = nodesAt inserts := by
  funext head
  by_cases hmem : head ∈ j.core.map Node.address
  · obtain ⟨n, hn, rfl⟩ := List.mem_map.1 hmem
    rw [h.complete_eq hrec]
    refine inserted_weave hrec.nodup_core (fun m _ p hp => ?_) hn
    obtain ⟨i, hi, -, hp⟩ := mem_nodesAt hp
    exact (hrec.mem_added.1 ((h.sound hrec hi).nodes p hp).1).2
  · rw [inserted, if_neg hmem, nodesAt_none]
    intro hhead
    obtain ⟨i, hi, rfl⟩ := List.mem_map.1 hhead
    obtain ⟨n, hn, haddr, -⟩ := (h.sound hrec hi).prior
    exact hmem (List.mem_map.2 ⟨n, hn, haddr⟩)

end Prepared

/-! ## The packets once they are moved -/

/-- Packets with what each of them links to once they are moved. -/
def runLinks (t : Tail) (onward : ℕ) : List Node → List (Node × ℕ)
  | [] => []
  | n :: ns => (n, (ns.head?.map fun m => t.relocate m.address).getD onward) :: runLinks t onward ns

def moved (t : Tail) (core complete live : List Node) : List (Node × ℕ) :=
  live.flatMap fun n => runLinks t n.link (inserted core complete n.address)

theorem mem_runLinks {t : Tail} {onward : ℕ} {ns : List Node} {p : Node × ℕ} (hp : p ∈ runLinks t onward ns) :
    p.1 ∈ ns := by
  induction ns with
  | nil => cases hp
  | cons n ns ih =>
    cases List.mem_cons.1 hp with
    | inl h => rw [h]; exact List.mem_cons_self ..
    | inr h => exact List.mem_cons_of_mem _ (ih h)

theorem runLinks_of_mem {t : Tail} {onward : ℕ} {ns : List Node} {n : Node} (hn : n ∈ ns) :
    ∃ link, (n, link) ∈ runLinks t onward ns := by
  induction ns with
  | nil => cases hn
  | cons m ns ih =>
    cases List.mem_cons.1 hn with
    | inl h => subst h; exact ⟨_, List.mem_cons_self ..⟩
    | inr h =>
      obtain ⟨link, hlink⟩ := ih h
      exact ⟨link, List.mem_cons_of_mem _ hlink⟩

section Prepared

variable {j : Journal} {r1 r2 ram : Ram} {currentCursor : Word} {cursorAt : ℕ} {t : Tail} {live : List Node}
  {inserts : List Insert} {packets others : List Write}

theorem Prepared.mem_moved (hrec : Recorded j r1 r2)
    (h : Prepared j ram currentCursor cursorAt t live inserts packets others) {p : Node × ℕ} :
    p ∈ moved t j.core j.complete live ↔ ∃ i ∈ inserts, p ∈ runLinks t i.onward i.nodes := by
  unfold moved
  rw [h.inserted_eq hrec, List.mem_flatMap]
  constructor
  · rintro ⟨n, hn, hp⟩
    obtain ⟨i, hi, hhead, -⟩ := mem_nodesAt (mem_runLinks hp)
    obtain ⟨m, hm, hmaddr, -, honward⟩ := (h.sound hrec hi).current
    obtain rfl := List.inj_on_of_nodup_map h.nodup_live hm hn (hmaddr.trans hhead)
    rw [← hhead, nodesAt_of_mem (h.nodup_heads hrec) hi, ← honward] at hp
    exact ⟨i, hi, hp⟩
  · rintro ⟨i, hi, hp⟩
    obtain ⟨m, hm, hmaddr, -, honward⟩ := (h.sound hrec hi).current
    refine ⟨m, hm, ?_⟩
    rwa [hmaddr, nodesAt_of_mem (h.nodup_heads hrec) hi, ← honward]

theorem Prepared.added_of_moved (hrec : Recorded j r1 r2)
    (h : Prepared j ram currentCursor cursorAt t live inserts packets others) {p : Node × ℕ}
    (hp : p ∈ moved t j.core j.complete live) : p.1 ∈ j.added := by
  obtain ⟨i, hi, hp⟩ := (h.mem_moved hrec).1 hp
  exact ((h.sound hrec hi).nodes _ (mem_runLinks hp)).1

/-- The insertions share no packet. -/
theorem Prepared.owner (h : Prepared j ram currentCursor cursorAt t live inserts packets others) {i k : Insert}
    (hi : i ∈ inserts) (hk : k ∈ inserts) {m n : Node} (hm : m ∈ i.nodes) (hn : n ∈ k.nodes)
    (heq : m.address = n.address) : i = k := by
  have hpairs := (List.nodup_flatMap.1 h.once.2).2
  by_contra hne
  have hsymm : Std.Symm (Function.onFun List.Disjoint fun i : Insert => i.nodes.map Node.address) :=
    ⟨fun _ _ hdisj _ ha hb => hdisj hb ha⟩
  exact hpairs.forall hi hk hne (List.mem_map_of_mem hm) (heq ▸ List.mem_map_of_mem hn)

theorem Prepared.nodup_nodes (h : Prepared j ram currentCursor cursorAt t live inserts packets others) {i : Insert}
    (hi : i ∈ inserts) : (i.nodes.map Node.address).Nodup := (List.nodup_flatMap.1 h.once.2).1 i hi

theorem runLinks_link {onward link out : ℕ} {ns : List Node} {p : Node × ℕ} (hseg : Segment r2 link ns out)
    (hin : ∀ n ∈ ns, t.holds n.address = true) (hout : t.holds out = false) (hp : p ∈ runLinks t onward ns) :
    (t.holds p.1.link = true ∧ p.2 = t.relocate p.1.link) ∨
      (t.holds p.1.link = false ∧ p.2 = onward ∧ ns.getLast? = some p.1) := by
  induction ns generalizing link with
  | nil => cases hp
  | cons n ns ih =>
    obtain ⟨-, -, -, hrest⟩ := hseg
    cases ns with
    | nil =>
      obtain rfl : p = (n, onward) := by simpa [runLinks] using hp
      have hlink : n.link = out := hrest
      exact Or.inr ⟨hlink ▸ hout, rfl, rfl⟩
    | cons m ns =>
      cases List.mem_cons.1 hp with
      | inl h =>
        have hlink : n.link = m.address := by rw [hrest.1]
        subst h
        refine Or.inl ⟨?_, ?_⟩
        · rw [hlink]
          exact hin m (by simp)
        · rw [hlink]
          rfl
      | inr h =>
        have hih := ih hrest (fun k hk => hin k (List.mem_cons_of_mem _ hk)) h
        rwa [List.getLast?_cons_cons]

/-- A packet gets the link that the list of moved packets has for it. -/
theorem Prepared.moved_link (hrec : Recorded j r1 r2)
    (h : Prepared j ram currentCursor cursorAt t live inserts packets others) {p : Node × ℕ}
    (hp : p ∈ moved t j.core j.complete live) : movedLink t (terminals inserts) p.1 = some p.2 := by
  obtain ⟨i, hi, hp⟩ := (h.mem_moved hrec).1 hp
  have hsound := h.sound hrec hi
  obtain ⟨n, -, -, hseg, hout⟩ := hsound.prior
  unfold movedLink
  cases runLinks_link hseg (fun n hn => (hsound.nodes n hn).2) hout hp with
  | inl hin => rw [if_pos hin.1, hin.2]
  | inr hlast =>
    obtain ⟨hleaves, honward, hget⟩ := hlast
    rw [if_neg (by simp [hleaves])]
    have hmem : (p.1.address, i.onward) ∈ terminals inserts :=
      List.mem_filterMap.2 ⟨i, hi, by rw [hget]; rfl⟩
    cases hfound : (terminals inserts).find? fun e => e.1 = p.1.address with
    | none =>
      have := List.find?_eq_none.1 hfound _ hmem
      simp at this
    | some e =>
      have haddr : e.1 = p.1.address := by simpa using List.find?_some hfound
      obtain ⟨k, hk, hkget⟩ := List.mem_filterMap.1 (List.mem_of_find?_eq_some hfound)
      obtain ⟨m, hm, rfl⟩ := Option.map_eq_some_iff.1 hkget
      obtain rfl := h.owner hk hi (List.mem_of_getLast? hm) (mem_runLinks hp) haddr
      exact congrArg some honward.symm

end Prepared

/-! ## The memory as it should be -/

/-- The addresses of a packet's words, its header first. -/
def Node.cells (n : Node) : List ℕ := n.address :: n.payload

/-- The replay's memory with the moved packets in it and its heads before them. -/
def settled (t : Tail) (core complete live : List Node) (r2 r3 : Ram) (a : ℕ) : Word :=
  match (moved t core complete live).find? fun p => a ∈ p.1.cells.map t.relocate with
  | some p =>
    if a = t.relocate p.1.address then movedHeader p.1.header p.2 else r2 (t.oldFirst + (a - t.newFirst))
  | none => match inserted core complete a with
    | [] => r3 a
    | n :: _ => if a ∈ live.map Node.address then BitVec.ofNat 32 (t.relocate n.address) else r3 a

section Cells

variable {n m : Node} {a b : ℕ}

theorem Node.mem_payload : a ∈ n.payload ↔ ∃ k < n.header.toNat / 0x1000000, a = n.address + 4 * (k + 1) := by
  simp only [Node.payload, List.mem_map, List.mem_range, eq_comm (a := a)]

theorem Node.cell_bounds (ha : a ∈ n.cells) : n.address ≤ a ∧ a + 4 ≤ n.stop ∧ a % 4 = n.address % 4 := by
  unfold Node.stop payloadBytes
  cases List.mem_cons.1 ha with
  | inl h => subst h; omega
  | inr h =>
    obtain ⟨k, hk, rfl⟩ := Node.mem_payload.1 h
    omega

theorem Node.payload_gt (ha : a ∈ n.payload) : n.address < a := by
  obtain ⟨k, -, rfl⟩ := Node.mem_payload.1 ha
  omega

end Cells

section Prepared

variable {j : Journal} {r1 r2 ram : Ram} {currentCursor : Word} {cursorAt : ℕ} {t : Tail} {live : List Node}
  {inserts : List Insert} {packets others : List Write} {m n : Node} {a b : ℕ}

theorem Prepared.relocate_bounds (hrec : Recorded j r1 r2)
    (h : Prepared j ram currentCursor cursorAt t live inserts packets others) (hn : n ∈ j.added) (ha : a ∈ n.cells) :
    t.oldFirst + (t.relocate a - t.newFirst) = a ∧ t.newFirst ≤ t.relocate a ∧ t.relocate a + 4 ≤ t.newEnd ∧
      t.newEnd ≤ ramBytes ∧ t.relocate a % 4 = 0 := by
  obtain ⟨hle, hstop, -, -⟩ := h.region.1 n hn
  obtain ⟨-, halign, -⟩ := hrec.added_header hn
  obtain ⟨hlow, hhigh, hmod⟩ := Node.cell_bounds ha
  obtain ⟨hold, hnew⟩ := h.aligned
  have hfits := h.fits
  have hfirst : t.newFirst < ramBytes := h.newFirst ▸ Nat.mod_lt _ (by decide)
  unfold Tail.relocate Tail.newEnd
  omega

theorem Prepared.relocate_inj (hrec : Recorded j r1 r2)
    (h : Prepared j ram currentCursor cursorAt t live inserts packets others) (hm : m ∈ j.added) (ha : a ∈ m.cells)
    (hn : n ∈ j.added) (hb : b ∈ n.cells) (heq : t.relocate a = t.relocate b) : a = b ∧ m = n := by
  have hback := (h.relocate_bounds hrec hm ha).1
  have hback' := (h.relocate_bounds hrec hn hb).1
  rw [heq] at hback
  have hab : a = b := hback.symm.trans hback'
  refine ⟨hab, ?_⟩
  by_contra hne
  have happart : Scattered j.added := h.region.2.imp Or.inl
  have := happart.apart hm hn hne
  obtain ⟨hlow, hhigh, -⟩ := Node.cell_bounds ha
  obtain ⟨hlow', hhigh', -⟩ := Node.cell_bounds hb
  omega

/-- A moved packet lies clear of the replay's list. -/
theorem Prepared.relocate_clear (hrec : Recorded j r1 r2)
    (h : Prepared j ram currentCursor cursorAt t live inserts packets others) (hm : m ∈ j.added) (ha : a ∈ m.cells)
    (hn : n ∈ live) (hb : b ∈ n.cells) : b ≠ t.relocate a := by
  obtain ⟨-, hlow, hhigh, -⟩ := h.relocate_bounds hrec hm ha
  obtain ⟨hlow', hhigh', -⟩ := Node.cell_bounds hb
  have := h.clear n hn
  omega

theorem Prepared.settled_moved (hrec : Recorded j r1 r2)
    (h : Prepared j ram currentCursor cursorAt t live inserts packets others) {p : Node × ℕ}
    (hp : p ∈ moved t j.core j.complete live) (ha : a ∈ p.1.cells) :
    settled t j.core j.complete live r2 ram (t.relocate a) =
      if a = p.1.address then movedHeader p.1.header p.2 else r2 a := by
  have hadded := h.added_of_moved hrec hp
  have hmem : t.relocate a ∈ p.1.cells.map t.relocate := List.mem_map_of_mem ha
  unfold settled
  cases hfound : (moved t j.core j.complete live).find? fun p => t.relocate a ∈ p.1.cells.map t.relocate with
  | none =>
    have := List.find?_eq_none.1 hfound p hp
    simp only [hmem, decide_true, not_true_eq_false] at this
  | some q =>
    have hq := List.mem_of_find?_eq_some hfound
    obtain ⟨b, hb, heq⟩ := List.mem_map.1 (by simpa using List.find?_some hfound : t.relocate a ∈ q.1.cells.map t.relocate)
    obtain ⟨rfl, hnode⟩ := h.relocate_inj hrec (h.added_of_moved hrec hq) hb hadded ha heq
    have hlink := (h.moved_link hrec hq).symm.trans (hnode ▸ h.moved_link hrec hp)
    have hhead : t.relocate b = t.relocate p.1.address ↔ b = p.1.address :=
      ⟨fun heq => (h.relocate_inj hrec hadded ha hadded (List.mem_cons_self ..) heq).1, fun heq => by rw [heq]⟩
    simp only [hnode, hhead, Option.some.inj hlink, (h.relocate_bounds hrec hadded ha).1]

/-- Whether a word is one of a moved packet. -/
def InMoved (t : Tail) (core complete live : List Node) (a : ℕ) : Prop :=
  ∃ p ∈ moved t core complete live, a ∈ p.1.cells.map t.relocate

theorem settled_unmoved {core complete : List Node} {r3 : Ram} (hout : ¬InMoved t core complete live a) :
    settled t core complete live r2 r3 a = match inserted core complete a with
      | [] => r3 a
      | n :: _ => if a ∈ live.map Node.address then BitVec.ofNat 32 (t.relocate n.address) else r3 a := by
  unfold settled
  have hnone : (moved t core complete live).find? (fun p => a ∈ p.1.cells.map t.relocate) = none :=
    List.find?_eq_none.2 fun p hp hmem => hout ⟨p, hp, by simpa using hmem⟩
  rw [hnone]

theorem Prepared.unmoved_of_live (hrec : Recorded j r1 r2)
    (h : Prepared j ram currentCursor cursorAt t live inserts packets others) (hn : n ∈ live) (ha : a ∈ n.cells) :
    ¬InMoved t j.core j.complete live a := by
  rintro ⟨p, hp, hmem⟩
  obtain ⟨b, hb, rfl⟩ := List.mem_map.1 hmem
  exact h.relocate_clear hrec (h.added_of_moved hrec hp) hb hn ha rfl

theorem Prepared.nodes_ne (hrec : Recorded j r1 r2)
    (h : Prepared j ram currentCursor cursorAt t live inserts packets others) {i : Insert} (hi : i ∈ inserts) :
    i.nodes ≠ [] := by
  intro hnil
  have hsound := h.sound hrec hi
  obtain ⟨prior, -, -, hseg, hout⟩ := hsound.prior
  have henters := hsound.enters
  rw [hnil] at hseg
  rw [show i.first = prior.link from hseg, hout] at henters
  cases henters

theorem Prepared.settled_head (hrec : Recorded j r1 r2)
    (h : Prepared j ram currentCursor cursorAt t live inserts packets others) {i : Insert} (hi : i ∈ inserts) :
    settled t j.core j.complete live r2 ram i.head = BitVec.ofNat 32 (t.relocate i.first) := by
  have hsound := h.sound hrec hi
  obtain ⟨m, hm, hmaddr, -⟩ := hsound.current
  obtain ⟨prior, -, -, hseg, hout⟩ := hsound.prior
  rw [settled_unmoved (hmaddr ▸ h.unmoved_of_live hrec hm (List.mem_cons_self ..)), h.inserted_eq hrec,
    nodesAt_of_mem (h.nodup_heads hrec) hi]
  cases hnodes : i.nodes with
  | nil => exact absurd hnodes (h.nodes_ne hrec hi)
  | cons n ns =>
    rw [hnodes] at hseg
    have hmem : i.head ∈ live.map Node.address := hmaddr ▸ List.mem_map_of_mem hm
    have hfirst : n.address = i.first := by rw [hseg.1]
    simp only [if_pos hmem, hfirst]

/-- Everything else stays as the replay has it. -/
theorem Prepared.settled_other (hrec : Recorded j r1 r2)
    (h : Prepared j ram currentCursor cursorAt t live inserts packets others)
    (hout : ¬InMoved t j.core j.complete live a) (hhead : a ∉ inserts.map Insert.head) :
    settled t j.core j.complete live r2 ram a = ram a := by
  rw [settled_unmoved hout, h.inserted_eq hrec, nodesAt_none hhead]

theorem Prepared.moved_of_added (hrec : Recorded j r1 r2)
    (h : Prepared j ram currentCursor cursorAt t live inserts packets others) (hn : n ∈ j.added) :
    ∃ link, (n, link) ∈ moved t j.core j.complete live := by
  obtain ⟨i, hi, hnode⟩ := h.mem_added hrec hn
  obtain ⟨link, hlink⟩ := @runLinks_of_mem t i.onward i.nodes n hnode
  exact ⟨link, (h.mem_moved hrec).2 ⟨i, hi, hlink⟩⟩

/-- The words that a packet is moved as. -/
theorem Prepared.packet_writes (hrec : Recorded j r1 r2)
    (h : Prepared j ram currentCursor cursorAt t live inserts packets others) :
    (∀ w ∈ packets, w.value = settled t j.core j.complete live r2 ram w.address ∧
      InMoved t j.core j.complete live w.address) ∧
      ∀ a, InMoved t j.core j.complete live a → a ∈ packets.map Write.address := by
  obtain ⟨hto, hfrom⟩ := movedPackets_some h.moves
  constructor
  · intro w hw
    obtain ⟨n, hn, hkind⟩ := hfrom w hw
    obtain ⟨link, hp⟩ := h.moved_of_added hrec hn
    cases hkind with
    | inl hheader =>
      obtain ⟨link', hlink', rfl⟩ := hheader
      obtain rfl : link' = link := Option.some.inj (hlink'.symm.trans (h.moved_link hrec hp))
      refine ⟨?_, _, hp, List.mem_map_of_mem (List.mem_cons_self ..)⟩
      exact ((h.settled_moved hrec hp (List.mem_cons_self ..)).trans (if_pos rfl)).symm
    | inr hpayload =>
      obtain ⟨a, ha, rfl⟩ := hpayload
      have hcell : a ∈ n.cells := List.mem_cons_of_mem _ ha
      refine ⟨?_, _, hp, List.mem_map_of_mem hcell⟩
      obtain ⟨-, halign, hstop⟩ := hrec.added_header hn
      obtain ⟨-, hhigh, hmod⟩ := Node.cell_bounds hcell
      have hgt := Node.payload_gt ha
      rw [h.settled_moved hrec hp hcell, if_neg (show a ≠ n.address by omega)]
      exact hrec.tailWord (hmod.trans halign) (by omega)
  · rintro a ⟨p, hp, hmem⟩
    obtain ⟨b, hb, rfl⟩ := List.mem_map.1 hmem
    obtain ⟨⟨link, -, hheader⟩, hpayload⟩ := hto p.1 (h.added_of_moved hrec hp)
    cases List.mem_cons.1 hb with
    | inl heq => exact heq ▸ List.mem_map_of_mem hheader
    | inr hb => exact List.mem_map_of_mem (hpayload b hb)

end Prepared

theorem foldl_writes (f : Ram) {ws : List Write} (h : ∀ w ∈ ws, w.value = f w.address) (ram : Ram) :
    ws.foldl (fun r w => Function.update r w.address w.value) ram =
      fun a => if a ∈ ws.map Write.address then f a else ram a := by
  induction ws generalizing ram with
  | nil => simp
  | cons w ws ih =>
    rw [List.foldl_cons, ih fun v hv => h v (List.mem_cons_of_mem _ hv)]
    funext a
    have hw := h w (List.mem_cons_self ..)
    by_cases hin : a ∈ ws.map Write.address
    · simp [hin]
    · by_cases heq : a = w.address
      · simp [heq, hw]
      · simp [hin, heq]

/-- A word that the tail changed outside its own region and the list. -/
structure Carried (t : Tail) (core : List Node) (r1 r2 : Ram) (a : ℕ) : Prop where
  aligned : a % 4 = 0
  inside : a < ramBytes
  changed : r2 a ≠ r1 a
  outside : t.holds a = false
  unlisted : a ∉ core.map Node.address

instance (t : Tail) (core : List Node) (r1 r2 : Ram) (a : ℕ) : Decidable (Carried t core r1 r2 a) :=
  decidable_of_iff (a % 4 = 0 ∧ a < ramBytes ∧ r2 a ≠ r1 a ∧ t.holds a = false ∧ a ∉ core.map Node.address)
    ⟨fun ⟨h1, h2, h3, h4, h5⟩ => ⟨h1, h2, h3, h4, h5⟩, fun ⟨h1, h2, h3, h4, h5⟩ => ⟨h1, h2, h3, h4, h5⟩⟩

section Prepared

variable {j : Journal} {r1 r2 ram : Ram} {currentCursor : Word} {cursorAt : ℕ} {t : Tail} {live : List Node}
  {inserts : List Insert} {packets others : List Write} {m n : Node} {a b : ℕ}

/-- A word carried over: the cursor's, or one outside the replay's packets. -/
theorem Prepared.other_writes (hrec : Recorded j r1 r2)
    (h : Prepared j ram currentCursor cursorAt t live inserts packets others) :
    (∀ w ∈ others, Carried t j.core r1 r2 w.address ∧
      ((w.address = cursorAt ∧ w.value = cursorValue t currentCursor) ∨
        (w.address ≠ cursorAt ∧ w.value = r2 w.address ∧ ∀ n ∈ live, w.address ∉ n.cells))) ∧
      ∀ a, Carried t j.core r1 r2 a → a ∈ others.map Write.address := by
  obtain ⟨hfrom, hto⟩ := carried_some h.rest
  constructor
  · intro w hw
    obtain ⟨c, hc, hcarries⟩ := hfrom w hw
    obtain ⟨halign, hlt, hchanged, hvalue⟩ := hrec.mem_changes.1 hc
    have hunlisted := (find_none hrec.nodup_core).1 hcarries.unlisted
    have haddr := hcarries.address
    rw [haddr]
    refine ⟨⟨halign, hlt, hchanged, hcarries.outside, hunlisted⟩, hcarries.value.imp id fun hother => ?_⟩
    refine ⟨hother.1, hother.2.1.trans hvalue, fun n hn hmem => ?_⟩
    have happart : (sortBy Node.address live).Pairwise fun m n => m.stop ≤ n.address := by
      have hscattered := (walk_iff.1 h.walked).2.2
      have hsorted : (sortBy Node.address live).Pairwise fun m n => m.address ≤ n.address := sortBy_sorted
      have hperm : Scattered (sortBy Node.address live) :=
        (List.Perm.pairwise_iff (fun h => h.symm) sortBy_perm).2 hscattered
      refine (hsorted.and hperm).imp fun {m n} hmn => ?_
      have := n.address_lt_stop
      have := hmn.1
      cases hmn.2 <;> omega
    obtain ⟨hlow, hhigh, -⟩ := Node.cell_bounds hmem
    have hlast := beforeUpperBound_eq happart (fun n _ => n.address_lt_stop.le) (mem_sortBy.2 hn) hlow
      (by omega : c.address < n.stop)
    have hcovers := hother.2.2
    rw [covers, hlast] at hcovers
    simp only [decide_eq_false_iff_not, not_lt] at hcovers
    omega
  · intro a hcarried
    have hc : (⟨a, r2 a⟩ : Write) ∈ j.changes :=
      hrec.mem_changes.2 ⟨hcarried.aligned, hcarried.inside, hcarried.changed, rfl⟩
    obtain ⟨w, hw, heq⟩ := hto _ hc hcarried.outside ((find_none hrec.nodup_core).2 hcarried.unlisted)
    exact (show w.address = a from heq) ▸ List.mem_map_of_mem hw

/-- The memory that the writes leave. -/
theorem Prepared.applied (hrec : Recorded j r1 r2)
    (h : Prepared j ram currentCursor cursorAt t live inserts packets others) :
    (j.readied t inserts packets others).applySplice ram = fun a =>
      if Carried t j.core r1 r2 a then if a = cursorAt then cursorValue t currentCursor else r2 a
      else settled t j.core j.complete live r2 ram a := by
  obtain ⟨hpackets, hmoved⟩ := h.packet_writes hrec
  obtain ⟨hothers, hcarried⟩ := h.other_writes hrec
  have hplaced : (headWrites t inserts ++ packets).foldl (fun r w => Function.update r w.address w.value) ram =
      settled t j.core j.complete live r2 ram := by
    rw [foldl_writes (settled t j.core j.complete live r2 ram) fun w hw => ?_]
    · funext a
      split
      · rfl
      · next hout =>
        rw [List.map_append, List.mem_append, not_or] at hout
        refine (h.settled_other hrec (fun hin => hout.2 (hmoved a hin)) fun hhead => hout.1 ?_).symm
        obtain ⟨i, hi, rfl⟩ := List.mem_map.1 hhead
        exact List.mem_map.2 ⟨_, List.mem_map_of_mem hi, rfl⟩
    · cases List.mem_append.1 hw with
      | inl hw =>
        obtain ⟨i, hi, rfl⟩ := List.mem_map.1 hw
        exact (h.settled_head hrec hi).symm
      | inr hw => exact (hpackets w hw).1
  unfold Journal.applySplice Journal.readied
  dsimp only
  rw [List.foldl_append, hplaced,
    foldl_writes (fun a => if a = cursorAt then cursorValue t currentCursor else r2 a) fun w hw => ?_]
  · funext a
    have hiff : a ∈ others.map Write.address ↔ Carried t j.core r1 r2 a := by
      refine ⟨fun hmem => ?_, hcarried a⟩
      obtain ⟨w, hw, rfl⟩ := List.mem_map.1 hmem
      exact (hothers w hw).1
    simp only [hiff]
  · cases (hothers w hw).2 with
    | inl hcursor => rw [if_pos hcursor.1, hcursor.2]
    | inr hother => rw [if_neg hother.1, hother.2.1]

end Prepared

/-! ## The list that is read back -/

theorem high_and {h k : ℕ} (hlt : h < 2 ^ 32) (hk : k ≤ 32) : h &&& (2 ^ 32 - 2 ^ k) = h / 2 ^ k * 2 ^ k := by
  have hmask : (2 ^ 32 - 2 ^ k) = 2 ^ k * (2 ^ (32 - k) - 1) := by
    rw [Nat.mul_sub, ← pow_add, mul_one]
    congr 2
    omega
  apply Nat.eq_of_testBit_eq
  intro i
  rw [hmask, Nat.mul_comm (h / 2 ^ k), Nat.testBit_and, Nat.testBit_two_pow_mul, Nat.testBit_two_pow_mul,
    Nat.testBit_two_pow_sub_one, Nat.testBit_div_two_pow]
  by_cases hi : k ≤ i
  · have heq : i - k + k = i := by omega
    by_cases hi' : i < 32
    · have : i - k < 32 - k := by omega
      simp [hi, heq, this]
    · have hpow : 2 ^ 32 ≤ 2 ^ i := Nat.pow_le_pow_right (by decide) (by omega)
      simp [hi, heq, Nat.testBit_lt_two_pow (hlt.trans_le hpow)]
  · simp [hi]

theorem movedHeader_toNat (header : Word) {link : ℕ} (hlt : link < 0x1000000) :
    (movedHeader header link).toNat = header.toNat / 0x1000000 * 0x1000000 + link := by
  have hmod : link % 2 ^ 32 = link := Nat.mod_eq_of_lt (by omega)
  have hmask : (0xFF000000 : Word).toNat = 2 ^ 32 - 2 ^ 24 := rfl
  have hor := Nat.two_pow_add_eq_or_of_lt (show link < 2 ^ 24 from hlt) (header.toNat / 2 ^ 24)
  rw [movedHeader, BitVec.toNat_or, BitVec.toNat_and, BitVec.toNat_ofNat, hmod, hmask, high_and header.isLt (by decide),
    Nat.mul_comm, ← hor, Nat.mul_comm]
  rfl

theorem cursorValue_mod {t : Tail} (currentCursor : Word) (hlt : t.newEnd ≤ ramBytes) :
    (cursorValue t currentCursor).toNat % ramBytes = t.newEnd % ramBytes := by
  have hbytes : ramBytes = 2 ^ 21 := rfl
  have hmod : t.newEnd % 2 ^ 32 = t.newEnd := Nat.mod_eq_of_lt (by omega)
  have hmask : (0xFFE00000 : Word).toNat = 2 ^ 32 - 2 ^ 21 := rfl
  rw [cursorValue, BitVec.toNat_or, BitVec.toNat_and, BitVec.toNat_ofNat, hmod, hmask,
    high_and currentCursor.isLt (by decide), hbytes, Nat.or_mod_two_pow, Nat.mul_mod_left, Nat.zero_or]

/-- A packet as it is drawn: where it lies and the words behind its header. -/
def Node.packet (ram : Ram) (n : Node) : ℕ × List Word := (n.address, n.payload.map ram)

/-- The replay's packets, and behind each head those that the tail had inserted there. -/
def splicedPackets (t : Tail) (core complete live : List Node) (r2 r3 : Ram) : List (ℕ × List Word) :=
  live.flatMap fun n => n.packet r3 ::
    (inserted core complete n.address).map fun p => (t.relocate p.address, p.payload.map r2)

/-- A packet of the tail at its new place. -/
def movedNode (t : Tail) (ram : Ram) (p : Node) : Node := ⟨t.relocate p.address, ram (t.relocate p.address)⟩

section Prepared

variable {j : Journal} {r1 r2 ram : Ram} {currentCursor : Word} {cursorAt : ℕ} {t : Tail} {live : List Node}
  {inserts : List Insert} {packets others : List Write} {m n : Node} {a b : ℕ}

theorem linkOf_lt (header : Word) : linkOf header < 0x1000000 := Nat.mod_lt _ (by decide)

theorem Prepared.moved_link_lt (hrec : Recorded j r1 r2)
    (h : Prepared j ram currentCursor cursorAt t live inserts packets others) {p : Node × ℕ}
    (hp : p ∈ moved t j.core j.complete live) : p.2 < 0x1000000 := by
  obtain ⟨i, hi, hp⟩ := (h.mem_moved hrec).1 hp
  have hsound := h.sound hrec hi
  obtain ⟨prior, -, -, hseg, hout⟩ := hsound.prior
  cases runLinks_link hseg (fun n hn => (hsound.nodes n hn).2) hout hp with
  | inl hin =>
    rw [hin.2]
    have hadded := (hsound.nodes _ (mem_runLinks hp)).1
    have hstop := (Prepared.region h).1 _ hadded
    have hlt := hin.1
    unfold Tail.holds at hlt
    have hfits := h.fits
    have hfirst : t.newFirst < ramBytes := h.newFirst ▸ Nat.mod_lt _ (by decide)
    simp only [decide_eq_true_eq] at hlt
    unfold Tail.relocate
    unfold ramBytes at hfits hfirst
    omega
  | inr hlast =>
    obtain ⟨m, -, -, -, honward⟩ := hsound.current
    rw [hlast.2.1, honward]
    exact linkOf_lt _

/-- A moved packet keeps its size and gets its link. -/
theorem Prepared.movedNode_header (hrec : Recorded j r1 r2)
    (h : Prepared j ram currentCursor cursorAt t live inserts packets others) {p : Node × ℕ}
    (hp : p ∈ moved t j.core j.complete live) :
    (movedNode t (settled t j.core j.complete live r2 ram) p.1).link = p.2 ∧
      (movedNode t (settled t j.core j.complete live r2 ram) p.1).header.toNat / 0x1000000 =
        p.1.header.toNat / 0x1000000 := by
  have hlt := h.moved_link_lt hrec hp
  have hsettled := (h.settled_moved hrec hp (List.mem_cons_self ..)).trans (if_pos rfl)
  have hnat := movedHeader_toNat p.1.header hlt
  unfold movedNode Node.link linkOf
  dsimp only
  rw [hsettled, hnat]
  omega

theorem Prepared.movedNode_cells (hrec : Recorded j r1 r2)
    (h : Prepared j ram currentCursor cursorAt t live inserts packets others) {p : Node × ℕ}
    (hp : p ∈ moved t j.core j.complete live) :
    (movedNode t (settled t j.core j.complete live r2 ram) p.1).payload = p.1.payload.map t.relocate := by
  have hsize := (h.movedNode_header hrec hp).2
  have hle := (h.region.1 _ (h.added_of_moved hrec hp)).1
  unfold Node.payload
  rw [hsize, List.map_map]
  refine List.map_congr_left fun k _ => ?_
  simp only [movedNode, Function.comp_apply, Tail.relocate]
  omega

/-- The moved packets of a head lead on to what the head has led to. -/
theorem Prepared.moved_segment (hrec : Recorded j r1 r2)
    (h : Prepared j ram currentCursor cursorAt t live inserts packets others) {onward start out : ℕ} {ns : List Node}
    (hne : ns ≠ []) (hseg : Segment r2 start ns out)
    (hmoved : ∀ p ∈ runLinks t onward ns, p ∈ moved t j.core j.complete live) :
    Segment (settled t j.core j.complete live r2 ram) (t.relocate start)
      (ns.map (movedNode t (settled t j.core j.complete live r2 ram))) onward := by
  induction ns generalizing start with
  | nil => exact absurd rfl hne
  | cons n ns ih =>
    have hp := hmoved _ (List.mem_cons_self ..)
    obtain ⟨hlink, hsize⟩ := h.movedNode_header hrec hp
    have hadded := h.added_of_moved hrec hp
    obtain ⟨hn, -, -, hrest⟩ := hseg
    have hstart : n.address = start := by rw [hn]
    have hbounds := h.relocate_bounds hrec hadded (List.mem_cons_self ..)
    refine ⟨by rw [← hstart]; rfl, hstart ▸ hbounds.2.2.2.2, ?_, ?_⟩
    · have hstop := h.region.1 n hadded
      have hnew := h.fits
      have hfirst : t.newFirst < ramBytes := h.newFirst ▸ Nat.mod_lt _ (by decide)
      dsimp only at hsize
      simp only [Node.stop, payloadBytes] at hstop ⊢
      rw [hsize]
      simp only [movedNode, Tail.relocate]
      omega
    · rw [hlink]
      cases ns with
      | nil => rfl
      | cons m ns =>
        have hm : m.address = n.link := by rw [hrest.1]
        have hih := ih (by simp) hrest fun p hp => hmoved p (List.mem_cons_of_mem _ hp)
        rw [← hm] at hih
        exact hih

/-- The nodes of the replay's list with the moved packets, as a memory has them. -/
def splicedNodes (t : Tail) (core complete live : List Node) (ram : Ram) : List Node :=
  weave live ram fun a => (inserted core complete a).map (movedNode t ram)

/-- The words of the replay's packets stay, but for the link of a head. -/
theorem Prepared.settled_live (hrec : Recorded j r1 r2)
    (h : Prepared j ram currentCursor cursorAt t live inserts packets others) (hn : n ∈ live) :
    (settled t j.core j.complete live r2 ram n.address).toNat / 0x1000000 = n.header.toNat / 0x1000000 ∧
      ∀ a ∈ n.payload, settled t j.core j.complete live r2 ram a = ram a := by
  have hwalk := walk_iff.1 h.walked
  constructor
  · by_cases hhead : n.address ∈ inserts.map Insert.head
    · obtain ⟨i, hi, heq⟩ := List.mem_map.1 hhead
      have hsound := h.sound hrec hi
      obtain ⟨m, hm, hmaddr, hempty, -⟩ := hsound.current
      obtain rfl := List.inj_on_of_nodup_map h.nodup_live hm hn (hmaddr.trans heq)
      have hfits := h.fits
      have hfirst : t.newFirst < ramBytes := h.newFirst ▸ Nat.mod_lt _ (by decide)
      have henters := hsound.enters
      simp only [Tail.holds, decide_eq_true_eq] at henters
      have hzero : m.header.toNat / 0x1000000 = 0 := by simpa [Node.empty] using hempty
      rw [hmaddr, h.settled_head hrec hi, BitVec.toNat_ofNat, hzero]
      unfold Tail.relocate
      unfold ramBytes at hfits hfirst
      omega
    · rw [h.settled_other hrec (h.unmoved_of_live hrec hn (List.mem_cons_self ..)) hhead, (hwalk.1.mem hn).1]
  · intro a ha
    refine h.settled_other hrec (h.unmoved_of_live hrec hn (List.mem_cons_of_mem _ ha)) fun hhead => ?_
    obtain ⟨i, hi, rfl⟩ := List.mem_map.1 hhead
    obtain ⟨m, hm, hmaddr, -⟩ := (h.sound hrec hi).current
    have hgt := Node.payload_gt ha
    have hhigh := (Node.cell_bounds (List.mem_cons_of_mem _ ha)).2.1
    have hne : m ≠ n := by
      rintro rfl
      omega
    have := hwalk.2.2.apart hm hn hne
    have := m.address_lt_stop
    omega

theorem Prepared.settled_segment (hrec : Recorded j r1 r2)
    (h : Prepared j ram currentCursor cursorAt t live inserts packets others) :
    Segment (settled t j.core j.complete live r2 ram) (linkOf j.orderingTable)
      (splicedNodes t j.core j.complete live (settled t j.core j.complete live r2 ram)) 0xFFFFFF := by
  have hwalk := (walk_iff.1 h.walked).1
  refine hwalk.weave fun n hn => ?_
  obtain ⟨hheader, -, hstop⟩ := hwalk.mem hn
  have hsize := (h.settled_live hrec hn).1
  refine ⟨?_, ?_⟩
  · simp only [Node.stop, payloadBytes] at hstop ⊢
    omega
  · rw [h.inserted_eq hrec]
    by_cases hhead : n.address ∈ inserts.map Insert.head
    · obtain ⟨i, hi, heq⟩ := List.mem_map.1 hhead
      have hsound := h.sound hrec hi
      obtain ⟨m, hm, hmaddr, -, honward⟩ := hsound.current
      obtain rfl := List.inj_on_of_nodup_map h.nodup_live hm hn (hmaddr.trans heq)
      obtain ⟨prior, -, -, hseg, hout⟩ := hsound.prior
      have hrun := h.moved_segment hrec (h.nodes_ne hrec hi) hseg fun p hp => (h.mem_moved hrec).2 ⟨i, hi, hp⟩
      have henters := hsound.enters
      have hfits := h.fits
      have hfirst : t.newFirst < ramBytes := h.newFirst ▸ Nat.mod_lt _ (by decide)
      simp only [Tail.holds, decide_eq_true_eq] at henters
      have hlink : linkOf (BitVec.ofNat 32 (t.relocate i.first)) = t.relocate i.first := by
        unfold linkOf Tail.relocate
        rw [BitVec.toNat_ofNat]
        unfold ramBytes at hfits hfirst
        omega
      rw [← heq, nodesAt_of_mem (h.nodup_heads hrec) hi, h.settled_head hrec hi, hlink, ← honward]
      exact hrun
    · rw [nodesAt_none hhead, h.settled_other hrec (h.unmoved_of_live hrec hn (List.mem_cons_self ..)) hhead, ← hheader]
      exact rfl

theorem Prepared.settled_packets (hrec : Recorded j r1 r2)
    (h : Prepared j ram currentCursor cursorAt t live inserts packets others) :
    (splicedNodes t j.core j.complete live (settled t j.core j.complete live r2 ram)).map
        (Node.packet (settled t j.core j.complete live r2 ram)) =
      splicedPackets t j.core j.complete live r2 ram := by
  unfold splicedNodes weave splicedPackets
  rw [List.map_flatMap]
  refine List.flatMap_congr fun n hn => ?_
  obtain ⟨hsize, hpayload⟩ := h.settled_live hrec hn
  rw [List.map_cons, List.map_map]
  congr 1
  · have hsame : Node.payload ⟨n.address, settled t j.core j.complete live r2 ram n.address⟩ = n.payload := by
      simp only [Node.payload, hsize]
    rw [Node.packet, Node.packet, hsame]
    exact congrArg (Prod.mk n.address) (List.map_congr_left hpayload)
  · refine List.map_congr_left fun p hp => ?_
    obtain ⟨link, hlink⟩ := @runLinks_of_mem t n.link _ p hp
    have hmoved : (p, link) ∈ moved t j.core j.complete live := List.mem_flatMap.2 ⟨n, hn, hlink⟩
    rw [Function.comp_apply, Node.packet, h.movedNode_cells hrec hmoved, List.map_map]
    refine congrArg (Prod.mk (t.relocate p.address)) (List.map_congr_left fun a ha => ?_)
    have hgt : p.address < a := Node.payload_gt ha
    rw [Function.comp_apply, h.settled_moved hrec hmoved (List.mem_cons_of_mem _ ha)]
    exact if_neg (show a ≠ p.address by omega)

theorem Prepared.moved_apart (hrec : Recorded j r1 r2)
    (h : Prepared j ram currentCursor cursorAt t live inserts packets others) {p q : Node × ℕ}
    (hp : p ∈ moved t j.core j.complete live) (hq : q ∈ moved t j.core j.complete live) (hne : p.1 ≠ q.1) :
    (movedNode t (settled t j.core j.complete live r2 ram) p.1).stop ≤ t.relocate q.1.address ∨
      (movedNode t (settled t j.core j.complete live r2 ram) q.1).stop ≤ t.relocate p.1.address := by
  have happart : Scattered j.added := h.region.2.imp Or.inl
  have hpq := happart.apart (h.added_of_moved hrec hp) (h.added_of_moved hrec hq) hne
  have hlow := (h.region.1 _ (h.added_of_moved hrec hp)).1
  have hlow' := (h.region.1 _ (h.added_of_moved hrec hq)).1
  have hsize := (h.movedNode_header hrec hp).2
  have hsize' := (h.movedNode_header hrec hq).2
  simp only [Node.stop, payloadBytes] at hpq ⊢
  rw [hsize, hsize']
  simp only [movedNode, Tail.relocate]
  omega

/-- A node of the spliced list is one of the replay's or a moved packet. -/
theorem Prepared.spliced_kinds (hrec : Recorded j r1 r2)
    (h : Prepared j ram currentCursor cursorAt t live inserts packets others) (hn : n ∈ live) {x : Node}
    (hx : x ∈ (⟨n.address, settled t j.core j.complete live r2 ram n.address⟩ : Node) ::
      (inserted j.core j.complete n.address).map (movedNode t (settled t j.core j.complete live r2 ram))) :
    (x.address = n.address ∧ x.stop = n.stop ∧ x.cells = n.cells) ∨
      ∃ p ∈ moved t j.core j.complete live, p.1 ∈ inserted j.core j.complete n.address ∧
        x = movedNode t (settled t j.core j.complete live r2 ram) p.1 ∧ x.cells = p.1.cells.map t.relocate ∧
          t.newFirst ≤ x.address ∧ x.stop ≤ t.newEnd := by
  cases List.mem_cons.1 hx with
  | inl heq =>
    have hsize := (h.settled_live hrec hn).1
    subst heq
    refine Or.inl ⟨rfl, ?_, ?_⟩
    · simp only [Node.stop, payloadBytes, hsize]
    · simp only [Node.cells, Node.payload, hsize]
  | inr hmem =>
    obtain ⟨m, hm, rfl⟩ := List.mem_map.1 hmem
    obtain ⟨link, hlink⟩ := @runLinks_of_mem t n.link _ m hm
    have hp : (m, link) ∈ moved t j.core j.complete live := List.mem_flatMap.2 ⟨n, hn, hlink⟩
    have hregion := h.region.1 m (h.added_of_moved hrec hp)
    have hsize := (h.movedNode_header hrec hp).2
    refine Or.inr ⟨_, hp, hm, rfl, ?_, ?_, ?_⟩
    · rw [Node.cells, h.movedNode_cells hrec hp]
      rfl
    · exact Nat.le_add_right ..
    · simp only [Node.stop, payloadBytes] at hregion ⊢
      rw [hsize]
      simp only [movedNode, Tail.relocate, Tail.newEnd]
      omega

theorem Prepared.settled_scattered (hrec : Recorded j r1 r2)
    (h : Prepared j ram currentCursor cursorAt t live inserts packets others) :
    Scattered (splicedNodes t j.core j.complete live (settled t j.core j.complete live r2 ram)) := by
  have hlive := (walk_iff.1 h.walked).2.2
  unfold splicedNodes weave Scattered
  rw [List.pairwise_flatMap]
  constructor
  · intro n hn
    rw [List.pairwise_cons]
    constructor
    · intro x hx
      cases h.spliced_kinds hrec hn (List.mem_cons_of_mem _ hx) with
      | inl hsame =>
        obtain ⟨m, hm, rfl⟩ := List.mem_map.1 hx
        obtain ⟨link, hlink⟩ := @runLinks_of_mem t n.link _ m hm
        have hp : (m, link) ∈ moved t j.core j.complete live := List.mem_flatMap.2 ⟨n, hn, hlink⟩
        have hclear := h.relocate_clear hrec (h.added_of_moved hrec hp) (List.mem_cons_self ..) hn (List.mem_cons_self ..)
        exact absurd hsame.1.symm hclear
      | inr hmoved =>
        obtain ⟨p, -, -, -, -, hlow, hhigh⟩ := hmoved
        have hsize := (h.settled_live hrec hn).1
        have hclear := h.clear n hn
        simp only [Node.stop, payloadBytes] at hclear hhigh ⊢
        omega
    · rw [List.pairwise_map]
      rw [h.inserted_eq hrec]
      by_cases hhead : n.address ∈ inserts.map Insert.head
      · obtain ⟨i, hi, heq⟩ := List.mem_map.1 hhead
        rw [← heq, nodesAt_of_mem (h.nodup_heads hrec) hi]
        refine (List.pairwise_map.1 (h.nodup_nodes hi)).imp_of_mem fun {p q} hp hq hne => ?_
        obtain ⟨link, hlink⟩ := @runLinks_of_mem t i.onward _ p hp
        obtain ⟨link', hlink'⟩ := @runLinks_of_mem t i.onward _ q hq
        exact h.moved_apart hrec ((h.mem_moved hrec).2 ⟨i, hi, hlink⟩) ((h.mem_moved hrec).2 ⟨i, hi, hlink'⟩)
          fun heq => hne (congrArg Node.address heq)
      · rw [nodesAt_none hhead]
        exact List.Pairwise.nil
  · refine (hlive.and (List.pairwise_map.1 h.nodup_live)).imp_of_mem fun {m n} hm hn hmn x hx y hy => ?_
    have hclear := h.clear m hm
    have hclear' := h.clear n hn
    cases h.spliced_kinds hrec hm hx with
    | inl hsame =>
      obtain ⟨haddr, hstop, -⟩ := hsame
      cases h.spliced_kinds hrec hn hy with
      | inl hsame' =>
        obtain ⟨haddr', hstop', -⟩ := hsame'
        rw [haddr, hstop, haddr', hstop']
        exact hmn.1
      | inr hmoved =>
        obtain ⟨q, -, -, -, -, hlow, hhigh⟩ := hmoved
        omega
    | inr hmoved =>
      obtain ⟨p, hp, hpin, rfl, -, hlow, hhigh⟩ := hmoved
      cases h.spliced_kinds hrec hn hy with
      | inl hsame' =>
        obtain ⟨haddr', hstop', -⟩ := hsame'
        omega
      | inr hmoved' =>
        obtain ⟨q, hq, hqin, rfl, -, -, -⟩ := hmoved'
        refine h.moved_apart hrec hp hq fun heq => hmn.2 ?_
        rw [h.inserted_eq hrec] at hpin hqin
        obtain ⟨i, hi, hhead, hpi⟩ := mem_nodesAt hpin
        obtain ⟨k, hk, hhead', hqk⟩ := mem_nodesAt hqin
        rw [← hhead, ← hhead', h.owner hi hk hpi hqk (congrArg Node.address heq)]

end Prepared

section Agree

variable {m m' : Ram} {address last : ℕ} {ns ms : List Node} {n : Node}

theorem Segment.next (h : Segment m address ns last) (hn : n ∈ ns) : n.link = last ∨ ∃ k ∈ ns, k.address = n.link := by
  induction ns generalizing address with
  | nil => cases hn
  | cons x ns ih =>
    obtain ⟨-, -, -, hrest⟩ := h
    cases List.mem_cons.1 hn with
    | inl heq =>
      subst heq
      cases ns with
      | nil => exact Or.inl hrest
      | cons y ns => exact Or.inr ⟨y, by simp, by rw [hrest.1]⟩
    | inr hn =>
      refine (ih hrest hn).imp id fun hnext => ?_
      obtain ⟨k, hk, haddr⟩ := hnext
      exact ⟨k, List.mem_cons_of_mem _ hk, haddr⟩

/-- Where two memories list the same packets, they have the same words there, the headers too. -/
theorem Segment.agree (h : Segment m address ns last) (h' : Segment m' address ms last)
    (heq : ns.map (Node.packet m) = ms.map (Node.packet m')) : ∀ n ∈ ms, ∀ a ∈ n.cells, m a = m' a := by
  induction ns generalizing address ms with
  | nil =>
    cases ms with
    | nil => exact fun n hn => absurd hn List.not_mem_nil
    | cons x ms => cases heq
  | cons x ns ih =>
    cases ms with
    | nil => cases heq
    | cons y ms =>
      obtain ⟨hhead, hrest⟩ := List.cons.inj heq
      obtain ⟨hx, -, -, hseg⟩ := h
      obtain ⟨hy, -, -, hseg'⟩ := h'
      obtain ⟨-, hwords⟩ := Prod.mk.inj hhead
      have hsize : x.header.toNat / 0x1000000 = y.header.toNat / 0x1000000 := by
        have hlen := congrArg List.length hwords
        simpa [Node.payload] using hlen
      have hlink : x.link = y.link := by
        cases ns with
        | nil =>
          obtain rfl : ms = [] := List.map_eq_nil_iff.1 hrest.symm
          exact (show x.link = last from hseg).trans (show y.link = last from hseg').symm
        | cons x' ns =>
          cases ms with
          | nil => cases hrest
          | cons y' ms =>
            have haddr := congrArg Prod.fst (List.cons.inj hrest).1
            have hx' : x'.address = x.link := by rw [hseg.1]
            have hy' : y'.address = y.link := by rw [hseg'.1]
            rw [← hx', ← hy']
            exact haddr
      have hheader : x.header = y.header := by
        unfold Node.link linkOf at hlink
        refine BitVec.eq_of_toNat_eq ?_
        omega
      have hsame : x = y := by
        obtain ⟨a, v⟩ := x
        obtain ⟨b, w⟩ := y
        simp only [Node.mk.injEq] at hx hy ⊢
        exact ⟨hx.1.trans hy.1.symm, hheader⟩
      subst hsame
      intro n hn a ha
      cases List.mem_cons.1 hn with
      | inl heq =>
        subst heq
        cases List.mem_cons.1 ha with
        | inl heq =>
          have hval := congrArg Node.header (hx.symm.trans hy)
          have haddr : n.address = address := by rw [hx]
          rw [heq, haddr]
          exact hval
        | inr ha => exact List.map_inj_left.1 hwords a ha
      | inr hn => exact ih hseg (hlink ▸ hseg') hrest n hn a ha

end Agree

section Prepared

variable {j : Journal} {r1 r2 ram : Ram} {currentCursor : Word} {cursorAt : ℕ} {t : Tail} {live : List Node}
  {inserts : List Insert} {packets others : List Write} {m n : Node} {a b : ℕ}

theorem Prepared.newFirst_lt (h : Prepared j ram currentCursor cursorAt t live inserts packets others) :
    t.newFirst < t.newEnd ∧ t.newEnd ≤ ramBytes := by
  obtain ⟨n, hn⟩ := List.exists_mem_of_ne_nil _ h.added
  obtain ⟨hlow, hhigh, -⟩ := h.region.1 n hn
  have hfits := h.fits
  have hfirst : t.newFirst < ramBytes := h.newFirst ▸ Nat.mod_lt _ (by decide)
  have := n.address_lt_stop
  unfold Tail.newEnd
  omega

/-- The cursor word is no node of the replay's list: it would link into the free memory behind it. -/
theorem Prepared.cursor_unlisted (h : Prepared j ram currentCursor cursorAt t live inserts packets others)
    (hn : n ∈ live) : n.address ≠ cursorAt := by
  intro haddr
  have hwalk := (walk_iff.1 h.walked).1
  obtain ⟨hheader, halign, hstop⟩ := hwalk.mem hn
  have hcursor := h.cursor
  rw [← haddr, word_aligned halign (Node.address_lt hstop), ← hheader] at hcursor
  have hfirst := h.newFirst
  have haligned := h.aligned.2
  have hlink : n.link = currentCursor.toNat % 0x1000000 := by rw [← hcursor]; rfl
  cases hwalk.next hn with
  | inl hlast =>
    unfold ramBytes at hfirst
    omega
  | inr hnext =>
    obtain ⟨k, hk, hkaddr⟩ := hnext
    have hklt := Node.address_lt (hwalk.mem hk).2.2
    have hclear := h.clear k hk
    have hlong := h.newFirst_lt
    have := k.address_lt_stop
    unfold ramBytes at hfirst hklt
    omega

end Prepared

/-! ## When a splice is exact -/

/-- The region of the packets that the tail appended, and where it goes: it ends where the producer says, or with the
last of them. -/
def tailOf (core complete : List Node) (coreCursor producerEnd currentCursor : Word) : Tail where
  oldFirst := coreCursor.toNat % ramBytes
  stop :=
    if producerEnd.toNat % ramBytes = 0 then
      ((complete.filter fun n => n.address ∉ core.map Node.address).map Node.stop).foldr max (coreCursor.toNat % ramBytes)
    else producerEnd.toNat % ramBytes
  newFirst := currentCursor.toNat % ramBytes

theorem foldr_max (l : List ℕ) {a b : ℕ} (h : b ≤ a) : l.foldr max a = max a (l.foldr max b) := by
  induction l with
  | nil => simp [h]
  | cons x l ih =>
    simp only [List.foldr_cons, ih]
    omega

theorem tailEnd_eq {finalCursor first stop : ℕ} {ns : List Node} (h : tailEnd finalCursor first ns = some stop) :
    stop = (ns.map Node.stop).foldr max first := by
  induction ns generalizing first with
  | nil => exact (Option.some.inj h).symm
  | cons n ns ih =>
    have hle := ((tailEnd_some h).2.1 n (List.mem_cons_self ..)).1
    have := n.address_lt_stop
    unfold tailEnd at h
    split at h
    · cases h
    split at h
    · cases h
    rw [ih h, List.map_cons, List.foldr_cons, foldr_max _ (by omega : first ≤ n.stop)]

/-- Nothing that is carried over meets the packets, and the cursor comes to stand behind them. -/
structure Clear (t : Tail) (core complete live : List Node) (r1 r2 r3 : Ram) (currentCursor : Word) (cursorAt : ℕ) :
    Prop where
  /-- The list with the moved packets can still be walked. -/
  count : (splicedPackets t core complete live r2 r3).length < 32768
  /-- A word that the tail changed elsewhere lies on no moved packet, unless it is the packet's word. -/
  carried : ∀ a, Carried t core r1 r2 a → a ≠ cursorAt → InMoved t core complete live a →
    r2 a = settled t core complete live r2 r3 a
  /-- Nor does the cursor, on these or on the replay's packets. -/
  cursor : Carried t core r1 r2 cursorAt → (∀ n ∈ live, cursorAt ∉ n.payload) ∧
    (InMoved t core complete live cursorAt → settled t core complete live r2 r3 cursorAt = cursorValue t currentCursor)
  /-- A cursor that is no word the tail changed elsewhere is there already. -/
  unmoved : ¬Carried t core r1 r2 cursorAt →
    (word (fun a => if Carried t core r1 r2 a then r2 a else settled t core complete live r2 r3 a) cursorAt).toNat %
      ramBytes = t.newEnd % ramBytes

/-- The replay's memory after a splice. -/
structure Spliced (t : Tail) (core complete live : List Node) (r1 r2 r3 final : Ram) (ot : Word) (cursorAt : ℕ)
    (writes : List Write) : Prop where
  listed : ∃ ns, walk final ot = some ns ∧ ns.map (Node.packet final) = splicedPackets t core complete live r2 r3
  cursor : (word final cursorAt).toNat % ramBytes = t.newEnd % ramBytes
  others : ∀ w ∈ writes, (w.address ∈ live.map Node.address ∧ inserted core complete w.address ≠ []) ∨
    InMoved t core complete live w.address ∨ w.address = cursorAt ∨
      (r2 w.address ≠ r1 w.address ∧ w.value = r2 w.address ∧ (∀ n ∈ live, w.address ∉ n.cells) ∧
        ¬InMoved t core complete live w.address)

section Prepared

variable {j : Journal} {r1 r2 r3 : Ram} {currentCursor : Word} {cursorAt : ℕ} {t : Tail} {live : List Node}
  {inserts : List Insert} {packets others : List Write} {n : Node} {a : ℕ}

theorem Prepared.tail_eq (hrec : Recorded j r1 r2) {coreCursor producerEnd : Word} (hcursor : j.cursor = coreCursor)
    (hfinal : j.finalCursor = producerEnd.toNat % ramBytes)
    (h : Prepared j r3 currentCursor cursorAt t live inserts packets others) :
    t = tailOf j.core j.complete coreCursor producerEnd currentCursor := by
  obtain ⟨stop, htail, hregion⟩ := Option.bind_eq_some_iff.1 h.stop
  have hadded : j.added.Perm (j.complete.filter fun n => n.address ∉ j.core.map Node.address) := by
    refine sortBy_perm.trans (List.Perm.of_eq (List.filter_congr fun n _ => ?_))
    rw [Bool.eq_iff_iff, Option.isNone_iff_eq_none, find_none hrec.nodup_core, decide_eq_true_eq]
  have hstop := tailEnd_eq htail
  rw [(hadded.map Node.stop).foldr_eq' fun x _ y _ z => Nat.max_left_comm y x z] at hstop
  obtain ⟨oldFirst, tstop, newFirst⟩ := t
  have hold := h.oldFirst
  have hnew := h.newFirst
  dsimp only at hold hnew hregion hstop
  rw [hcursor] at hold
  unfold regionEnd at hregion
  rw [hfinal] at hregion
  unfold tailOf
  rw [← hold, ← hnew]
  congr 1
  split at hregion
  · next hzero =>
    rw [if_pos hzero, ← hstop]
    exact (Option.some.inj hregion).symm
  · next hzero =>
    rw [if_neg hzero]
    split at hregion
    · cases hregion
    · exact (Option.some.inj hregion).symm

/-- The words of the list that is read back are those that were put there. -/
def Kept (t : Tail) (core complete live : List Node) (r2 r3 final : Ram) : Prop :=
  ∀ n ∈ splicedNodes t core complete live (settled t core complete live r2 r3), ∀ a ∈ n.cells,
    final a = settled t core complete live r2 r3 a

/-- The memory that the writes leave, as a function of the snapshots. -/
def landed (t : Tail) (core complete live : List Node) (r1 r2 r3 : Ram) (currentCursor : Word) (cursorAt : ℕ) : Ram :=
  fun a =>
    if Carried t core r1 r2 a then if a = cursorAt then cursorValue t currentCursor else r2 a
    else settled t core complete live r2 r3 a

theorem Prepared.kept_of_clear (hrec : Recorded j r1 r2)
    (h : Prepared j r3 currentCursor cursorAt t live inserts packets others)
    (hclear : Clear t j.core j.complete live r1 r2 r3 currentCursor cursorAt) :
    Kept t j.core j.complete live r2 r3 (landed t j.core j.complete live r1 r2 r3 currentCursor cursorAt) := by
  intro x hx a ha
  obtain ⟨n, hn, hx⟩ := List.mem_flatMap.1 hx
  unfold landed
  split
  · next hcarried =>
    cases h.spliced_kinds hrec hn hx with
    | inl hlive =>
      rw [hlive.2.2] at ha
      obtain ⟨hothers, hwritten⟩ := h.other_writes hrec
      obtain ⟨w, hw, heq⟩ := List.mem_map.1 (hwritten a hcarried)
      cases (hothers w hw).2 with
      | inl hcursor =>
        have hat : a = cursorAt := heq.symm.trans hcursor.1
        rw [hat] at ha hcarried
        cases List.mem_cons.1 ha with
        | inl hhead => exact absurd hhead.symm (h.cursor_unlisted hn)
        | inr hpayload => exact absurd hpayload ((hclear.cursor hcarried).1 n hn)
      | inr hother => exact absurd (heq ▸ ha) (hother.2.2 n hn)
    | inr hmoved =>
      obtain ⟨p, hp, -, -, hcells, -⟩ := hmoved
      have hin : InMoved t j.core j.complete live a := ⟨p, hp, hcells ▸ ha⟩
      split
      · next hat => exact hat ▸ ((hclear.cursor (hat ▸ hcarried)).2 (hat ▸ hin)).symm
      · next hat => exact hclear.carried a hcarried hat hin
  · rfl

theorem Prepared.mem_spliced (hrec : Recorded j r1 r2)
    (h : Prepared j r3 currentCursor cursorAt t live inserts packets others)
    (hin : InMoved t j.core j.complete live a) :
    ∃ x ∈ splicedNodes t j.core j.complete live (settled t j.core j.complete live r2 r3), a ∈ x.cells := by
  obtain ⟨p, hp, hmem⟩ := hin
  obtain ⟨n, hn, hrun⟩ := List.mem_flatMap.1 hp
  refine ⟨movedNode t (settled t j.core j.complete live r2 r3) p.1, List.mem_flatMap.2 ⟨n, hn, ?_⟩, ?_⟩
  · exact List.mem_cons_of_mem _ (List.mem_map_of_mem (mem_runLinks hrun))
  · rw [Node.cells, h.movedNode_cells hrec hp]
    exact hmem

theorem Prepared.clear_of_kept (hrec : Recorded j r1 r2)
    (h : Prepared j r3 currentCursor cursorAt t live inserts packets others)
    (hkept : Kept t j.core j.complete live r2 r3 (landed t j.core j.complete live r1 r2 r3 currentCursor cursorAt))
    (hcount : (splicedPackets t j.core j.complete live r2 r3).length < 32768)
    (hcursor : (word (landed t j.core j.complete live r1 r2 r3 currentCursor cursorAt) cursorAt).toNat % ramBytes =
      t.newEnd % ramBytes) : Clear t j.core j.complete live r1 r2 r3 currentCursor cursorAt := by
  refine ⟨hcount, fun a hcarried hne hin => ?_, fun hcarried => ⟨fun n hn hpayload => ?_, fun hin => ?_⟩, fun hno => ?_⟩
  · obtain ⟨x, hx, ha⟩ := h.mem_spliced hrec hin
    have := hkept x hx a ha
    rwa [landed, if_pos hcarried, if_neg hne] at this
  · obtain ⟨hsize, hsame⟩ := h.settled_live hrec hn
    have hx : (⟨n.address, settled t j.core j.complete live r2 r3 n.address⟩ : Node) ∈
        splicedNodes t j.core j.complete live (settled t j.core j.complete live r2 r3) :=
      List.mem_flatMap.2 ⟨n, hn, List.mem_cons_self ..⟩
    have hcells : Node.cells ⟨n.address, settled t j.core j.complete live r2 r3 n.address⟩ = n.cells := by
      simp only [Node.cells, Node.payload, hsize]
    have hval := hkept _ hx cursorAt (hcells ▸ List.mem_cons_of_mem _ hpayload)
    have hthere := h.cursor
    rw [word_aligned hcarried.aligned hcarried.inside] at hthere
    rw [landed, if_pos hcarried, if_pos rfl, hsame _ hpayload, hthere] at hval
    have hmod := cursorValue_mod currentCursor h.newFirst_lt.2
    rw [hval, ← h.newFirst] at hmod
    have hlong := h.newFirst_lt
    have hclear := h.clear n hn
    have hlt := Node.address_lt ((walk_iff.1 h.walked).1.mem hn).2.2
    have := n.address_lt_stop
    unfold ramBytes at hmod hlong hlt
    omega
  · obtain ⟨x, hx, ha⟩ := h.mem_spliced hrec hin
    have := hkept x hx cursorAt ha
    rw [landed, if_pos hcarried, if_pos rfl] at this
    exact this.symm
  · rw [← hcursor]
    congr 3
    funext a
    unfold landed
    split
    · next hcarried =>
      have hne : a ≠ cursorAt := fun heq => hno (heq ▸ hcarried)
      rw [if_neg hne]
    · rfl

end Prepared

/-- A spliced list is exact if no carried word meets a moved packet, and only then. -/
theorem splice_exact {j₀ j₁ j₂ j₃ j₄ : Journal} {r0 r1 r2 r3 : Ram}
    {ot ot' initialCursor coreCursor producerEnd currentCursor cursorWord : Word}
    (hbegin : j₀.beginSection r0 ot initialCursor = some j₁) (hend : j₁.endCore r1 coreCursor = some j₂)
    (hprepare : j₂.prepare r2 producerEnd = some j₃)
    (hsplice : j₃.prepareSplice r3 ot' currentCursor cursorWord = some j₄) :
    ∃ core complete live, walk r1 ot = some core ∧ walk r2 ot = some complete ∧ walk r3 ot = some live ∧
      (Spliced (tailOf core complete coreCursor producerEnd currentCursor) core complete live r1 r2 r3
        (j₄.applySplice r3) ot (cursorWord.toNat % ramBytes) j₄.spliceWrites ↔
      Clear (tailOf core complete coreCursor producerEnd currentCursor) core complete live r1 r2 r3 currentCursor
        (cursorWord.toNat % ramBytes)) := by
  obtain ⟨hrec, rfl, hcursor, hfinal⟩ := recorded hbegin hend hprepare
  obtain ⟨t, live, inserts, packets, others, h, rfl⟩ := prepareSplice_some hsplice
  refine ⟨j₃.core, j₃.complete, live, hrec.core, hrec.complete, h.walked, ?_⟩
  rw [← h.tail_eq hrec hcursor hfinal, h.applied hrec]
  change Spliced t j₃.core j₃.complete live r1 r2 r3
    (landed t j₃.core j₃.complete live r1 r2 r3 currentCursor _) _ _ _ ↔ _
  have hsegment := h.settled_segment hrec
  have hpackets := h.settled_packets hrec
  constructor
  · rintro ⟨⟨ns, hwalk, hns⟩, hpoints, -⟩
    obtain ⟨hseg, hlen, -⟩ := walk_iff.1 hwalk
    refine h.clear_of_kept hrec (hseg.agree hsegment (hns.trans hpackets.symm)) ?_ hpoints
    rw [← hns, List.length_map]
    exact hlen
  · intro hclear
    have hkept := h.kept_of_clear hrec hclear
    refine ⟨⟨_, walk_iff.2 ⟨hsegment.congr fun n hn => hkept n hn _ (List.mem_cons_self ..), ?_,
      h.settled_scattered hrec⟩, ?_⟩, ?_, fun w hw => ?_⟩
    · have := congrArg List.length hpackets
      rw [List.length_map] at this
      rw [this]
      exact hclear.count
    · rw [← hpackets]
      refine List.map_congr_left fun n hn => congrArg (Prod.mk n.address) (List.map_congr_left fun a ha => ?_)
      exact hkept n hn a (List.mem_cons_of_mem _ ha)
    · by_cases hcarried : Carried t j₃.core r1 r2 (cursorWord.toNat % ramBytes)
      · rw [word_aligned hcarried.aligned hcarried.inside, landed, if_pos hcarried, if_pos rfl]
        exact cursorValue_mod currentCursor h.newFirst_lt.2
      · rw [← hclear.unmoved hcarried]
        congr 3
        funext a
        unfold landed
        split
        · next hother =>
          have hne : a ≠ cursorWord.toNat % ramBytes := fun heq => hcarried (heq ▸ hother)
          rw [if_neg hne]
        · rfl
    · by_cases hin : InMoved t j₃.core j₃.complete live w.address
      · exact Or.inr (Or.inl hin)
      · cases List.mem_append.1 hw with
        | inl hw =>
          cases List.mem_append.1 hw with
          | inl hw =>
            obtain ⟨i, hi, rfl⟩ := List.mem_map.1 hw
            have hsound := h.sound hrec hi
            obtain ⟨m, hm, hmaddr, -⟩ := hsound.current
            refine Or.inl ⟨hmaddr ▸ List.mem_map_of_mem hm, ?_⟩
            dsimp only
            rw [h.inserted_eq hrec, nodesAt_of_mem (h.nodup_heads hrec) hi]
            exact h.nodes_ne hrec hi
          | inr hw => exact absurd ((h.packet_writes hrec).1 w hw).2 hin
        | inr hw =>
          obtain ⟨hcarried, hkind⟩ := (h.other_writes hrec).1 w hw
          cases hkind with
          | inl hcursor => exact Or.inr (Or.inr (Or.inl hcursor.1))
          | inr hother => exact Or.inr (Or.inr (Or.inr ⟨hcarried.changed, hother.2.1, hother.2.2, hin⟩))

/-! ## A packet behind a longer core -/

/-- A RAM with other words in it. -/
def withWords (ws : List Write) (ram : Ram) : Ram := fun a =>
  ((ws.find? fun w => w.address = a).map Write.value).getD (ram a)

theorem withWords_out {ws : List Write} {ram : Ram} {a : ℕ} (h : a ∉ ws.map Write.address) :
    withWords ws ram a = ram a := by
  have hnone : ws.find? (fun w => w.address = a) = none :=
    List.find?_eq_none.2 fun w hw heq => h (List.mem_map.2 ⟨w, hw, by simpa using heq⟩)
  rw [withWords, hnone]
  rfl

theorem changed_words {ws : List Write} {ram : Ram} (hsorted : (ws.map Write.address).Pairwise (· < ·))
    (hall : ∀ a ∈ ws.map Write.address, a % 4 = 0 ∧ a < ramBytes ∧ word (withWords ws ram) a ≠ word ram a) :
    (wordAddresses.filter fun a => word (withWords ws ram) a ≠ word ram a) = ws.map Write.address := by
  refine List.Perm.eq_of_pairwise (fun a b _ _ hab hba => absurd hab (Nat.lt_asymm hba))
    (wordAddresses_sorted.filter _) hsorted ?_
  refine (List.perm_ext_iff_of_nodup (wordAddresses_sorted.filter _ |>.imp fun h => h.ne) (hsorted.imp fun h => h.ne)).2
    fun a => ?_
  simp only [List.mem_filter, mem_wordAddresses, decide_eq_true_eq]
  refine ⟨fun ⟨⟨halign, hlt⟩, hne⟩ => ?_, fun hmem => ?_⟩
  · by_contra hout
    rw [word_aligned halign hlt, word_aligned halign hlt, withWords_out hout] at hne
    exact hne rfl
  · obtain ⟨halign, hlt, hne⟩ := hall a hmem
    exact ⟨⟨halign, hlt⟩, hne⟩

theorem endCore_afterCore {j j' : Journal} {ram : Ram} {currentCursor : Word}
    (h : j.endCore ram currentCursor = some j') : j'.afterCore = ram := by
  unfold Journal.endCore at h
  split at h
  · cases h
  · split at h
    · cases h
    · split at h
      · cases h
      · dsimp only at h
        split at h
        · cases h
        · split at h
          · cases h
          · rw [← Option.some.inj h]

/-- A head at `1000` with a packet at `1100`. -/
def hudPrefix : Ram := withWords [⟨0x1000, 0x1100⟩, ⟨0x1100, 0x02FFFFFF⟩, ⟨0x1104, 0x64000000⟩] fun _ => 0

def hudCore : Ram := withWords [⟨0x1000, 0x1200⟩, ⟨0x1200, 0x01001100⟩, ⟨0x1800, 0x80001300⟩] hudPrefix

/-- The replay's core is a packet longer. -/
def hudReplay : Ram :=
  withWords [⟨0x1000, 0x1220⟩, ⟨0x1200, 0x01001100⟩, ⟨0x1220, 0x01001200⟩, ⟨0x1800, 0x80001320⟩] hudPrefix

def hudTail : List Write := [⟨0x1000, 0x1300⟩, ⟨0x1300, 0x01001200⟩, ⟨0x1304, 0xE1000220⟩, ⟨0x1800, 0x80001308⟩]

def hudBegun : Journal := (({} : Journal).beginSection hudPrefix 0x1000 0x80001200).get (by decide)

def hudCored : Journal := (hudBegun.endCore hudCore 0x80001300).get (by decide)

/-- The journal of a tail that has changed some words. -/
def hudPrepared (ws : List Write) : Journal :=
  { hudCored with
    finalCursor := 0, complete := [⟨0x1000, 0x1300⟩, ⟨0x1300, 0x01001200⟩, ⟨0x1200, 0x01001100⟩, ⟨0x1100, 0x02FFFFFF⟩],
    changes := ws, ready := true }

theorem hudCored_prepare {ws : List Write} (hsorted : (ws.map Write.address).Pairwise (· < ·))
    (hall : ∀ a ∈ ws.map Write.address, a % 4 = 0 ∧ a < ramBytes ∧ word (withWords ws hudCore) a ≠ word hudCore a)
    (hwords : (ws.map Write.address).map (fun a => (⟨a, word (withWords ws hudCore) a⟩ : Write)) = ws)
    (hwalk : walk (withWords ws hudCore) hudCored.orderingTable =
      some [⟨0x1000, 0x1300⟩, ⟨0x1300, 0x01001200⟩, ⟨0x1200, 0x01001100⟩, ⟨0x1100, 0x02FFFFFF⟩])
    (hmay : (ws.all fun w => hudCored.mayChange w.address w.value) = true) :
    hudCored.prepare (withWords ws hudCore) 0 = some (hudPrepared ws) := by
  have hcore : hudCored.afterCore = hudCore := endCore_afterCore (Option.some_get _).symm
  have hcaptured : ¬hudCored.captured = false := by decide
  unfold Journal.prepare
  rw [if_neg hcaptured, hwalk]
  dsimp only
  rw [hcore, changed_words hsorted hall, hwords, if_pos hmay]
  rfl

def hudSpliced : Journal :=
  ((hudPrepared hudTail).prepareSplice hudReplay 0x1000 0x80001320 0x80001800).get (by decide)

/-- The tail changes two words of its own, the head and the cursor. -/
theorem hudTail_carried {t : Tail} {core : List Node} {a : ℕ} (hheld : t.holds 0x1300 = true ∧ t.holds 0x1304 = true)
    (hhead : 0x1000 ∈ core.map Node.address) (h : Carried t core hudCore (withWords hudTail hudCore) a) : a = 0x1800 := by
  have hmem : a ∈ hudTail.map Write.address := by
    by_contra hout
    exact h.changed (withWords_out hout)
  simp only [hudTail, List.map_cons, List.map_nil, List.mem_cons, List.not_mem_nil, or_false] at hmem
  rcases hmem with rfl | rfl | rfl | rfl
  · exact absurd hhead h.unlisted
  · exact absurd (h.outside.symm.trans hheld.1) (by decide)
  · exact absurd (h.outside.symm.trans hheld.2) (by decide)
  · rfl

/-- The packet at `1300` comes to lie at `1320`. -/
theorem splice_exact_hud : ∃ core complete live, walk hudCore 0x1000 = some core ∧
    walk (withWords hudTail hudCore) 0x1000 = some complete ∧ walk hudReplay 0x1000 = some live ∧
    Spliced (tailOf core complete 0x80001300 0 0x80001320) core complete live hudCore (withWords hudTail hudCore)
      hudReplay (hudSpliced.applySplice hudReplay) 0x1000 ((0x80001800 : Word).toNat % ramBytes)
      hudSpliced.spliceWrites := by
  obtain ⟨core, complete, live, hcore, hcomplete, hlive, hiff⟩ :=
    @splice_exact {} hudBegun hudCored (hudPrepared hudTail) hudSpliced hudPrefix _ _ _ _ _ _ _ _ _ _
      (Option.some_get _).symm (Option.some_get _).symm
      (hudCored_prepare (by decide) (by decide) (by decide) (by decide) (by decide)) (Option.some_get _).symm
  refine ⟨core, complete, live, hcore, hcomplete, hlive, hiff.2 ?_⟩
  have hcore' : walk hudCore 0x1000 = some [⟨0x1000, 0x1200⟩, ⟨0x1200, 0x01001100⟩, ⟨0x1100, 0x02FFFFFF⟩] := by decide
  have hcomplete' : walk (withWords hudTail hudCore) 0x1000 =
      some [⟨0x1000, 0x1300⟩, ⟨0x1300, 0x01001200⟩, ⟨0x1200, 0x01001100⟩, ⟨0x1100, 0x02FFFFFF⟩] := by decide
  have hlive' : walk hudReplay 0x1000 =
      some [⟨0x1000, 0x1220⟩, ⟨0x1220, 0x01001200⟩, ⟨0x1200, 0x01001100⟩, ⟨0x1100, 0x02FFFFFF⟩] := by decide
  obtain rfl := Option.some.inj (hcore'.symm.trans hcore)
  obtain rfl := Option.some.inj (hcomplete'.symm.trans hcomplete)
  obtain rfl := Option.some.inj (hlive'.symm.trans hlive)
  refine ⟨by decide, fun a ha hne => absurd (hudTail_carried (by decide) (by decide) ha) hne, fun _ => ⟨by decide, ?_⟩,
    fun hno => absurd ⟨?_, ?_, ?_, ?_, ?_⟩ hno⟩
  · unfold InMoved
    decide
  all_goals decide

/-- The tail that has a word of its own at `1324` as well. -/
def counterTail : List Write :=
  [⟨0x1000, 0x1300⟩, ⟨0x1300, 0x01001200⟩, ⟨0x1304, 0xE1000220⟩, ⟨0x1324, 0x1234⟩, ⟨0x1800, 0x80001308⟩]

def counterSpliced : Journal :=
  ((hudPrepared counterTail).prepareSplice hudReplay 0x1000 0x80001320 0x80001800).get (by decide)

/-- That word is put on the payload of the packet that has come to lie there. -/
theorem moved_packet_overwritten : ∃ j₁ j₂ j₃ j₄ core complete live,
    ({} : Journal).beginSection hudPrefix 0x1000 0x80001200 = some j₁ ∧
    j₁.endCore hudCore 0x80001300 = some j₂ ∧ j₂.prepare (withWords counterTail hudCore) 0 = some j₃ ∧
    j₃.prepareSplice hudReplay 0x1000 0x80001320 0x80001800 = some j₄ ∧
    walk hudCore 0x1000 = some core ∧ walk (withWords counterTail hudCore) 0x1000 = some complete ∧
    walk hudReplay 0x1000 = some live ∧
    ¬Spliced (tailOf core complete 0x80001300 0 0x80001320) core complete live hudCore (withWords counterTail hudCore)
      hudReplay (j₄.applySplice hudReplay) 0x1000 ((0x80001800 : Word).toNat % ramBytes) j₄.spliceWrites := by
  refine ⟨hudBegun, hudCored, hudPrepared counterTail, counterSpliced,
    [⟨0x1000, 0x1200⟩, ⟨0x1200, 0x01001100⟩, ⟨0x1100, 0x02FFFFFF⟩],
    [⟨0x1000, 0x1300⟩, ⟨0x1300, 0x01001200⟩, ⟨0x1200, 0x01001100⟩, ⟨0x1100, 0x02FFFFFF⟩],
    [⟨0x1000, 0x1220⟩, ⟨0x1220, 0x01001200⟩, ⟨0x1200, 0x01001100⟩, ⟨0x1100, 0x02FFFFFF⟩],
    (Option.some_get _).symm, (Option.some_get _).symm, ?_, (Option.some_get _).symm, by decide,
    by decide, by decide, ?_⟩
  · exact hudCored_prepare (by decide) (by decide) (by decide) (by decide)
      (by decide)
  · rintro ⟨⟨ns, hwalk, hns⟩, -, -⟩
    have hread : walk (counterSpliced.applySplice hudReplay) 0x1000 = some
        [⟨0x1000, 0x1320⟩, ⟨0x1320, 0x01001220⟩, ⟨0x1220, 0x01001200⟩, ⟨0x1200, 0x01001100⟩, ⟨0x1100, 0x02FFFFFF⟩] := by
      decide
    obtain rfl := Option.some.inj (hread.symm.trans hwalk)
    exact absurd hns (by decide)

end PsxRecomp.OTRelocation
