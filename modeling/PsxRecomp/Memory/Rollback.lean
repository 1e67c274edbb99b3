import PsxRecomp.Memory.RenderPass

/-! The journal of the mod arenas through a pass: it backs every page that a store or a bulk write
touches, and the rollback gives both arenas back. -/
namespace PsxRecomp.Memory
open DataShards (Byte Word Cells Geometry Width)
set_option autoImplicit false

/-! ## Pages -/

def Arena.pages (a : Arena) : ℕ := a.size / 4096

theorem index_injective {a a' : Arena} {pg pg' : ℕ} (hpg : pg < a.pages) (hpg' : pg' < a'.pages)
    (h : a.pageBase + pg = a'.pageBase + pg') : a = a' ∧ pg = pg' := by
  cases a <;> cases a' <;> simp only [Arena.pages, Arena.size, Arena.pageBase] at hpg hpg' h <;>
    first
    | exact ⟨rfl, by omega⟩
    | omega

def pageOf (q : Arena × ℕ) : Arena × ℕ := (q.1, q.2 / 4096)

/-- Both arenas as one memory. -/
def contents (bytes : Arena → Cells) (q : Arena × ℕ) : Byte := bytes q.1 q.2

def ModPage.copy (p : ModPage) : UndoLog.Copy (Arena × ℕ) (Arena × ℕ) Byte :=
  ((p.arena, p.page), fun q => p.data (q.2 % 4096))

theorem giveBack_contents (p : ModPage) (bytes : Arena → Cells) :
    contents (p.giveBack bytes) = UndoLog.giveBack pageOf p.copy (contents bytes) := by
  funext q
  obtain ⟨a, i⟩ := q
  simp only [contents, ModPage.giveBack, UndoLog.giveBack, pageOf, ModPage.copy, Prod.mk.injEq]
  by_cases ha : a = p.arena
  · subst ha
    rw [Function.update_self]
    simp only [true_and]
  · rw [Function.update_of_ne ha, if_neg fun h => ha h.1]

theorem restore_contents (log : List ModPage) (bytes : Arena → Cells) :
    contents (log.foldl (fun m p => p.giveBack m) bytes) =
      UndoLog.restore pageOf (log.map ModPage.copy) (contents bytes) := by
  induction log generalizing bytes with
  | nil => rfl
  | cons p log ih =>
    rw [List.foldl_cons, ih, giveBack_contents]
    rfl

/-! ## The invariant of the journal -/

/-- The journal backs `m₀`, and its bitmap names the pages it holds. -/
structure Journaled (m₀ : Arena × ℕ → Byte) (bytes : Arena → Cells) (j : Journal) : Prop where
  backs : UndoLog.Backs pageOf m₀ (contents bytes) (j.log.map ModPage.copy)
  bits : ∀ i, j.bits i = true ↔ i ∈ j.log.map ModPage.index
  index : ∀ p ∈ j.log, p.page < p.arena.pages ∧ p.index = p.arena.pageBase + p.page

variable {m₀ : Arena × ℕ → Byte} {bytes bytes' : Arena → Cells} {j : Journal} {A : Arenas}

/-- A page is held exactly when its bit is set. -/
theorem Journaled.held_iff (h : Journaled m₀ bytes j) {a : Arena} {pg : ℕ} (hpg : pg < a.pages) :
    (a, pg) ∈ UndoLog.pages (j.log.map ModPage.copy) ↔ j.bits (a.pageBase + pg) = true := by
  rw [h.bits, UndoLog.pages, List.map_map, List.mem_map, List.mem_map]
  constructor
  · rintro ⟨p, hp, he⟩
    obtain ⟨ha, hpage⟩ := Prod.mk.inj he
    exact ⟨p, hp, by rw [(h.index p hp).2, ha, hpage]⟩
  · rintro ⟨p, hp, he⟩
    obtain ⟨hlt, hindex⟩ := h.index p hp
    obtain ⟨ha, hpage⟩ := index_injective hlt hpg (hindex.symm.trans he)
    exact ⟨p, hp, Prod.ext ha hpage⟩

theorem Journaled.grow (h : Journaled m₀ bytes j) : Journaled m₀ bytes j.grow :=
  ⟨h.backs, h.bits, h.index⟩

theorem Journaled.refuse (h : Journaled m₀ bytes j) : Journaled m₀ bytes j.refuse :=
  ⟨h.backs, h.bits, h.index⟩

theorem Journaled.push (h : Journaled m₀ A.bytes j) {a : Arena} {pg : ℕ} (hpg : pg < a.pages)
    (hnew : j.bits (a.pageBase + pg) = false) : Journaled m₀ A.bytes (j.push A a pg) := by
  refine ⟨h.backs.copy (fun hmem => ?_) (fun q hq => ?_), fun i => ?_, fun p hp => ?_⟩
  · rw [(h.held_iff hpg).1 hmem] at hnew
    cases hnew
  · obtain ⟨ha, hpage⟩ := Prod.mk.inj hq
    have hpage : q.2 / 4096 = pg := hpage
    have hi : pg * 4096 + q.2 % 4096 = q.2 := by omega
    show A.bytes a (pg * 4096 + q.2 % 4096) = A.bytes q.1 q.2
    rw [hi, ha]
  · show Function.update j.bits (a.pageBase + pg) true i = true ↔ _
    rw [Journal.push, List.map_cons, List.mem_cons, ← h.bits i]
    by_cases hi : i = a.pageBase + pg
    · simp only [hi, Function.update_self, true_or]
    · simp only [Function.update_of_ne hi, hi, false_or]
  · rcases List.mem_cons.1 hp with rfl | hp
    · exact ⟨hpg, rfl⟩
    · exact h.index p hp

/-- What a journal of some pages comes to. -/
structure Took (m₀ : Arena × ℕ → Byte) (A : Arenas) (a : Arena) (n pg : ℕ) (j : Journal)
    (r : Journal × Bool) : Prop where
  journaled : Journaled m₀ A.bytes r.1
  kept : ∀ i, j.bits i = true → r.1.bits i = true
  held : r.2 = true → ∀ k, pg ≤ k → k < pg + n → r.1.bits (a.pageBase + k) = true

theorem Took.step {a : Arena} {n pg : ℕ} {j' : Journal} {r : Journal × Bool}
    (h : Took m₀ A a n (pg + 1) j' r) (hkept : ∀ i, j.bits i = true → j'.bits i = true)
    (hset : j'.bits (a.pageBase + pg) = true) : Took m₀ A a (n + 1) pg j r := by
  refine ⟨h.journaled, fun i hi => h.kept i (hkept i hi), fun hr k hlo hhi => ?_⟩
  by_cases hk : k = pg
  · exact hk ▸ h.kept _ hset
  · exact h.held hr k (by omega) (by omega)

theorem push_bits (j : Journal) (a : Arena) (pg : ℕ) :
    (∀ i, j.bits i = true → (j.push A a pg).bits i = true) ∧
      (j.push A a pg).bits (a.pageBase + pg) = true := by
  refine ⟨fun i hi => ?_, Function.update_self _ _ _⟩
  by_cases h : i = a.pageBase + pg
  · rw [h]
    exact Function.update_self _ _ _
  · exact (Function.update_of_ne h _ _).trans hi

theorem journalPages_took {a : Arena} {n pg : ℕ} (h : Journaled m₀ A.bytes j)
    (hfit : pg + n ≤ a.pages) : Took m₀ A a n pg j (journalPages A a n pg j) := by
  induction n generalizing pg j with
  | zero => exact ⟨h, fun _ hi => hi, fun _ k hlo hhi => absurd hhi (by omega)⟩
  | succ n ih =>
    unfold journalPages
    split
    · rename_i hset
      exact (ih h (by omega)).step (fun _ hi => hi) hset
    · rename_i hclear
      have hnew : j.bits (a.pageBase + pg) = false := Bool.eq_false_iff.2 hclear
      split
      · split
        · have hpush := push_bits (A := A) j.grow a pg
          exact (ih (h.grow.push (by omega) hnew) (by omega)).step hpush.1 hpush.2
        · exact ⟨h.refuse, fun _ hi => hi, fun hr => Bool.noConfusion hr⟩
      · have hpush := push_bits (A := A) j a pg
        exact (ih (h.push (by omega) hnew) (by omega)).step hpush.1 hpush.2

theorem rpModJournal_took {a : Arena} {off width : ℕ} (h : Journaled m₀ A.bytes j)
    (hw : 0 < width) (hfit : off + width ≤ a.size) :
    Journaled m₀ A.bytes (rpModJournal A a off width j).1 ∧
      (∀ i, j.bits i = true → (rpModJournal A a off width j).1.bits i = true) ∧
      ((rpModJournal A a off width j).2 = true → ∀ i, off ≤ i → i < off + width →
        (rpModJournal A a off width j).1.bits (a.pageBase + i / 4096) = true) := by
  have hsize : a.size % 4096 = 0 := by cases a <;> rfl
  have hpages : off / 4096 + ((off + width - 1) / 4096 + 1 - off / 4096) ≤ a.pages := by
    unfold Arena.pages
    omega
  have htook := journalPages_took h hpages
  exact ⟨htook.journaled, htook.kept, fun hr i hlo hhi => htook.held hr _ (by omega) (by omega)⟩

/-- Bytes of pages that are held may change. -/
theorem Journaled.write (h : Journaled m₀ bytes j)
    (hw : ∀ a i, bytes' a i = bytes a i ∨ i < a.size ∧ j.bits (a.pageBase + i / 4096) = true) :
    Journaled m₀ bytes' j := by
  refine ⟨h.backs.write fun q hq => ?_, h.bits, h.index⟩
  rcases hw q.1 q.2 with he | ⟨hlt, hbit⟩
  · exact he
  · have hsize : q.1.size % 4096 = 0 := by cases q.1 <;> rfl
    exact absurd ((h.held_iff (by unfold Arena.pages; omega)).2 hbit) hq

/-! ## A pass -/

/-- Nothing journaled yet. -/
def Journal.Empty (j : Journal) : Prop := j.log = [] ∧ ∀ i, j.bits i = false

/-- One step of a pass: a store, a bulk write, a snapshot, or work that leaves the arenas and their
journal alone. -/
inductive PassStep : Pass → Pass → Prop
  | store (s : Pass) (w : Width) (addr val : Word) : PassStep s (s.store w addr val).1
  | draw (s : Pass) (hostOutput : Bool) (addr : Word) (data : List Byte) :
      PassStep s (s.writeGpuDrawMemory hostOutput addr data).1
  | snapshot (s : Pass) (data : List Byte) : PassStep s (s.snapshotRead data).1
  | work (s : Pass) (b : Bus) (h : b.arenas = s.bus.arenas) : PassStep s { s with bus := b }

abbrev Pass.Journaled (m₀ : Arena × ℕ → Byte) (s : Pass) : Prop :=
  Memory.Journaled m₀ s.bus.arenas.bytes s.journal

theorem putBytes_outside {m : Cells} {off : ℕ} {data : List Byte} {i : ℕ}
    (h : ¬(off ≤ i ∧ i < off + data.length)) : putBytes m off data i = m i := by
  unfold putBytes
  split
  · rw [List.getElem?_eq_none (by omega)]
    rfl
  · rfl

/-- A change of a range that has been journaled. -/
theorem Journaled.update {a : Arena} {off width : ℕ} {m : Cells} (h : Journaled m₀ bytes j)
    (hfit : off + width ≤ a.size)
    (hheld : ∀ i, off ≤ i → i < off + width → j.bits (a.pageBase + i / 4096) = true)
    (hm : ∀ i, ¬(off ≤ i ∧ i < off + width) → m i = bytes a i) :
    Journaled m₀ (Function.update bytes a m) j := by
  refine h.write fun a' i => ?_
  by_cases ha : a' = a
  · subst ha
    rw [Function.update_self]
    by_cases hi : off ≤ i ∧ i < off + width
    · exact Or.inr ⟨by omega, hheld i hi.1 hi.2⟩
    · exact Or.inl (hm i hi)
  · exact Or.inl (congrFun (Function.update_of_ne ha _ _) i)

theorem width_pos (w : Width) : 0 < w.bytes := by cases w <;> decide

theorem arenaTarget_fits {b : Bus} {w : Width} {addr : Word} {a : Arena} {off : ℕ}
    (h : b.arenaTarget w addr = some (a, off)) :
    addr < 0xC0000000 ∧ b.arenas.find (addr &&& 0x1FFFFFFF).toNat w.bytes = some (a, off) ∧
      off + w.bytes ≤ a.size := by
  unfold Bus.arenaTarget at h
  dsimp only at h
  split at h
  · cases h
  · rename_i hk
    split at h
    · cases h
    · split at h
      · cases h
      · exact ⟨BitVec.not_le.1 hk, h, (find_spec h).2.trans (b.arenas.used_le a)⟩

theorem modStore_journaled {s s' : Pass} {w : Width} {addr val : Word}
    (h : s.Journaled m₀) (hs : s.modStore w addr val = some s') : s'.Journaled m₀ := by
  unfold Pass.modStore at hs
  cases ht : s.bus.arenaTarget w addr with
  | none => rw [ht] at hs; cases hs
  | some t =>
    obtain ⟨a, off⟩ := t
    obtain ⟨-, -, hfit⟩ := arenaTarget_fits ht
    obtain ⟨hj, -, hheld⟩ := rpModJournal_took h (width_pos w) hfit
    rw [ht] at hs
    dsimp only at hs
    generalize rpModJournal s.bus.arenas a off w.bytes s.journal = r at hj hheld hs
    obtain ⟨j, ok⟩ := r
    cases ok with
    | false =>
      cases hs
      exact hj
    | true =>
      cases hs
      exact hj.update hfit (hheld rfl) fun i hi => poke_outside hi

theorem passStoreTo_arenas (b : Bus) (isolated : Bool) (w : Width) (addr val : Word) :
    (b.passStoreTo isolated w addr val).1.arenas = b.arenas := by
  unfold Bus.passStoreTo
  dsimp only
  split
  · rfl
  · split
    · rfl
    · split
      · rfl
      · split
        · rfl
        · split
          · cases mmioClass (mapWrite b.geometry addr) val w <;> rfl
          · rfl

theorem store_journaled {s : Pass} (h : s.Journaled m₀) (w : Width) (addr val : Word) :
    (s.store w addr val).1.Journaled m₀ := by
  unfold Pass.store
  dsimp only
  cases hs : s.modStore w addr (clip w val) with
  | some s' => exact modStore_journaled h hs
  | none =>
    dsimp only
    unfold Pass.Journaled
    rw [passStoreTo_arenas]
    split
    · exact h
    · exact h

theorem draw_journaled {s : Pass} (h : s.Journaled m₀) (hostOutput : Bool) (addr : Word)
    (data : List Byte) : (s.writeGpuDrawMemory hostOutput addr data).1.Journaled m₀ := by
  unfold Pass.writeGpuDrawMemory
  split
  · exact h
  · rename_i hc
    push Not at hc
    cases ho : s.bus.arenas.gpuDmaOffset (addr &&& 0x1FFFFFFF).toNat data.length with
    | none => exact h
    | some off =>
      have hfit := (gpuDmaOffset_spec ho).2.2.trans (s.bus.arenas.used_le .gpuDma)
      obtain ⟨hj, -, hheld⟩ := rpModJournal_took h (List.length_pos_iff.2 hc.2.2) hfit
      dsimp only
      generalize rpModJournal s.bus.arenas .gpuDma off data.length s.journal = r at hj hheld
      obtain ⟨j, ok⟩ := r
      cases ok with
      | false => exact hj
      | true => exact hj.update hfit (hheld rfl) fun i hi => putBytes_outside hi

theorem journalUsed_took (a : Arena) (h : Journaled m₀ A.bytes j) :
    Journaled m₀ A.bytes (A.journalUsed a j).1 ∧
      (∀ i, j.bits i = true → (A.journalUsed a j).1.bits i = true) ∧
      ((A.journalUsed a j).2 = true → ∀ i, 0 ≤ i → i < 0 + A.used a →
        (A.journalUsed a j).1.bits (a.pageBase + i / 4096) = true) := by
  unfold Arenas.journalUsed
  split
  · exact ⟨h, fun _ hi => hi, fun _ i _ hi => absurd hi (by omega)⟩
  · exact rpModJournal_took h (by omega) (by rw [Nat.zero_add]; exact A.used_le a)

theorem snapshotRead_journaled {s : Pass} (h : s.Journaled m₀) (data : List Byte) :
    (s.snapshotRead data).1.Journaled m₀ := by
  unfold Pass.snapshotRead
  dsimp only
  split
  · exact h
  · obtain ⟨hj, -, hheld⟩ := journalUsed_took .modMemory h
    generalize s.bus.arenas.journalUsed .modMemory s.journal = r at hj hheld
    obtain ⟨j, ok⟩ := r
    cases ok with
    | false => exact hj
    | true =>
      obtain ⟨hj', hkept, hheld'⟩ := journalUsed_took .gpuDma hj
      dsimp only
      generalize s.bus.arenas.journalUsed .gpuDma j = r' at hj' hkept hheld'
      obtain ⟨j', ok'⟩ := r'
      cases ok' with
      | false => exact hj'
      | true =>
        have hfit : ∀ a, 0 + s.bus.arenas.used a ≤ a.size := fun a => by
          rw [Nat.zero_add]
          exact s.bus.arenas.used_le a
        have hcpu := hj'.update (hfit .modMemory) (fun i hlo hhi => hkept _ (hheld rfl i hlo hhi))
          (m := putBytes (s.bus.arenas.bytes .modMemory) 0
            ((data.drop 16).take (s.bus.arenas.used .modMemory))) fun i hi =>
          putBytes_outside fun hc => hi ⟨hc.1, hc.2.trans_le (by
            rw [List.length_take]
            omega)⟩
        refine hcpu.update (hfit .gpuDma) (hheld' rfl) fun i hi => ?_
        refine putBytes_outside fun hc => hi ⟨hc.1, hc.2.trans_le ?_⟩
        rw [List.length_take]
        omega

theorem PassStep.journaled {s s' : Pass} (hs : PassStep s s') (h : s.Journaled m₀) :
    s'.Journaled m₀ := by
  cases hs with
  | store w addr val => exact store_journaled h w addr val
  | draw hostOutput addr data => exact draw_journaled h hostOutput addr data
  | snapshot data => exact snapshotRead_journaled h data
  | work b hb =>
    unfold Pass.Journaled
    rw [show ({ s with bus := b } : Pass).bus.arenas = s.bus.arenas from hb]
    exact h

theorem run_journaled {s s' : Pass} (hrun : Relation.ReflTransGen PassStep s s')
    (h : s.Journaled m₀) : s'.Journaled m₀ := by
  induction hrun with
  | refl => exact h
  | tail _ hs ih => exact hs.journaled ih

theorem clearBits (log : List ModPage) (bits : ℕ → Bool) (i : ℕ) :
    log.foldl (fun bits p => Function.update bits p.index false) bits i = true ↔
      bits i = true ∧ i ∉ log.map ModPage.index := by
  induction log generalizing bits with
  | nil => simp
  | cons p log ih =>
    rw [List.foldl_cons, ih, List.map_cons, List.mem_cons]
    by_cases hi : i = p.index
    · simp [hi]
    · simp [hi]

/-- Whatever a pass stored, and whether or not its journal had room, the rollback leaves the arenas as
they were, and an empty journal. -/
theorem rollback_restores {s s' : Pass} (hempty : s.journal.Empty)
    (hrun : Relation.ReflTransGen PassStep s s') :
    s'.rollback.bus.arenas.bytes = s.bus.arenas.bytes ∧ s'.rollback.journal.Empty := by
  have hstart : s.Journaled (contents s.bus.arenas.bytes) := by
    refine ⟨?_, fun i => ?_, fun p hp => ?_⟩
    · rw [hempty.1]
      exact .nil
    · rw [hempty.1, hempty.2 i]
      simp
    · rw [hempty.1] at hp
      exact absurd hp List.not_mem_nil
  have h := run_journaled hrun hstart
  refine ⟨?_, rfl, fun i => Bool.eq_false_iff.2 fun hi => ?_⟩
  · have hback := (restore_contents s'.journal.log s'.bus.arenas.bytes).trans h.backs.restore
    funext a i
    exact congrFun hback (a, i)
  · obtain ⟨hbit, hnot⟩ := (clearBits _ _ _).1 hi
    exact hnot ((h.bits i).1 hbit)

end PsxRecomp.Memory
