import Mathlib
import PsxRecomp.Memory.Rollback

/-! A store of a render pass against the same store in ordinary time. -/
namespace PsxRecomp.Memory
open DataShards (Byte Word Cells Geometry Width)
set_option autoImplicit false

/-- RAM, scratchpad, cache tags and arenas are the same. -/
structure SameMemories (b b' : Bus) : Prop where
  ram : b.ram = b'.ram
  scratchpad : ∀ i < 1024, b.scratchpad i = b'.scratchpad i
  tags : b.tags = b'.tags
  arenas : b.arenas.bytes = b'.arenas.bytes

theorem SameMemories.refl (b : Bus) : SameMemories b b := ⟨rfl, fun _ _ => rfl, rfl, rfl⟩

/-- A word store that ordinary time takes for a dummy of the BIOS. -/
def Bus.dummy (b : Bus) (w : Width) (addr val : Word) : Prop :=
  b.cpuStoreIsolated = false ∧ w = .word ∧ addr < 0xC0000000 ∧
    b.suppressed (mapWrite b.geometry addr).toNat val = true

/-- The journal takes the pages of an arena store. -/
def Pass.Room (s : Pass) (w : Width) (addr : Word) : Prop :=
  ∀ a off, s.bus.arenaTarget w addr = some (a, off) →
    (rpModJournal s.bus.arenas a off w.bytes s.journal).2 = true

theorem mask_lt (g : Geometry) : g.mask.toNat + 1 ≤ 0x800000 := by
  rcases g.live with h | h <;> rw [h] <;> decide

/-- A store below KSEG2 is for an arena where the physical address lies above the RAM window and in
use of one. -/
theorem arenaTarget_eq {b : Bus} {w : Width} {addr : Word} (hk : ¬0xC0000000 ≤ addr) :
    b.arenaTarget w addr = if addr &&& 0x1FFFFFFF < 0x800000 then none
      else b.arenas.find (addr &&& 0x1FFFFFFF).toNat w.bytes := by
  have hmask := mask_lt b.geometry
  unfold Bus.arenaTarget
  dsimp only
  rw [if_neg hk]
  by_cases hw : addr &&& 0x1FFFFFFF < 0x800000
  · have hlt : (addr &&& 0x1FFFFFFF).toNat < 0x800000 := BitVec.lt_def.1 hw
    rw [if_pos hw]
    split
    · rfl
    · rw [if_pos (by omega)]
  · have hge : ¬(addr &&& 0x1FFFFFFF).toNat < 0x800000 := fun h => hw (BitVec.lt_def.2 h)
    rw [if_neg hw, if_neg (by omega), if_neg (by omega)]

theorem modStore_none {s : Pass} {w : Width} {addr : Word} (h : s.bus.arenaTarget w addr = none)
    (val : Word) : s.modStore w addr val = none := by
  unfold Pass.modStore
  rw [h]

theorem modStore_room {s : Pass} {w : Width} {addr : Word} {a : Arena} {off : ℕ}
    (h : s.bus.arenaTarget w addr = some (a, off)) (hroom : s.Room w addr) (val : Word) :
    ∃ j, s.modStore w addr val =
      some ⟨{ s.bus with arenas := s.bus.arenas.poke a off w val }, j⟩ := by
  have hok := hroom a off h
  unfold Pass.modStore
  rw [h]
  dsimp only
  generalize rpModJournal s.bus.arenas a off w.bytes s.journal = r at hok
  obtain ⟨j, ok⟩ := r
  cases hok
  exact ⟨j, rfl⟩

theorem modStore_refused {s : Pass} {w : Width} {addr : Word} {a : Arena} {off : ℕ}
    (h : s.bus.arenaTarget w addr = some (a, off))
    (hfull : (rpModJournal s.bus.arenas a off w.bytes s.journal).2 = false) (val : Word) :
    ∃ j, s.modStore w addr val = some ⟨s.bus, j⟩ := by
  unfold Pass.modStore
  rw [h]
  dsimp only
  generalize rpModJournal s.bus.arenas a off w.bytes s.journal = r at hfull
  obtain ⟨j, ok⟩ := r
  cases hfull
  exact ⟨j, rfl⟩

/-! ## The two decodings -/

theorem writeRaw_isolated {b : Bus} (h : b.cpuStoreIsolated = true) (w : Width) (addr val : Word) :
    (b.writeRaw w addr val).1 = b.iscStore w addr (clip w val) := by
  have hplace : b.place w addr (clip w val) = .caches := if_pos h
  unfold Bus.writeRaw
  dsimp only
  rw [hplace]

/-- With the caches isolated both decodings stop at them. -/
theorem store_isolated {s : Pass} {w : Width} {addr : Word}
    (h : s.bus.cpuStoreIsolated = true) (ht : s.bus.arenaTarget w addr = none) (val : Word) :
    SameMemories (s.store w addr val).1.bus (s.bus.writeRaw w addr val).1 := by
  rw [writeRaw_isolated h]
  unfold Pass.store
  dsimp only
  rw [modStore_none ht]
  dsimp only
  rw [if_pos h, h]
  unfold Bus.passStoreTo
  dsimp only
  split
  · exact .refl _
  · exact .refl _

theorem place_kseg2 {b : Bus} {w : Width} {addr val : Word} (h : b.cpuStoreIsolated = false)
    (hk : 0xC0000000 ≤ addr) :
    b.place w addr val = .cacheControl ∨ b.place w addr val = .nothing := by
  unfold Bus.place
  rw [h, if_neg Bool.noConfusion]
  split
  · exact Or.inl rfl
  · exact Or.inr rfl

/-- The decoding below KSEG2, behind the isolation. -/
theorem place_below {b : Bus} {w : Width} {addr val : Word} (h : b.cpuStoreIsolated = false)
    (hk : ¬0xC0000000 ≤ addr) (hd : ¬b.dummy w addr val) :
    b.place w addr val =
      if addr &&& 0x1FFFFFFF < 0x800000 then .ram (mapWrite b.geometry addr).toNat
      else match b.arenaTarget w addr with
        | some (a, off) => .arena a off
        | none =>
          if 0x1F000000 ≤ addr &&& 0x1FFFFFFF ∧ addr &&& 0x1FFFFFFF ≤ 0x1F7FFFFF then .nothing
          else if 0x1F800000 ≤ addr &&& 0x1FFFFFFF ∧ addr &&& 0x1FFFFFFF ≤ 0x1F8003FF then
            .scratchpad ((addr &&& 0x1FFFFFFF).toNat - 0x1F800000)
          else if 0x1F801000 ≤ addr &&& 0x1FFFFFFF ∧ addr &&& 0x1FFFFFFF ≤ 0x1F803FFF then
            .mmio (addr &&& 0x1FFFFFFF)
          else .nothing := by
  have hctrl : ¬(w = .word ∧ addr = 0xFFFE0130) := fun hc => hk (by rw [hc.2]; decide)
  have hlive : ¬(w = .word ∧ b.suppressed (mapWrite b.geometry addr).toNat val) := fun hc =>
    hd ⟨h, hc.1, BitVec.not_le.1 hk, hc.2⟩
  unfold Bus.place
  rw [h, if_neg Bool.noConfusion, if_neg hctrl, if_neg hk]
  dsimp only
  rw [if_neg hlive, arenaTarget_eq hk]
  by_cases hw : addr &&& 0x1FFFFFFF < 0x800000
  · rw [if_pos ((mapWrite_lt_iff b.geometry addr).2 hw), if_pos hw]
  · rw [if_neg (mt (mapWrite_lt_iff b.geometry addr).1 hw), if_neg hw, if_neg hw]
    cases hfind : b.arenas.find (addr &&& 0x1FFFFFFF).toNat w.bytes with
    | none => simp only [mapWrite_above hw, hfind]
    | some place => simp only [mapWrite_above hw, hfind]

theorem store_unfold {s : Pass} {w : Width} {addr : Word} (h : s.bus.cpuStoreIsolated = false)
    (ht : s.bus.arenaTarget w addr = none) (val : Word) :
    (s.store w addr val).1.bus = (s.bus.passStoreTo false w addr (clip w val)).1 := by
  unfold Pass.store
  dsimp only
  rw [modStore_none ht]
  dsimp only
  rw [h, if_neg Bool.noConfusion]

/-- What a pass leaves out lies behind the scratchpad. -/
theorem same_scratchpad (b : Bus) (off : ℕ) (w : Width) (val : Word) :
    SameMemories
      { b with scratchpad := fun i => if i < 1024 then poke b.scratchpad off w val i
          else b.scratchpad i }
      { b with scratchpad := poke b.scratchpad off w val } :=
  ⟨rfl, fun _ hi => if_pos hi, rfl, rfl⟩

theorem scratch_end {v : Word} : v ≤ 0x1F8003FF ↔ v < 0x1F800400 := by bv_omega

theorem store_outside {s : Pass} {w : Width} {addr val : Word}
    (h : s.bus.cpuStoreIsolated = false) (ht : s.bus.arenaTarget w addr = none)
    (hd : ¬s.bus.dummy w addr (clip w val)) :
    SameMemories (s.store w addr val).1.bus (s.bus.writeRaw w addr val).1 := by
  rw [store_unfold h ht]
  unfold Bus.writeRaw Bus.passStoreTo
  dsimp only
  by_cases hk : 0xC0000000 ≤ addr
  · rw [if_pos hk]
    rcases @place_kseg2 _ w _ (clip w val) h hk with hp | hp <;> rw [hp] <;>
      exact ⟨rfl, fun _ _ => rfl, rfl, rfl⟩
  · rw [if_neg hk, if_neg Bool.noConfusion, place_below h hk hd, ht]
    have hmask := mask_lt s.bus.geometry
    by_cases hw : addr &&& 0x1FFFFFFF < 0x800000
    · rw [if_pos hw, if_pos (by have := mapWrite_le_mask s.bus.geometry hw; omega)]
      exact .refl _
    · have hge : ¬(addr &&& 0x1FFFFFFF).toNat < 0x800000 := fun hl => hw (BitVec.lt_def.2 hl)
      rw [if_neg hw, mapWrite_above hw, if_neg (by omega)]
      dsimp only
      by_cases hexp : 0x1F000000 ≤ addr &&& 0x1FFFFFFF ∧ addr &&& 0x1FFFFFFF ≤ 0x1F7FFFFF
      · rw [if_pos hexp, if_neg (by bv_omega), if_neg (by bv_omega)]
        exact .refl _
      · rw [if_neg hexp]
        by_cases hsp : 0x1F800000 ≤ addr &&& 0x1FFFFFFF ∧ addr &&& 0x1FFFFFFF ≤ 0x1F8003FF
        · rw [if_pos hsp, if_pos (And.imp_right scratch_end.1 hsp)]
          exact same_scratchpad _ _ _ _
        · rw [if_neg hsp, if_neg (fun hc => hsp (And.imp_right scratch_end.2 hc))]
          split
          · cases mmioClass (addr &&& 0x1FFFFFFF) (clip w val) w <;> exact .refl _
          · exact .refl _

theorem store_arena {s : Pass} {w : Width} {addr : Word} {a : Arena} {off : ℕ}
    (h : s.bus.cpuStoreIsolated = false) (ht : s.bus.arenaTarget w addr = some (a, off))
    (hroom : s.Room w addr) (val : Word) :
    SameMemories (s.store w addr val).1.bus (s.bus.writeRaw w addr val).1 := by
  have hk : ¬0xC0000000 ≤ addr := BitVec.not_le.2 (arenaTarget_fits ht).1
  have hw : ¬addr &&& 0x1FFFFFFF < 0x800000 := fun hl => by
    rw [arenaTarget_eq hk, if_pos hl] at ht
    cases ht
  have hd : ¬s.bus.dummy w addr (clip w val) := fun hc => hw <| by
    have hlow := suppressed_window hc.2.2.2
    rw [mapWrite_above hw] at hlow
    exact BitVec.lt_def.2 hlow
  obtain ⟨j, hs⟩ := modStore_room ht hroom (clip w val)
  unfold Pass.store Bus.writeRaw
  dsimp only
  rw [hs, place_below h hk hd, if_neg hw, ht]
  exact .refl _

/-! ## Passes -/

/-- A pass stores as ordinary time does, but for the dummies of the BIOS, which it makes, and for an
arena page that the journal has no room for, where it drops the store. The end of the pass gives the
arenas back. -/
theorem render_pass_stores :
    (∀ (s : Pass) (w : Width) (addr val : Word),
      (s.bus.cpuStoreIsolated = true → s.bus.arenaTarget w addr = none) →
      ¬s.bus.dummy w addr (clip w val) → s.Room w addr →
        SameMemories (s.store w addr val).1.bus (s.bus.writeRaw w addr val).1) ∧
    (∀ (s : Pass) (w : Width) (addr val : Word), s.bus.dummy w addr (clip w val) →
      (s.store w addr val).1.bus =
        { s.bus with ram := poke s.bus.ram (mapWrite s.bus.geometry addr).toNat w (clip w val) }) ∧
    (∀ (s : Pass) (w : Width) (addr val : Word) (a : Arena) (off : ℕ),
      s.bus.arenaTarget w addr = some (a, off) →
      (rpModJournal s.bus.arenas a off w.bytes s.journal).2 = false →
        (s.store w addr val).1.bus = s.bus) ∧
    ∀ s s' : Pass, s.journal.Empty → Relation.ReflTransGen PassStep s s' →
      s'.rollback.bus.arenas.bytes = s.bus.arenas.bytes ∧ s'.rollback.journal.Empty := by
  refine ⟨fun s w addr val hiso hd hroom => ?_, fun s w addr val hd => ?_,
    fun s w addr val a off ht hfull => ?_, fun s s' hempty hrun => rollback_restores hempty hrun⟩
  · cases h : s.bus.cpuStoreIsolated with
    | true => exact store_isolated h (hiso h) val
    | false =>
      cases ht : s.bus.arenaTarget w addr with
      | none => exact store_outside h ht hd
      | some t => exact store_arena h ht hroom val
  · obtain ⟨h, -, hk, hsup⟩ := hd
    have hk : ¬0xC0000000 ≤ addr := BitVec.not_le.2 hk
    have hw : addr &&& 0x1FFFFFFF < 0x800000 :=
      (mapWrite_lt_iff s.bus.geometry addr).1 (BitVec.lt_def.2 (suppressed_window hsup))
    have ht : s.bus.arenaTarget w addr = none := by rw [arenaTarget_eq hk, if_pos hw]
    rw [store_unfold h ht]
    unfold Bus.passStoreTo
    dsimp only
    rw [if_neg hk, if_neg Bool.noConfusion,
      if_pos (by have := mapWrite_le_mask s.bus.geometry hw; omega)]
  · obtain ⟨j, hs⟩ := modStore_refused ht hfull (clip w val)
    unfold Pass.store
    dsimp only
    rw [hs]

/-! ## Stores that differ -/

theorem retail_ram : (0x1FFFFF : Word) = 0x1FFFFF ∨ (0x1FFFFF : Word) = 0x7FFFFF := Or.inl rfl

/-- A bus of zeros on which a mod has 4096 bytes of the aperture in use. -/
def modBus : Bus where
  ram _ := 0
  scratchpad _ := 0
  rom _ := 0
  tags _ := 0
  arenas := ⟨fun _ _ => 0, fun a => if a = .gpuDma then 4096 else 0, fun a => by cases a <;> decide⟩
  geometry := ⟨0x1FFFFF, retail_ram⟩
  gates := ⟨true, false, false⟩
  cacheCtrl := 0
  isolateCache := false
  dmaExecDepth := 0
  hostStoreDepth := 0
  gameStarted := false
  lastStorePc := 0
  scph1001 := false
  evcbProtect := false

def freshJournal (granted : Bool) : Journal := ⟨fun _ => false, [], 0, false, fun _ => granted⟩

/-- A word in RAM and a byte in the aperture; the pass that stored the byte gives it back. -/
theorem modBus_pass :
    SameMemories ((Pass.mk modBus (freshJournal true)).store .word 0x80000010 7).1.bus
        (modBus.writeRaw .word 0x80000010 7).1 ∧
      ((Pass.mk modBus (freshJournal true)).store .byte 0x80800000 7).1.rollback.bus.arenas.bytes =
        modBus.arenas.bytes := by
  have h := render_pass_stores
  refine ⟨h.1 ⟨modBus, freshJournal true⟩ .word 0x80000010 7 (fun hi => Bool.noConfusion hi)
    (fun hd => Bool.noConfusion hd.2.2.2) (fun a off ht => ?_), (h.2.2.2 ⟨modBus, freshJournal true⟩ _
      ⟨rfl, fun _ => rfl⟩ (.single (.store _ .byte 0x80800000 7))).1⟩
  have hnone : modBus.arenaTarget .word 0x80000010 = none := by decide
  rw [hnone] at ht
  cases ht

/-- A store the journal refuses, a dummy store, and an isolated store that an arena takes. -/
theorem ordinary_semantics_fails :
    ¬SameMemories ((Pass.mk modBus (freshJournal false)).store .byte 0x80800000 7).1.bus
        (modBus.writeRaw .byte 0x80800000 7).1 ∧
      ¬SameMemories ((Pass.mk { modBus with gameStarted := true, lastStorePc := 0xBFC04E90 }
          (freshJournal true)).store .word 0x80000000 7).1.bus
        (Bus.writeRaw { modBus with gameStarted := true, lastStorePc := 0xBFC04E90 }
          .word 0x80000000 7).1 ∧
      ¬SameMemories ((Pass.mk { modBus with isolateCache := true }
          (freshJournal true)).store .byte 0x80800000 7).1.bus
        (Bus.writeRaw { modBus with isolateCache := true } .byte 0x80800000 7).1 := by
  refine ⟨fun h => ?_, fun h => ?_, fun h => ?_⟩
  · exact absurd (congrFun (congrFun h.arenas .gpuDma) 0) (by decide)
  · exact absurd (congrFun h.ram 0) (by decide)
  · exact absurd (congrFun (congrFun h.arenas .gpuDma) 0) (by decide)

end PsxRecomp.Memory
