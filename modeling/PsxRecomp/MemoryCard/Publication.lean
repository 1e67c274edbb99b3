import Mathlib
import PsxRecomp.MemoryCard.CardFiles

/-! What is kept of the cards' files over any number of steps, whatever calls on files fail. -/
namespace PsxRecomp.CardFiles
set_option autoImplicit false

/-! ## What is known of a card -/

inductive Standing where
  | fine
  | undecoded
  | unread
  | failed
  deriving DecidableEq

/-- How the last load of a card has ended, and the tail that its file has had since. -/
structure Ledger where
  standing : Standing
  tail : List Byte

def Ledger.note (card : Fin 2) (l : Ledger) : Event → Ledger
  | .loaded i tail => if i = card then ⟨.fine, tail⟩ else l
  | .undecoded i tail => if i = card then ⟨.undecoded, tail⟩ else l
  | .unread i => if i = card then ⟨.unread, []⟩ else l
  | .failed i => if i = card then ⟨.failed, l.tail⟩ else l
  | .replaced i => if i = card then ⟨.fine, []⟩ else l
  | .emptied i => if i = card then ⟨.fine, []⟩ else l
  | .published i _ _ tail _ => if i = card then ⟨l.standing, tail⟩ else l

def ledger (es : List Event) (card : Fin 2) : Ledger := es.foldl (Ledger.note card) ⟨.fine, []⟩

/-- The files with everything published in them. -/
def replay (files : Files) (es : List Event) : Files :=
  es.foldl (fun files e => match e with
    | .published _ path image tail _ => Function.update files path (some (image.bytes ++ tail))
    | _ => files) files

/-- A card in its slot and what is known of it. -/
structure Standard (codec : Bool) (c : MemCard) (l : Ledger) : Prop where
  dirty : c.dirty = true → c.present = true
  failed : c.present = true → l.standing ≠ .failed
  unread : c.present = true → l.standing = .unread → c.extensionReadFailed = true
  undecoded : c.present = true → l.standing = .undecoded → codec = true → c.extensionCodecFailed = true
  tail : c.present = true → c.extensionReadFailed = false → c.extension = l.tail

/-! ## A flush -/

/-- What a flush leaves of a card and the files. -/
inductive Flushed (codec : Bool) (card : Fin 2) (c : MemCard) (files : Files) : MemCard × Files × List Event → Prop where
  | kept (v : ℤ) : Flushed codec card c files ({ c with flushResult := v }, files, [])
  | published (tail : List Byte) (encoded : Bool) (hdirty : c.dirty = true) (hread : c.extensionReadFailed = false)
      (hcodec : c.extensionCodecFailed = false) (hencoded : encoded = codec)
      (htail : encoded = false → tail = c.extension) :
      Flushed codec card c files ({ c with flushResult := 0, dirty := false, extension := tail },
        Function.update files c.filepath (some (c.data.bytes ++ tail)), [.published card c.filepath c.data tail encoded])

theorem publishCard_cases (o : Publishing) (path : Path) (image : Image) (tail : List Byte) (files : Files) :
    publishCard o path image tail files = (files, false) ∨
      publishCard o path image tail files = (Function.update files path (some (image.bytes ++ tail)), true) := by
  unfold publishCard
  split
  · exact Or.inl rfl
  · split
    · exact Or.inl rfl
    · dsimp only
      split
      · exact Or.inr rfl
      · exact Or.inl rfl

theorem memcardFlush_flushed (codec : Bool) (o : Flushing) (card : Fin 2) (c : MemCard) (files : Files) :
    Flushed codec card c files (memcardFlush codec o card c files) := by
  unfold memcardFlush
  split
  · exact .kept c.flushResult
  next hgo =>
  split
  · exact .kept (-2)
  next hflags =>
  simp only [not_or, Bool.not_eq_true, Bool.not_eq_false] at hgo hflags
  dsimp only
  split
  · next hcodec =>
    split
    · exact .kept (-1)
    · split
      · exact .kept (-2)
      · next tail _ =>
        split
        · exact .kept (-2)
        · obtain h | h := publishCard_cases o.publishing c.filepath c.data tail files
          · rw [h]
            exact .kept (-1)
          · rw [h]
            exact .published tail true hgo.1 hflags.1 hflags.2 hcodec.symm fun h => absurd h (by decide)
  · next hcodec =>
    obtain h | h := publishCard_cases o.publishing c.filepath c.data c.extension files
    · rw [h]
      exact .kept (-1)
    · rw [h]
      exact .published c.extension false hgo.1 hflags.1 hflags.2 (Bool.eq_false_iff.2 hcodec).symm fun _ => rfl

/-! ## What a run has told -/

/-- The card that an event is about. -/
def Event.card : Event → Fin 2
  | .loaded i _ => i
  | .undecoded i _ => i
  | .unread i => i
  | .failed i => i
  | .replaced i => i
  | .emptied i => i
  | .published i _ _ _ _ => i

def Event.silent : Event → Bool
  | .published _ _ _ _ _ => false
  | _ => true

section Ledger

variable {card i : Fin 2} {es es' : List Event} {l : Ledger} {codec : Bool} {c : MemCard} {files : Files}

theorem note_other {e : Event} (h : e.card ≠ card) : l.note card e = l := by
  cases e <;> exact if_neg h

theorem ledger_append : ledger (es ++ es') card = es'.foldl (Ledger.note card) (ledger es card) := List.foldl_append ..

theorem ledger_other {e : Event} (h : e.card ≠ card) : ledger (es ++ [e]) card = ledger es card := by
  rw [ledger_append]
  exact note_other h

theorem replay_silent {e : Event} (h : e.silent = true) : replay files (es ++ [e]) = replay files es := by
  unfold replay
  rw [List.foldl_append]
  cases e with
  | published => cases h
  | _ => rfl

theorem replay_published {path : Path} {image : Image} {tail : List Byte} {encoded : Bool} :
    replay files (es ++ [.published card path image tail encoded]) =
      Function.update (replay files es) path (some (image.bytes ++ tail)) := by
  unfold replay
  rw [List.foldl_append]
  rfl

theorem loadEvent_card : (loadEvent card c).card = card := by
  unfold loadEvent
  split
  · rfl
  · split <;> rfl

theorem loadEvent_silent : (loadEvent card c).silent = true := by
  unfold loadEvent
  split
  · rfl
  · split <;> rfl

/-- A card that has been read stands as its load has told. -/
theorem loadEvent_standard {d : Bool} : Standard codec { c with present := true, dirty := d }
    (l.note card (loadEvent card c)) := by
  unfold loadEvent
  split
  · next hread =>
    simp only [Ledger.note, if_true]
    refine ⟨fun _ => rfl, fun _ h => ?_, fun _ _ => hread, fun _ h => ?_, fun _ h => ?_⟩
    · cases h
    · cases h
    · rw [show c.extensionReadFailed = false from h] at hread
      cases hread
  · split
    · next hcodec =>
      simp only [Ledger.note, if_true]
      refine ⟨fun _ => rfl, fun _ h => ?_, fun _ h => ?_, fun _ _ _ => hcodec, fun _ _ => rfl⟩ <;> cases h
    · simp only [Ledger.note, if_true]
      refine ⟨fun _ => rfl, fun _ h => ?_, fun _ h => ?_, fun _ h => ?_, fun _ _ => rfl⟩ <;> cases h

/-- Of a card that is not there nothing is asked. -/
theorem absent_standard (h : c.present = false) (hdirty : c.dirty = false) : Standard codec c l := by
  constructor <;> simp [h, hdirty]

end Ledger

/-- What is published over a file is a card that is read and decoded, with the tail that its file has had, unless the
codec has made another. -/
def Proper (files : Files) (es : List Event) : Prop :=
  ∀ es₁ card path image tail encoded es₂, es = es₁ ++ .published card path image tail encoded :: es₂ →
    (replay files es₁ path ≠ none → (ledger es₁ card).standing ≠ .failed ∧ (ledger es₁ card).standing ≠ .unread ∧
      (encoded = true → (ledger es₁ card).standing ≠ .undecoded)) ∧
    (encoded = false → tail = (ledger es₁ card).tail)

theorem Proper.snoc {files : Files} {es : List Event} {e : Event} (h : Proper files es)
    (he : ∀ card path image tail encoded, e = .published card path image tail encoded →
      (replay files es path ≠ none → (ledger es card).standing ≠ .failed ∧ (ledger es card).standing ≠ .unread ∧
        (encoded = true → (ledger es card).standing ≠ .undecoded)) ∧ (encoded = false → tail = (ledger es card).tail)) :
    Proper files (es ++ [e]) := by
  intro es₁ card path image tail encoded es₂ heq
  cases List.eq_nil_or_concat es₂ with
  | inl hnil =>
    subst hnil
    obtain ⟨rfl, hlast⟩ := List.append_inj' heq rfl
    exact he card path image tail encoded (List.cons.inj hlast).1
  | inr hmore =>
    obtain ⟨es₃, e', rfl⟩ := hmore
    rw [List.concat_eq_append, ← List.cons_append, ← List.append_assoc] at heq
    exact h es₁ card path image tail encoded es₃ (List.append_inj' heq rfl).1

theorem Proper.silent {files : Files} {es : List Event} {e : Event} (h : Proper files es) (he : e.silent = true) :
    Proper files (es ++ [e]) :=
  h.snoc fun card path image tail encoded heq => by rw [heq] at he; cases he

/-- A state that a run has led to, with what the run has told. -/
structure Kept (files : Files) (s : State) (es : List Event) : Prop where
  standard : ∀ i, Standard s.codec (s.cards i) (ledger es i)
  replayed : s.files = replay files es
  proper : Proper files es

section Kept

variable {files : Files} {s : State} {es : List Event} {card : Fin 2} {c : MemCard}

theorem start_kept (files : Files) : Kept files (start files) [] :=
  ⟨fun _ => absent_standard rfl rfl, rfl, fun es₁ _ _ _ _ _ es₂ h => by simp at h⟩

theorem cards_setCard (s : State) (card : Fin 2) (c : MemCard) : (s.setCard card c).cards card = c :=
  Function.update_self ..

/-- A slot set to a card that nothing new is known of. -/
theorem Kept.setCard (h : Kept files s es) (hc : Standard s.codec c (ledger es card)) :
    Kept files (s.setCard card c) es := by
  refine ⟨fun i => ?_, h.replayed, h.proper⟩
  by_cases hi : i = card
  · subst hi
    rw [cards_setCard]
    exact hc
  · simp only [State.setCard, Function.update_of_ne hi]
    exact h.standard i

/-- A slot set to a card, with what has been told of it. -/
theorem Kept.tell (h : Kept files s es) {e : Event} (hcard : e.card = card) (hsilent : e.silent = true)
    (hc : Standard s.codec c ((ledger es card).note card e)) : Kept files (s.setCard card c) (es ++ [e]) := by
  refine ⟨fun i => ?_, ?_, h.proper.silent hsilent⟩
  · by_cases hi : i = card
    · subst hi
      rw [cards_setCard, ledger_append]
      exact hc
    · rw [ledger_other (by rw [hcard]; exact Ne.symm hi)]
      simp only [State.setCard, Function.update_of_ne hi]
      exact h.standard i
  · rw [replay_silent hsilent]
    exact h.replayed

theorem Kept.flushed (h : Kept files s es) {x : MemCard × Files × List Event}
    (hx : Flushed s.codec card (s.cards card) s.files x) : Kept files (s.after card x).1 (es ++ x.2.2) := by
  have hstd := h.standard card
  cases hx with
  | kept v =>
    rw [List.append_nil]
    exact h.setCard ⟨hstd.dirty, hstd.failed, hstd.unread, hstd.undecoded, hstd.tail⟩
  | published tail encoded hdirty hread hcodec hencoded htail =>
    have hpresent := hstd.dirty hdirty
    refine ⟨fun i => ?_, ?_, h.proper.snoc fun i path image tail' encoded' heq => ?_⟩
    · by_cases hi : i = card
      · subst hi
        rw [ledger_append]
        simp only [State.after, State.setCard, Function.update_self, List.foldl_cons, List.foldl_nil, Ledger.note, if_true]
        exact ⟨fun hd => (by cases hd), hstd.failed, hstd.unread, hstd.undecoded, fun _ _ => rfl⟩
      · rw [ledger_other (Ne.symm hi)]
        simp only [State.after, State.setCard, Function.update_of_ne hi]
        exact h.standard i
    · rw [replay_published, ← h.replayed]
      rfl
    · injection heq with h1 h2 h3 h4 h5
      subst h1 h2 h3 h4 h5
      refine ⟨fun _ => ⟨hstd.failed hpresent, fun hst => ?_, fun henc hst => ?_⟩, fun henc => ?_⟩
      · rw [hstd.unread hpresent hst] at hread
        cases hread
      · rw [hstd.undecoded hpresent hst (hencoded ▸ henc)] at hcodec
        cases hcodec
      · rw [htail henc]
        exact hstd.tail hpresent hread

/-! ## One step -/

/-- The steps at which a card's file is written as it should be: a file that is there is opened when a slot is set up,
a new one gets the whole of its image, and no card is written to another directory that has not been read. -/
def Plain (s : State) : Op → Prop
  | .initSlot card enabled path dir r n =>
    let filepath := slotPath card enabled path dir
    (s.files filepath ≠ none → r.opens = true) ∧
      (s.files filepath = none → n.stored ≠ none → n.written = true ∧ n.flushed = true ∧ n.closed = true)
  | .rebindDir card _ _ => (s.cards card).filepath ≠ [] → (s.cards card).present = true
  | _ => True

theorem loadCardImage_dirty {codec : Bool} {r : Reading} {contents : List Byte} :
    (loadCardImage codec r contents c).1.dirty = c.dirty := by
  unfold loadCardImage
  dsimp only
  split
  · rfl
  · split
    · rfl
    · split
      · rfl
      · split
        · rfl
        · split <;> rfl

theorem loadCardImage_present {codec : Bool} {r : Reading} {contents : List Byte} :
    (loadCardImage codec r contents c).1.present = c.present := by
  unfold loadCardImage
  dsimp only
  split
  · rfl
  · split
    · rfl
    · split
      · rfl
      · split
        · rfl
        · split <;> rfl

theorem setCard_setCard (s : State) (card : Fin 2) (c c' : MemCard) :
    (s.setCard card c).setCard card c' = s.setCard card c' := by
  simp [State.setCard]

/-- A new file in a slot that is being set up. -/
theorem Kept.created (h : Kept files s es) (card : Fin 2) {path : Path} (image : Image) {tail : List Byte}
    (hcard : (s.cards card).present = false ∧ (s.cards card).dirty = false) (hnone : s.files path = none)
    (htail : (ledger es card).tail = tail) :
    Kept files { s with files := Function.update s.files path (some (image.bytes ++ tail)) }
      (es ++ [.published card path image tail false]) := by
  refine ⟨fun i => ?_, ?_, h.proper.snoc fun i path' image' tail' encoded' heq => ?_⟩
  · by_cases hi : i = card
    · subst hi
      exact absent_standard hcard.1 hcard.2
    · rw [ledger_other (Ne.symm hi)]
      exact h.standard i
  · rw [replay_published, ← h.replayed]
  · injection heq with h1 h2 h3 h4 h5
    subst h1 h2 h3 h4 h5
    exact ⟨fun hsome => absurd (h.replayed ▸ hnone) hsome, fun _ => htail.symm⟩

theorem initSlot_kept (h : Kept files s es) {filepath : Path} {r : Reading} {n : Creating}
    (hopens : s.files filepath ≠ none → r.opens = true)
    (hwhole : s.files filepath = none → n.stored ≠ none → n.written = true ∧ n.flushed = true ∧ n.closed = true) :
    Kept files (s.after card (initSlot s.codec card filepath r n s.files)).1
      (es ++ .emptied card :: (initSlot s.codec card filepath r n s.files).2.2) := by
  have hempty : Kept files (s.setCard card {}) (es ++ [.emptied card]) := h.tell rfl rfl (absent_standard rfl rfl)
  have htell : ∀ (c : MemCard) (e : Event), e.card = card → e.silent = true →
      Standard s.codec c ((ledger (es ++ [.emptied card]) card).note card e) →
      Kept files (s.after card (c, s.files, [e])).1 (es ++ .emptied card :: [e]) := by
    intro c e hcard hsilent hc
    have := hempty.tell hcard hsilent hc
    rwa [setCard_setCard, List.append_assoc] at this
  unfold initSlot
  split
  · exact hempty
  · dsimp only
    split
    · split
      · exact htell _ _ loadEvent_card loadEvent_silent loadEvent_standard
      · next c hload =>
        have hpresent := congrArg (fun x => x.1.present) hload
        have hdirty := congrArg (fun x => x.1.dirty) hload
        rw [loadCardImage_present] at hpresent
        rw [loadCardImage_dirty] at hdirty
        exact htell _ _ rfl rfl (absent_standard hpresent.symm hdirty.symm)
    · next hfilter =>
      have hnone : s.files filepath = none := by
        cases hfile : s.files filepath with
        | none => rfl
        | some contents =>
          rw [hfile, hopens (by simp [hfile])] at hfilter
          simp at hfilter
      split
      · exact htell _ _ rfl rfl (absent_standard rfl rfl)
      · next stored hstored =>
        obtain ⟨hw, hf, hc⟩ := hwhole hnone (by simp [hstored])
        rw [if_pos (by simp [hw, hf, hc])]
        have htail : (ledger (es ++ [.emptied card]) card).tail = [] := by
          rw [ledger_append]
          simp [Ledger.note]
        have hfresh : (s.setCard card {}).cards card = {} := cards_setCard ..
        have hcreated := hempty.created card memcardFormat ⟨by rw [hfresh], by rw [hfresh]⟩ hnone htail
        have hread := hcreated.tell (e := loadEvent card (notifyExtensionLoad s.codec n.accepts
          { data := memcardFormat, filepath := filepath, present := true })) loadEvent_card loadEvent_silent
          (loadEvent_standard (d := false))
        rw [List.append_nil, List.append_assoc, List.append_assoc] at hread
        simp only [State.setCard, Function.update_idem] at hread
        exact hread

theorem Kept.flush_set (h : Kept files (s.setCard card c) es) (o : Flushing) :
    Kept files (s.after card (memcardFlush s.codec o card c s.files)).1
      (es ++ (memcardFlush s.codec o card c s.files).2.2) := by
  have hflushed := memcardFlush_flushed s.codec o card ((s.setCard card c).cards card) s.files
  have hkept := h.flushed hflushed
  rw [cards_setCard] at hkept
  simp only [State.after, setCard_setCard] at hkept
  exact hkept

/-- A card that takes another's place is what its load has told. -/
theorem importRaw_kept (h : Kept files s es) (c : MemCard) (o : Flushing) :
    Kept files (s.after card (memcardFlush s.codec o card { c with present := true, dirty := true } s.files)).1
      (es ++ .replaced card :: loadEvent card c ::
        (memcardFlush s.codec o card { c with present := true, dirty := true } s.files).2.2) := by
  have hreplaced : Kept files (s.setCard card {}) (es ++ [.replaced card]) := h.tell rfl rfl (absent_standard rfl rfl)
  have hread := hreplaced.tell (c := { c with present := true, dirty := true }) (e := loadEvent card c) loadEvent_card
    loadEvent_silent loadEvent_standard
  rw [setCard_setCard] at hread
  have hflush := hread.flush_set o
  rw [List.append_assoc, List.append_assoc] at hflush
  exact hflush

theorem step_kept (h : Kept files s es) {op : Op} (hplain : Plain s op) :
    Kept files (s.step op).1 (es ++ (s.step op).2) := by
  cases op with
  | initSlot card enabled path dir r n => exact initSlot_kept h hplain.1 hplain.2
  | writeSector card sector buf =>
    simp only [State.step]
    split
    · rwa [List.append_nil]
    · next hpresent =>
      split
      · rw [List.append_nil]
        have hstd := h.standard card
        refine h.setCard ⟨fun _ => by simpa using hpresent, hstd.failed, hstd.unread, hstd.undecoded, hstd.tail⟩
      · rwa [List.append_nil]
  | flush card o => exact h.flushed (memcardFlush_flushed ..)
  | importRaw card src accepts o =>
    simp only [State.step]
    split
    · rwa [List.append_nil]
    · exact importRaw_kept h (notifyExtensionLoad s.codec accepts (discardExtension { s.cards card with data := src })) o
  | rebindDir card dir o =>
    simp only [State.step]
    split
    · rwa [List.append_nil]
    · next hgo =>
      have hstd := h.standard card
      have hpresent : (s.cards card).present = true := by
        by_contra hno
        simp only [not_or, not_and, Bool.not_eq_true] at hgo hno
        exact absurd (hplain (hgo.2 hno)) (by simp [hno])
      have hbound : Kept files (s.setCard card { s.cards card with filepath := cardPath dir card, dirty := true }) es :=
        h.setCard ⟨fun _ => hpresent, hstd.failed, hstd.unread, hstd.undecoded, hstd.tail⟩
      exact hbound.flush_set o
  | rebindPaths card path =>
    simp only [State.step]
    split
    · rwa [List.append_nil]
    · rw [List.append_nil]
      have hstd := h.standard card
      exact h.setCard ⟨hstd.dirty, hstd.failed, hstd.unread, hstd.undecoded, hstd.tail⟩
  | rebindPath card path =>
    simp only [State.step]
    have hstd := h.standard card
    split
    · rw [List.append_nil]
      exact h.setCard (absent_standard rfl rfl)
    · rw [List.append_nil]
      exact h.setCard ⟨hstd.dirty, hstd.failed, hstd.unread, hstd.undecoded, hstd.tail⟩
  | reloadBound card r =>
    simp only [State.step, reloadSlot]
    split
    · exact h.tell rfl rfl (absent_standard rfl rfl)
    · split
      · exact h.tell rfl rfl (absent_standard rfl rfl)
      · split
        · exact h.tell loadEvent_card loadEvent_silent loadEvent_standard
        · exact h.tell rfl rfl (absent_standard rfl rfl)
  | setExtensionCodec active =>
    simp only [State.step]
    rw [List.append_nil]
    refine ⟨fun i => ?_, h.replayed, h.proper⟩
    have hstd := h.standard i
    refine ⟨hstd.dirty, hstd.failed, hstd.unread, fun hpresent _ hon => ?_, hstd.tail⟩
    simp only at hpresent hon
    simp [hpresent, hon]

/-! ## What clears `dirty` -/

theorem Flushed.dirty {codec : Bool} {fs : Files} {x : MemCard × Files × List Event} (hx : Flushed codec card c fs x)
    (hdirty : c.dirty = true) (hclean : x.1.dirty = false) :
    ∃ path image tail encoded, Event.published card path image tail encoded ∈ x.2.2 := by
  cases hx with
  | kept v => rw [show c.dirty = false from hclean] at hdirty; cases hdirty
  | published tail encoded => exact ⟨_, _, _, _, List.mem_singleton_self _⟩

/-- How a card can come to have nothing left to be written. -/
def Settles (s : State) (op : Op) (card : Fin 2) : Prop :=
  (∃ path image tail encoded, Event.published card path image tail encoded ∈ (s.step op).2) ∨
    (∃ r, op = .reloadBound card r) ∨ (∃ enabled path dir r n, op = .initSlot card enabled path dir r n) ∨
      op = .rebindPath card []

theorem after_dirty {x : MemCard × Files × List Event} {i : Fin 2} (hdirty : (s.cards card).dirty = true)
    (hclean : ((s.after i x).1.cards card).dirty = false) : i = card ∧ x.1.dirty = false := by
  by_cases hi : card = i
  · subst hi
    simp only [State.after, cards_setCard] at hclean
    exact ⟨rfl, hclean⟩
  · simp only [State.after, State.setCard, Function.update_of_ne hi] at hclean
    rw [hdirty] at hclean
    cases hclean

theorem setCard_dirty {i : Fin 2} (hdirty : (s.cards card).dirty = true)
    (hclean : ((s.setCard i c).cards card).dirty = false) : i = card ∧ c.dirty = false :=
  after_dirty (x := (c, s.files, [])) hdirty hclean

theorem step_settles {op : Op} (hdirty : (s.cards card).dirty = true)
    (hclean : (((s.step op).1).cards card).dirty = false) : Settles s op card := by
  have hkept : ∀ {P : Prop}, (s.cards card).dirty = false → P := fun h => by rw [hdirty] at h; cases h
  unfold Settles
  cases op with
  | initSlot i enabled path dir r n =>
    obtain ⟨rfl, -⟩ := after_dirty hdirty hclean
    exact Or.inr (Or.inr (Or.inl ⟨_, _, _, _, _, rfl⟩))
  | writeSector i sector buf =>
    simp only [State.step] at hclean
    split at hclean
    · exact hkept hclean
    · split at hclean
      · obtain ⟨-, h⟩ := setCard_dirty hdirty hclean
        cases h
      · exact hkept hclean
  | flush i o =>
    obtain ⟨rfl, h⟩ := after_dirty hdirty hclean
    exact Or.inl ((memcardFlush_flushed ..).dirty hdirty h)
  | importRaw i src accepts o =>
    simp only [State.step] at hclean ⊢
    split at hclean
    · exact hkept hclean
    · next hpath =>
      obtain ⟨rfl, h⟩ := after_dirty hdirty hclean
      obtain ⟨path, image, tail, encoded, hmem⟩ := (memcardFlush_flushed ..).dirty rfl h
      rw [if_neg hpath]
      exact Or.inl ⟨path, image, tail, encoded, List.mem_cons_of_mem _ (List.mem_cons_of_mem _ hmem)⟩
  | rebindDir i dir o =>
    simp only [State.step] at hclean ⊢
    split at hclean
    · exact hkept hclean
    · next hgo =>
      obtain ⟨rfl, h⟩ := after_dirty hdirty hclean
      rw [if_neg hgo]
      exact Or.inl ((memcardFlush_flushed ..).dirty rfl h)
  | rebindPaths i path =>
    simp only [State.step] at hclean
    split at hclean
    · exact hkept hclean
    · obtain ⟨rfl, h⟩ := setCard_dirty hdirty hclean
      exact hkept h
  | rebindPath i path =>
    simp only [State.step] at hclean
    split at hclean
    · next hnil =>
      obtain ⟨rfl, -⟩ := setCard_dirty hdirty hclean
      exact Or.inr (Or.inr (Or.inr (by rw [hnil])))
    · obtain ⟨rfl, h⟩ := setCard_dirty hdirty hclean
      exact hkept h
  | reloadBound i r =>
    obtain ⟨rfl, -⟩ := setCard_dirty hdirty hclean
    exact Or.inr (Or.inl ⟨r, rfl⟩)
  | setExtensionCodec active => exact hkept hclean

end Kept

/-! ## Runs -/

/-- Steps that are all as they should be. -/
def Careful (s : State) : List Op → Prop
  | [] => True
  | op :: ops => Plain s op ∧ Careful (s.step op).1 ops

theorem run_kept {files : Files} {s : State} {es : List Event} {ops : List Op} (h : Kept files s es)
    (hcareful : Careful s ops) : Kept files (s.run ops).1 (es ++ (s.run ops).2) := by
  induction ops generalizing s es with
  | nil =>
    rw [State.run, List.append_nil]
    exact h
  | cons op ops ih =>
    obtain ⟨hplain, hcareful⟩ := hcareful
    have hrest := ih (step_kept h hplain) hcareful
    rw [List.append_assoc] at hrest
    exact hrest

/-- A file is as it was, or what one publication has put there. -/
theorem replay_cases (files : Files) (es : List Event) (path : Path) :
    replay files es path = files path ∨ ∃ card image tail encoded,
      Event.published card path image tail encoded ∈ es ∧ replay files es path = some (image.bytes ++ tail) := by
  induction es using List.reverseRecOn with
  | nil => exact Or.inl rfl
  | append_singleton es e ih =>
    have hearlier : replay files (es ++ [e]) path = replay files es path →
        replay files (es ++ [e]) path = files path ∨ ∃ card image tail encoded,
          Event.published card path image tail encoded ∈ es ++ [e] ∧
            replay files (es ++ [e]) path = some (image.bytes ++ tail) := by
      intro heq
      rw [heq]
      refine ih.imp id ?_
      rintro ⟨card, image, tail, encoded, hmem, hfile⟩
      exact ⟨card, image, tail, encoded, List.mem_append_left _ hmem, hfile⟩
    by_cases hsilent : e.silent = true
    · exact hearlier (congrFun (replay_silent hsilent) path)
    · cases e with
      | published card path' image tail encoded =>
        by_cases hpath : path = path'
        · subst hpath
          refine Or.inr ⟨card, image, tail, encoded, by simp, ?_⟩
          rw [replay_published, Function.update_self]
        · exact hearlier (by rw [replay_published, Function.update_of_ne hpath])
      | _ => exact absurd rfl hsilent

/-- Whatever fails, a file keeps its bytes until a whole card is put there, only a card that has been read and decoded
is put in a file's place, its tail goes with it, and nothing unwritten is forgotten but with its card. -/
theorem cards_kept (files : Files) (ops : List Op) (h : Careful (start files) ops) :
    let x := (start files).run ops
    (∀ path, x.1.files path = files path ∨ ∃ card image tail encoded,
      Event.published card path image tail encoded ∈ x.2 ∧ x.1.files path = some (image.bytes ++ tail)) ∧
    Proper files x.2 ∧
    ∀ op card, (x.1.cards card).dirty = true → ((x.1.step op).1.cards card).dirty = false → Settles x.1 op card := by
  intro x
  have hkept := run_kept (start_kept files) h
  rw [List.nil_append] at hkept
  refine ⟨fun path => ?_, hkept.proper, fun op card => step_settles⟩
  rw [hkept.replayed]
  exact replay_cases files x.2 path

def goodReading : Reading := ⟨true, none, false, true, false, true⟩

def goodPublishing : Publishing := ⟨true, true, true, true, true, true, true, true⟩

/-- A card's file with one byte behind its image, in every place. -/
def tailedFiles : Files := fun _ => some (memcardFormat.bytes ++ [0x58])

/-- Two cards with tails are read, a sector is written on the first, its new file cannot take the old one's place, it is
written once more, and both are flushed. -/
def flushedTwice : List Op :=
  memcardInitSlots (some "cards".toList) (fun _ => true) (fun _ => none) (fun _ => goodReading)
    (fun _ => ⟨some 0, true, true, true, true⟩) ++
  .writeSector 0 5 (List.replicate 128 1) :: .flush 0 ⟨true, none, { goodPublishing with renamed := false }⟩ ::
  .writeSector 0 5 (List.replicate 128 2) :: memcardFlushAll fun _ => ⟨true, none, goodPublishing⟩

theorem cards_kept_tailed :
    let x := (start tailedFiles).run flushedTwice
    (∀ path, x.1.files path = tailedFiles path ∨ ∃ card image tail encoded,
      Event.published card path image tail encoded ∈ x.2 ∧ x.1.files path = some (image.bytes ++ tail)) ∧
    Proper tailedFiles x.2 ∧
    ∀ op card, (x.1.cards card).dirty = true → ((x.1.step op).1.cards card).dirty = false → Settles x.1 op card :=
  cards_kept tailedFiles flushedTwice
    ⟨⟨fun _ => rfl, fun _ _ => ⟨rfl, rfl, rfl⟩⟩, ⟨fun _ => rfl, fun _ _ => ⟨rfl, rfl, rfl⟩⟩, trivial, trivial, trivial, trivial,
      trivial, trivial⟩

/-! ## A card that is replaced, a codec that is gone, a slot that is unbound -/

theorem readImage_whole {r : Reading} (image : Image) (tail : List Byte) (hfails : r.imageFails = none) :
    readImage r (image.bytes ++ tail) = image.bytes ∧ (image.bytes ++ tail).drop memcardSize = tail := by
  rw [readImage, hfails, Option.getD_none, List.take_left' image.size, List.drop_left' image.size]
  exact ⟨List.take_of_length_le (Nat.le_of_eq image.size), rfl⟩

theorem put_whole (data image : Image) {bytes : List Byte} (h : 0 + bytes.length ≤ memcardSize)
    (heq : bytes = image.bytes) : data.put 0 bytes h = image := by
  subst heq
  obtain ⟨bytes, size⟩ := image
  have hdrop : data.bytes.drop bytes.length = [] :=
    List.drop_eq_nil_of_le (Nat.le_of_eq (data.size.trans size.symm))
  simp [Image.put, hdrop]

/-- A card with one byte behind its image. -/
theorem loadCardImage_byte (codec : Bool) (tailFails accepts : Bool) (image : Image) (b : Byte) (c : MemCard) :
    loadCardImage codec ⟨true, none, false, true, tailFails, accepts⟩ (image.bytes ++ [b]) c =
      (if tailFails then { discardExtension c with data := image, extensionReadFailed := true }
        else notifyExtensionLoad codec accepts { discardExtension c with data := image, extension := [b] }, true) := by
  obtain ⟨hread, hdrop⟩ := @readImage_whole ⟨true, none, false, true, tailFails, accepts⟩ image [b] rfl
  unfold loadCardImage
  dsimp only
  rw [hdrop, put_whole _ image _ hread, if_neg (by rw [hread, image.size]; exact fun h => h rfl), if_neg (by decide)]
  dsimp only
  cases tailFails <;> rfl

def tailedSlot (tailFails accepts : Bool) : Op :=
  .initSlot 0 true (some "card".toList) none ⟨true, none, false, true, tailFails, accepts⟩ ⟨none, true, true, true, true⟩

/-- The card that such a slot gets. -/
def tailedCard (codec tailFails accepts : Bool) : MemCard :=
  if tailFails then
    { data := memcardFormat, filepath := "card".toList, present := true, extensionReadFailed := true }
  else
    { notifyExtensionLoad codec accepts
        { data := memcardFormat, filepath := "card".toList, extension := [0x58] } with present := true }

theorem initSlot_read {codec : Bool} {card : Fin 2} {path : Path} {r : Reading} {n : Creating} {files : Files}
    {contents : List Byte} {c : MemCard} (hpath : path ≠ []) (hfile : files path = some contents)
    (hopens : r.opens = true) (hload : loadCardImage codec r contents { filepath := path } = (c, true)) :
    initSlot codec card path r n files = ({ c with present := true }, files, [loadEvent card c]) := by
  unfold initSlot
  rw [if_neg hpath, hfile, Option.filter_some, hopens, if_pos rfl]
  dsimp only
  rw [hload]

theorem tailedSlot_step {s : State} (hfiles : s.files = tailedFiles) (tailFails accepts : Bool) :
    s.step (tailedSlot tailFails accepts) =
      (s.setCard 0 (tailedCard s.codec tailFails accepts),
        [.emptied 0, loadEvent 0 (tailedCard s.codec tailFails accepts)]) := by
  obtain ⟨c, hload, hcard⟩ : ∃ c, loadCardImage s.codec ⟨true, none, false, true, tailFails, accepts⟩
      (memcardFormat.bytes ++ [0x58]) { filepath := "card".toList } = (c, true) ∧
      { c with present := true } = tailedCard s.codec tailFails accepts :=
    ⟨_, loadCardImage_byte _ _ _ _ _ _, by cases tailFails <;> rfl⟩
  have hinit := @initSlot_read s.codec 0 "card".toList ⟨true, none, false, true, tailFails, accepts⟩
    ⟨none, true, true, true, true⟩ tailedFiles _ _ (by decide) rfl rfl hload
  have hpath : slotPath 0 true (some "card".toList) none = "card".toList := by decide
  simp only [tailedSlot, State.step, hpath, hfiles]
  rw [hinit, hcard]
  simp only [State.after, State.setCard, ← hfiles]
  rw [← hcard]
  rfl

/-- A card whose tail cannot be read. -/
def unreadRun : State × List Event := (start tailedFiles).run [tailedSlot true true]

/-- A card that a codec has refused, once the codec is gone. -/
def refusedRun : State × List Event :=
  (start tailedFiles).run [.setExtensionCodec true, tailedSlot false false, .setExtensionCodec false]

/-- A card with something unwritten. -/
def unwrittenRun : State × List Event :=
  (start tailedFiles).run [.rebindPaths 0 "card".toList,
    .importRaw 0 memcardFormat true ⟨true, none, { goodPublishing with created := false }⟩]

/-- An import is put in the place of a card that could not be read, a card that a codec has refused is written once
the codec is gone, and an unbound slot forgets what is unwritten. -/
theorem card_given_up :
    (unreadRun.2.getLast? = some (.unread 0) ∧ unreadRun.1.files "card".toList ≠ none ∧
      Event.published 0 "card".toList memcardFormat [] false ∈
        (unreadRun.1.step (.importRaw 0 memcardFormat true ⟨true, none, goodPublishing⟩)).2) ∧
    (refusedRun.2.getLast? = some (.undecoded 0 [0x58]) ∧ refusedRun.1.files (cardPath "guest".toList 0) ≠ none ∧
      Event.published 0 (cardPath "guest".toList 0) memcardFormat [0x58] false ∈
        (refusedRun.1.step (.rebindDir 0 "guest".toList ⟨true, none, goodPublishing⟩)).2) ∧
    ((unwrittenRun.1.cards 0).dirty = true ∧ ((unwrittenRun.1.step (.rebindPath 0 [])).1.cards 0).dirty = false ∧
      (unwrittenRun.1.step (.rebindPath 0 [])).2 = []) := by
  refine ⟨?_, ?_, rfl, rfl, rfl⟩
  · have hstep := tailedSlot_step (s := start tailedFiles) rfl true true
    have hrun : unreadRun = ((start tailedFiles).setCard 0 (tailedCard false true true), [.emptied 0, .unread 0]) := by
      simp only [unreadRun, State.run, hstep]
      rfl
    rw [hrun]
    exact ⟨rfl, Option.some_ne_none _, List.mem_cons_of_mem _ (List.mem_cons_of_mem _ (List.mem_singleton_self _))⟩
  · have hstep := tailedSlot_step (s := ((start tailedFiles).step (.setExtensionCodec true)).1) rfl false false
    have hrun : refusedRun =
        ((((((start tailedFiles).step (.setExtensionCodec true)).1.setCard 0 (tailedCard true false false)).step
          (.setExtensionCodec false)).1, [.emptied 0, .undecoded 0 [0x58]]) : State × List Event) := by
      simp only [refusedRun, State.run, hstep]
      rfl
    rw [hrun]
    exact ⟨rfl, Option.some_ne_none _, List.mem_singleton_self _⟩

end PsxRecomp.CardFiles
