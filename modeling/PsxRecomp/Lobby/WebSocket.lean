import Mathlib
import PsxRecomp.Lobby.Transport

/-! Text frames over a socket that may run dry: the reader without state between its calls, the writer, and what
the reader makes of the frames of a conforming peer. -/
namespace PsxRecomp.Lobby
set_option autoImplicit false

/-! ## Frames -/

abbrev Mask := { key : List Byte // key.length = 4 }

def maskWith (key : List Byte) (payload : List Byte) : List Byte :=
  payload.mapIdx fun i b => b ^^^ key.getD (i % 4) 0

inductive Frame where
  | text (mask : Option Mask) (payload : List Byte)
  | ping (mask : Option Mask) (payload : List Byte)

namespace Frame

def mask : Frame → Option Mask
  | text mask _ => mask
  | ping mask _ => mask

def payload : Frame → List Byte
  | text _ payload => payload
  | ping _ payload => payload

def opcode : Frame → Byte
  | text _ _ => 0x81
  | ping _ _ => 0x89

/-- Sixteen bits of length from 126 on. -/
def extension (n : ℕ) : List Byte := if n < 126 then [] else [BitVec.ofNat 8 (n / 256), BitVec.ofNat 8 n]

def lengthByte (masked : Bool) (n : ℕ) : Byte :=
  (if masked then 0x80 else 0) ||| (if n < 126 then BitVec.ofNat 8 n else 126)

def keyBytes : Option Mask → List Byte
  | none => []
  | some key => key.1

def masked : Option Mask → List Byte → List Byte
  | none, payload => payload
  | some key, payload => maskWith key.1 payload

/-- What follows the first two bytes. -/
def behind (f : Frame) : List Byte := extension f.payload.length ++ keyBytes f.mask ++ masked f.mask f.payload

def encode (f : Frame) : List Byte := f.opcode :: lengthByte f.mask.isSome f.payload.length :: f.behind

/-- What a conforming peer sends. -/
def Conforms : Frame → Prop
  | text _ payload => payload.length < 65536
  | ping _ payload => payload.length ≤ 125

def isText : Frame → Bool
  | text _ _ => true
  | ping _ _ => false

def texts (fs : List Frame) : List (List Byte) := (fs.filter isText).map payload

end Frame

/-! ## The reader -/

/-- What a call of `rnet_ws_read_text` comes to. -/
inductive Reply where
  | text (payload : List Byte)
  /-- The value 0. -/
  | nothing
  /-- The value -1. -/
  | failed (closed : Bool)
  deriving DecidableEq

def readFrame (cap : ℕ) (key : Option (List Byte)) (plen : ℕ) (s : Script) : Script × Reply :=
  if plen + 1 > cap then (s, .failed false)
  else
    let r := readPayload plen plen s
    match r.2 with
    | none => (r.1, .failed false)
    | some got =>
      match key with
      | none => (r.1, .text got)
      | some key => (r.1, .text (maskWith key got))

def readKey (cap : ℕ) (masked : Bool) (plen : ℕ) (s : Script) : Script × Reply :=
  if masked then
    let r := recvAll 4 s
    if r.2.length ≠ 4 then (r.1, .failed false) else readFrame cap (some r.2) plen r.1
  else readFrame cap none plen s

def readLength (cap : ℕ) (h1 : Byte) (s : Script) : Script × Reply :=
  let masked := h1 &&& 0x80 ≠ 0
  let plen := (h1 &&& 0x7F).toNat
  if plen = 126 then
    let r := recvAll 2 s
    match r.2 with
    | [e0, e1] => readKey cap masked (e0.toNat * 256 + e1.toNat) r.1
    | _ => (r.1, .failed false)
  else if plen = 127 then (s, .failed false)
  else readKey cap masked plen s

/-- `rnet_ws_read_text` -/
def readText (cap : ℕ) (s : Script) : Script × Reply :=
  let r := recv 2 s
  match r.2 with
  | none => (r.1, .nothing)
  | some [h0, h1] =>
    if h0 &&& 0x0F = 0x8 then (r.1, .failed true)
    else if h0 &&& 0x0F = 0x9 then (r.1, .nothing)
    else if h0 &&& 0x0F ≠ 0x1 then (r.1, .failed false)
    else readLength cap h1 r.1
  | some _ => (r.1, .nothing)

/-- Calls one after another. -/
def calls (cap : ℕ) : ℕ → Script → List Reply × Script
  | 0, s => ([], s)
  | k + 1, s =>
    let r := readText cap s
    let q := calls cap k r.1
    (r.2 :: q.1, q.2)

def Reply.isFailure : Reply → Bool
  | .failed _ => true
  | _ => false

def Reply.payload : Reply → Option (List Byte)
  | .text payload => some payload
  | _ => none

/-- However often the reader is called it keeps the connection and returns the texts in order, all of them in the
end. -/
structure Delivers (cap : ℕ) (frames : List Frame) (s : Script) : Prop where
  alive : ∀ k, ∀ r ∈ (calls cap k s).1, r.isFailure = false
  ordered : ∀ k, (calls cap k s).1.filterMap Reply.payload <+: Frame.texts frames
  complete : ∃ k, (calls cap k s).1.filterMap Reply.payload = Frame.texts frames

/-! ## How the transport cuts -/

/-- The bytes of each frame as they arrive. -/
def pieces : List Frame → Script → List (Frame × Script)
  | [], _ => []
  | f :: fs, s => (f, s.take f.encode.length) :: pieces fs (s.drop f.encode.length)

/-- A ping is its two first bytes. -/
def Bare (frames : List Frame) : Prop := ∀ f ∈ frames, f.isText = false → f.behind = []

/-- The two first bytes of each frame come in one result. -/
def Whole (frames : List Frame) (s : Script) : Prop := ∀ p ∈ pieces frames s, ∀ a ∈ p.2[1]?, a.joined = true

/-- Behind its first two bytes no text runs dry. -/
def Steady (frames : List Frame) (s : Script) : Prop :=
  ∀ p ∈ pieces frames s, p.1.isText = true → Flowing (p.2.drop 2)

/-! ## One frame -/

section Frames

variable {cap : ℕ} {s rest : Script}

theorem maskWith_twice (key payload : List Byte) : maskWith key (maskWith key payload) = payload := by
  unfold maskWith
  rw [List.mapIdx_mapIdx]
  refine List.ext_getElem (by simp) fun i hi hi' => ?_
  simp

theorem maskWith_length (key payload : List Byte) : (maskWith key payload).length = payload.length := by
  simp [maskWith]

theorem lengthByte_bits (masked : Bool) (n : ℕ) : (Frame.lengthByte masked n &&& 0x80 ≠ 0 ↔ masked = true) ∧
    (Frame.lengthByte masked n &&& 0x7F).toNat = if n < 126 then n else 126 := by
  have hall : ∀ b : Byte, b.toNat < 128 → (0x80 ||| b) &&& 0x80 ≠ 0 ∧ (0 ||| b) &&& 0x80 = 0 ∧
      ((0x80 ||| b) &&& 0x7F).toNat = b.toNat ∧ ((0 ||| b) &&& 0x7F).toNat = b.toNat := by
    decide
  have hb : (if n < 126 then BitVec.ofNat 8 n else 126 : Byte).toNat = if n < 126 then n else 126 := by
    split
    · rw [BitVec.toNat_ofNat]
      omega
    · rfl
  obtain ⟨h1, h2, h3, h4⟩ := hall (if n < 126 then BitVec.ofNat 8 n else 126) (by rw [hb]; split <;> omega)
  unfold Frame.lengthByte
  cases masked with
  | true => exact ⟨iff_of_true h1 rfl, h3.trans hb⟩
  | false => exact ⟨iff_of_false (fun h => h h2) (by simp), h4.trans hb⟩

theorem flowing_append {t : Script} : Flowing (s ++ t) ↔ Flowing s ∧ Flowing t := by
  unfold Flowing
  simp only [List.mem_append, or_imp, forall_and]

/-- The payload of a frame arrives whole, or the call fails. -/
theorem readFrame_cases {mask : Option Mask} {payload : List Byte} (hcap : payload.length < cap)
    (hbytes : s.map Arrival.byte = Frame.masked mask payload) :
    (Flowing s → readFrame cap (mask.map Subtype.val) payload.length (s ++ rest) = (rest, .text payload)) ∧
      (¬Flowing s → (readFrame cap (mask.map Subtype.val) payload.length (s ++ rest)).2.isFailure = true) := by
  have hlen : s.length = payload.length := by
    have h := congrArg List.length hbytes
    rw [List.length_map] at h
    rw [h]
    cases mask with
    | none => rfl
    | some key => exact maskWith_length _ _
  refine ⟨fun h => ?_, fun h => ?_⟩
  · unfold readFrame
    rw [if_neg (by omega), ← hlen]
    simp only [readPayload_flowing h rest (le_refl _), hbytes]
    cases mask with
    | none => rfl
    | some key =>
      simp only [Option.map_some, Frame.masked, maskWith_twice]
  · unfold readFrame
    rw [if_neg (by omega), ← hlen]
    simp only [readPayload_stuck h rest]
    rfl

theorem readKey_cases {mask : Option Mask} {payload : List Byte} (hcap : payload.length < cap)
    (hbytes : s.map Arrival.byte = Frame.keyBytes mask ++ Frame.masked mask payload) :
    (Flowing s → readKey cap mask.isSome payload.length (s ++ rest) = (rest, .text payload)) ∧
      (¬Flowing s → (readKey cap mask.isSome payload.length (s ++ rest)).2.isFailure = true) := by
  unfold readKey
  cases mask with
  | none =>
    simp only [Option.isSome_none, Bool.false_eq_true, if_false]
    exact @readFrame_cases cap s rest none payload hcap hbytes
  | some key =>
    obtain ⟨k, d, rfl, hk, hd⟩ := List.map_eq_append_iff.1 hbytes
    have hlen : k.length = 4 := by
      have h := congrArg List.length hk
      rw [List.length_map] at h
      exact h.trans key.2
    have hne : k ≠ [] := fun hnil => by simp [hnil] at hlen
    simp only [Option.isSome_some, if_true, flowing_append, List.append_assoc]
    rw [← hlen]
    by_cases hflow : Flowing k
    · have hread := recvAll_flowing hflow hne (d ++ rest)
      have hkey : (k.map Arrival.byte).length = k.length := by simp
      rw [hread]
      simp only [hkey, ne_eq, not_true_eq_false, if_false, hflow, true_and]
      have hframe := @readFrame_cases cap d rest (some key) payload hcap hd
      have hval : (some key).map Subtype.val = some (k.map Arrival.byte) := by
        rw [hk]
        rfl
      rw [hval] at hframe
      exact hframe
    · have hshort := recvAll_short hflow (d ++ rest)
      refine ⟨fun h => absurd h.1 hflow, fun _ => ?_⟩
      rw [if_pos (by omega)]
      rfl

theorem readLength_cases {mask : Option Mask} {payload : List Byte} (hlt : payload.length < 65536)
    (hcap : payload.length < cap) (hbytes : s.map Arrival.byte = (Frame.text mask payload).behind) :
    (Flowing s → readLength cap (Frame.lengthByte mask.isSome payload.length) (s ++ rest) = (rest, .text payload)) ∧
      (¬Flowing s →
        (readLength cap (Frame.lengthByte mask.isSome payload.length) (s ++ rest)).2.isFailure = true) := by
  obtain ⟨hmask, hfield⟩ := lengthByte_bits mask.isSome payload.length
  have hbool : decide (Frame.lengthByte mask.isSome payload.length &&& 0x80 ≠ 0) = mask.isSome := by
    rw [Bool.eq_iff_iff, decide_eq_true_eq]
    exact hmask
  replace hbytes : s.map Arrival.byte =
      Frame.extension payload.length ++ (Frame.keyBytes mask ++ Frame.masked mask payload) := by
    rw [hbytes, ← List.append_assoc]
    rfl
  unfold Frame.extension at hbytes
  unfold readLength
  simp only [hfield, hbool]
  by_cases hsmall : payload.length < 126
  · rw [if_pos hsmall, List.nil_append] at hbytes
    simp only [if_pos hsmall]
    rw [if_neg (by omega), if_neg (by omega)]
    exact readKey_cases hcap hbytes
  · rw [if_neg hsmall] at hbytes
    simp only [if_neg hsmall, if_true]
    obtain ⟨e, d, rfl, he, hd⟩ := List.map_eq_append_iff.1 hbytes
    have hlen : e.length = 2 := by
      have h := congrArg List.length he
      rw [List.length_map] at h
      exact h
    have hne : e ≠ [] := fun hnil => by simp [hnil] at hlen
    simp only [flowing_append, List.append_assoc]
    rw [← hlen]
    by_cases hflow : Flowing e
    · rw [recvAll_flowing hflow hne (d ++ rest), he]
      have hplen : (BitVec.ofNat 8 (payload.length / 256)).toNat * 256 + (BitVec.ofNat 8 payload.length).toNat =
          payload.length := by
        rw [BitVec.toNat_ofNat, BitVec.toNat_ofNat]
        omega
      simp only [hplen, hflow, true_and]
      exact readKey_cases hcap hd
    · have hshort := recvAll_short hflow (d ++ rest)
      refine ⟨fun h => absurd h.1 hflow, fun _ => ?_⟩
      generalize recvAll e.length (e ++ (d ++ rest)) = r at hshort
      split
      · next e0 e1 htwo =>
        rw [htwo, hlen] at hshort
        exact absurd hshort (by simp)
      · rfl

/-- The two first bytes in one result. -/
theorem recv_header {a b : Arrival} (ha : a.waits = 0) (hb : b.joined = true) (s : Script) :
    recv 2 (a :: b :: s) = (s, some [a.byte, b.byte]) := by
  unfold recv
  simp [ha, hb]

theorem readText_waits {a : Arrival} (ha : a.waits ≠ 0) (s : Script) :
    readText cap (a :: s) = ({ a with waits := a.waits - 1 } :: s, .nothing) := by
  unfold readText recv
  simp [ha, attempt]

/-- A frame whose first bytes come together: a text that flows is returned, one that runs dry fails, and of a ping
nothing but these bytes is read. -/
theorem readText_frame {f : Frame} (hf : f.Conforms) (hcap : f.payload.length < cap) {a b : Arrival}
    (hbytes : (a :: b :: s).map Arrival.byte = f.encode) (ha : a.waits = 0) (hb : b.joined = true) :
    (f.isText = true → Flowing s → readText cap (a :: b :: (s ++ rest)) = (rest, .text f.payload)) ∧
      (f.isText = true → ¬Flowing s → (readText cap (a :: b :: (s ++ rest))).2.isFailure = true) ∧
      (f.isText = false → readText cap (a :: b :: (s ++ rest)) = (s ++ rest, .nothing)) := by
  simp only [List.map_cons, Frame.encode, List.cons.injEq] at hbytes
  obtain ⟨ha', hb', hs⟩ := hbytes
  unfold readText
  rw [recv_header ha hb]
  simp only [ha', hb']
  cases f with
  | text mask payload =>
    have h8 : ¬Frame.opcode (.text mask payload) &&& 0x0F = 0x8 := by simp [Frame.opcode]
    have h9 : ¬Frame.opcode (.text mask payload) &&& 0x0F = 0x9 := by simp [Frame.opcode]
    have h1 : ¬Frame.opcode (.text mask payload) &&& 0x0F ≠ 0x1 := by simp [Frame.opcode]
    simp only [if_neg h8, if_neg h9, if_neg h1]
    obtain ⟨hyes, hno⟩ := @readLength_cases cap s rest mask payload hf hcap hs
    exact ⟨fun _ => hyes, fun _ => hno, fun h => absurd h (by simp [Frame.isText])⟩
  | ping mask payload =>
    have h8 : ¬Frame.opcode (.ping mask payload) &&& 0x0F = 0x8 := by simp [Frame.opcode]
    have h9 : Frame.opcode (.ping mask payload) &&& 0x0F = 0x9 := by simp [Frame.opcode]
    simp only [if_neg h8, if_pos h9]
    exact ⟨fun h => absurd h (by simp [Frame.isText]), fun h => absurd h (by simp [Frame.isText]), fun _ => trivial⟩

end Frames

/-! ## Calls -/

section Calls

variable {cap : ℕ}

theorem calls_add (cap j k : ℕ) (s : Script) : calls cap (j + k) s =
    ((calls cap j s).1 ++ (calls cap k (calls cap j s).2).1, (calls cap k (calls cap j s).2).2) := by
  induction j generalizing s with
  | zero => simp [calls]
  | succ j ih =>
    rw [Nat.succ_add]
    simp only [calls, ih, List.cons_append]

theorem calls_empty (cap k : ℕ) : calls cap k [] = (List.replicate k .nothing, []) := by
  induction k with
  | zero => rfl
  | succ k ih =>
    have hread : readText cap [] = ([], .nothing) := rfl
    simp only [calls, hread, ih, List.replicate_succ]

/-- The calls before a byte is there return nothing. -/
theorem calls_wait (cap : ℕ) (a : Arrival) (s : Script) :
    calls cap a.waits (a :: s) = (List.replicate a.waits .nothing, { a with waits := 0 } :: s) := by
  obtain ⟨w, fresh, byte⟩ := a
  induction w with
  | zero => rfl
  | succ w ih =>
    have hread : readText cap (⟨w + 1, fresh, byte⟩ :: s) = (⟨w, fresh, byte⟩ :: s, .nothing) :=
      readText_waits (by simp) s
    simp only [calls, hread, List.replicate_succ]
    simp only at ih
    rw [ih]

theorem filterMap_nothing (k : ℕ) : (List.replicate k Reply.nothing).filterMap Reply.payload = [] := by
  induction k with
  | zero => rfl
  | succ k ih => rw [List.replicate_succ, List.filterMap_cons, ih]; rfl

/-- A frame at the front of what arrives. -/
theorem split_frame {f : Frame} {fs : List Frame} {s : Script}
    (h : s.map Arrival.byte = (f :: fs).flatMap Frame.encode) : ∃ (a b : Arrival) (body rest : Script),
      s = a :: b :: (body ++ rest) ∧ (a :: b :: body).map Arrival.byte = f.encode ∧
        rest.map Arrival.byte = fs.flatMap Frame.encode ∧
        pieces (f :: fs) s = (f, a :: b :: body) :: pieces fs rest := by
  rw [List.flatMap_cons] at h
  obtain ⟨p, rest, rfl, hp, hrest⟩ := List.map_eq_append_iff.1 h
  have hlen : p.length = f.encode.length := by
    rw [← hp, List.length_map]
  cases p with
  | nil => exact absurd hlen (by simp [Frame.encode])
  | cons a p =>
    cases p with
    | nil => exact absurd hlen (by simp [Frame.encode])
    | cons b body =>
      refine ⟨a, b, body, rest, rfl, hp, hrest, ?_⟩
      rw [pieces, ← hlen, List.take_left, List.drop_left]

/-- The calls that one frame takes. -/
theorem frame_calls {f : Frame} (hf : f.Conforms) (hcap : f.payload.length < cap) {a b : Arrival} {body : Script}
    (hbytes : (a :: b :: body).map Arrival.byte = f.encode) (hb : b.joined = true)
    (hbare : f.isText = false → f.behind = []) (rest : Script) :
    ((f.isText = true → Flowing body) → calls cap (a.waits + 1) (a :: b :: (body ++ rest)) =
      (List.replicate a.waits .nothing ++ [if f.isText then .text f.payload else .nothing], rest)) ∧
    (f.isText = true → ¬Flowing body →
      ∃ r ∈ (calls cap (a.waits + 1) (a :: b :: (body ++ rest))).1, r.isFailure = true) := by
  have hbytes' : ({ a with waits := 0 } :: b :: body : Script).map Arrival.byte = f.encode := hbytes
  obtain ⟨htext, hdry, hping⟩ := @readText_frame cap body rest f hf hcap { a with waits := 0 } b hbytes' rfl hb
  rw [calls_add, calls_wait]
  refine ⟨fun hflow => ?_, fun htrue hno => ⟨_, List.mem_append_right _ (List.mem_cons_self ..), hdry htrue hno⟩⟩
  cases hkind : f.isText with
  | true => simp [calls, htext hkind (hflow hkind)]
  | false =>
    have hnil : body = [] := by
      simp only [List.map_cons, Frame.encode, List.cons.injEq, hbare hkind] at hbytes
      exact List.map_eq_nil_iff.1 hbytes.2.2
    subst hnil
    simp only [List.nil_append] at hping ⊢
    simp [calls, hping hkind]

theorem replies_alive (k : ℕ) (f : Frame) : ∀ r ∈ List.replicate k Reply.nothing ++
    [if f.isText then .text f.payload else .nothing], r.isFailure = false := by
  intro r hr
  cases List.mem_append.1 hr with
  | inl hmem =>
    rw [List.eq_of_mem_replicate hmem]
    rfl
  | inr hmem =>
    rw [List.mem_singleton.1 hmem]
    split <;> rfl

theorem replies_texts (k : ℕ) (f : Frame) : (List.replicate k Reply.nothing ++
    [if f.isText then Reply.text f.payload else .nothing]).filterMap Reply.payload = Frame.texts [f] := by
  rw [List.filterMap_append, filterMap_nothing, List.nil_append]
  cases hkind : f.isText with
  | true =>
    simp only [if_true, Frame.texts, List.filter_cons_of_pos hkind, List.filter_nil, List.map_cons, List.map_nil]
    rfl
  | false =>
    simp only [Bool.false_eq_true, if_false, Frame.texts, List.filter_cons, hkind, List.filter_nil, List.map_nil]
    rfl

theorem texts_cons (f : Frame) (fs : List Frame) : Frame.texts (f :: fs) = Frame.texts [f] ++ Frame.texts fs := by
  unfold Frame.texts
  rw [List.filter_cons, List.filter_cons]
  split <;> simp

/-- Enough calls read everything, one frame after another. -/
theorem calls_frames {frames : List Frame} (hf : ∀ f ∈ frames, f.Conforms)
    (hcap : ∀ f ∈ frames, f.payload.length < cap) {s : Script} (hs : s.map Arrival.byte = frames.flatMap Frame.encode)
    (hbare : Bare frames) (hwhole : Whole frames s) (hsteady : Steady frames s) :
    ∃ k, (calls cap k s).2 = [] ∧ (∀ r ∈ (calls cap k s).1, r.isFailure = false) ∧
      (calls cap k s).1.filterMap Reply.payload = Frame.texts frames := by
  induction frames generalizing s with
  | nil =>
    obtain rfl : s = [] := List.map_eq_nil_iff.1 hs
    exact ⟨0, rfl, by simp [calls], rfl⟩
  | cons f fs ih =>
    obtain ⟨a, b, body, rest, rfl, hbytes, hrest, hpieces⟩ := split_frame hs
    unfold Whole at hwhole
    unfold Steady at hsteady
    rw [hpieces] at hwhole hsteady
    obtain ⟨hfirst, hwhole⟩ := List.forall_mem_cons.1 hwhole
    obtain ⟨hflow, hsteady⟩ := List.forall_mem_cons.1 hsteady
    obtain ⟨hconf, hf⟩ := List.forall_mem_cons.1 hf
    obtain ⟨hroom, hcap⟩ := List.forall_mem_cons.1 hcap
    obtain ⟨hown, hbare⟩ := List.forall_mem_cons.1 hbare
    obtain ⟨k, hend, halive, htexts⟩ := ih hf hcap hrest hbare hwhole hsteady
    have hcalls := (frame_calls hconf hroom hbytes (hfirst b rfl) hown rest).1 hflow
    refine ⟨a.waits + 1 + k, ?_, ?_, ?_⟩ <;> rw [calls_add, hcalls]
    · exact hend
    · intro r hr
      cases List.mem_append.1 hr with
      | inl hmem => exact replies_alive a.waits f r hmem
      | inr hmem => exact halive r hmem
    · rw [List.filterMap_append, replies_texts, htexts, ← texts_cons]

/-- Nothing changes any more once everything is read. -/
theorem delivers_of_calls {frames : List Frame} {s : Script} {k : ℕ} (hend : (calls cap k s).2 = [])
    (halive : ∀ r ∈ (calls cap k s).1, r.isFailure = false)
    (htexts : (calls cap k s).1.filterMap Reply.payload = Frame.texts frames) : Delivers cap frames s := by
  have hsplit : ∀ j, (∃ l, (calls cap k s).1 = (calls cap j s).1 ++ l) ∨
      ∃ n, (calls cap j s).1 = (calls cap k s).1 ++ List.replicate n .nothing := by
    intro j
    obtain hle | hle := Nat.le_total j k
    · obtain ⟨n, rfl⟩ := Nat.exists_eq_add_of_le hle
      exact Or.inl ⟨_, by rw [calls_add]⟩
    · obtain ⟨n, rfl⟩ := Nat.exists_eq_add_of_le hle
      refine Or.inr ⟨n, ?_⟩
      rw [calls_add, hend, calls_empty]
  refine ⟨fun j r hr => ?_, fun j => ?_, k, htexts⟩
  · obtain ⟨l, hl⟩ | ⟨n, hn⟩ := hsplit j
    · exact halive r (by rw [hl]; exact List.mem_append_left _ hr)
    · rw [hn] at hr
      cases List.mem_append.1 hr with
      | inl hmem => exact halive r hmem
      | inr hmem =>
        rw [List.eq_of_mem_replicate hmem]
        rfl
  · obtain ⟨l, hl⟩ | ⟨n, hn⟩ := hsplit j
    · rw [hl, List.filterMap_append] at htexts
      exact ⟨_, htexts⟩
    · rw [hn, List.filterMap_append, filterMap_nothing, List.append_nil, htexts]

/-- A text that runs dry ends the connection. -/
theorem steady_of_alive {frames : List Frame} (hf : ∀ f ∈ frames, f.Conforms)
    (hcap : ∀ f ∈ frames, f.payload.length < cap) {s : Script} (hs : s.map Arrival.byte = frames.flatMap Frame.encode)
    (hbare : Bare frames) (hwhole : Whole frames s) (halive : ∀ k, ∀ r ∈ (calls cap k s).1, r.isFailure = false) :
    Steady frames s := by
  induction frames generalizing s with
  | nil => exact fun p hp => absurd hp List.not_mem_nil
  | cons f fs ih =>
    obtain ⟨a, b, body, rest, rfl, hbytes, hrest, hpieces⟩ := split_frame hs
    unfold Whole at hwhole
    unfold Steady
    rw [hpieces] at hwhole ⊢
    obtain ⟨hfirst, hwhole⟩ := List.forall_mem_cons.1 hwhole
    obtain ⟨hconf, hf⟩ := List.forall_mem_cons.1 hf
    obtain ⟨hroom, hcap⟩ := List.forall_mem_cons.1 hcap
    obtain ⟨hown, hbare⟩ := List.forall_mem_cons.1 hbare
    obtain ⟨hgood, hbad⟩ := frame_calls hconf hroom hbytes (hfirst b rfl) hown rest
    have hflow : f.isText = true → Flowing body := by
      intro hkind
      by_contra hno
      obtain ⟨r, hr, hfail⟩ := hbad hkind hno
      exact Bool.noConfusion (hfail.symm.trans (halive _ r hr))
    refine List.forall_mem_cons.2 ⟨hflow, ih hf hcap hrest hbare hwhole fun k r hr => ?_⟩
    refine halive (a.waits + 1 + k) r ?_
    rw [calls_add, hgood hflow]
    exact List.mem_append_right _ hr

end Calls

/-! ## The writer -/

/-- What a call of `send` comes to. -/
inductive Send where
  /-- Some bytes are taken, one at least. -/
  | takes (more : ℕ)
  | interrupted
  /-- The socket would block, or fails. -/
  | refuses
  deriving DecidableEq

structure Sent where
  left : List Send
  wire : List Byte
  done : Bool

/-- `send_all`; a socket without further answers takes what is left. -/
def sendAll : List Send → List Byte → Sent
  | rs, [] => ⟨rs, [], true⟩
  | [], bs => ⟨[], bs, true⟩
  | .takes n :: rs, bs =>
    let q := sendAll rs (bs.drop (n + 1))
    ⟨q.left, bs.take (n + 1) ++ q.wire, q.done⟩
  | .interrupted :: rs, bs => sendAll rs bs
  | .refuses :: rs, _ => ⟨rs, [], false⟩

/-- `rnet_ws_write_text`, with the answers of the socket and whether `malloc` finds room for a masked copy. -/
def writeText (mask : Option Mask) (room : Bool) (rs : List Send) (text : List Byte) : Sent :=
  let payload := text.takeWhile (· ≠ 0)
  if payload.length ≥ 65536 then ⟨rs, [], false⟩
  else if mask.isSome && !room then ⟨rs, [], false⟩
  else
    let header := [0x81, Frame.lengthByte mask.isSome payload.length] ++ Frame.extension payload.length ++
      Frame.keyBytes mask
    let h := sendAll rs header
    if !h.done then h
    else
      let q := sendAll h.left (Frame.masked mask payload)
      ⟨q.left, h.wire ++ q.wire, q.done⟩

theorem sendAll_done (rs : List Send) (bs : List Byte) : (sendAll rs bs).wire <+: bs ∧
    ((sendAll rs bs).done = true → (sendAll rs bs).wire = bs) ∧
    (.refuses ∉ rs → (sendAll rs bs).done = true ∧ .refuses ∉ (sendAll rs bs).left) := by
  induction rs generalizing bs with
  | nil =>
    cases bs with
    | nil => exact ⟨List.prefix_refl _, fun _ => rfl, fun h => ⟨rfl, h⟩⟩
    | cons b bs => exact ⟨List.prefix_refl _, fun _ => rfl, fun h => ⟨rfl, h⟩⟩
  | cons r rs ih =>
    cases bs with
    | nil => exact ⟨List.prefix_refl _, fun _ => rfl, fun h => ⟨rfl, h⟩⟩
    | cons b bs =>
      cases r with
      | takes n =>
        obtain ⟨hpre, hdone, hgo⟩ := ih ((b :: bs).drop (n + 1))
        refine ⟨?_, fun h => ?_, fun h => hgo fun hmem => h (List.mem_cons_of_mem _ hmem)⟩
        · have hall := (List.prefix_append_right_inj ((b :: bs).take (n + 1))).2 hpre
          rwa [List.take_append_drop] at hall
        · have hwire := hdone h
          show (b :: bs).take (n + 1) ++ (sendAll rs ((b :: bs).drop (n + 1))).wire = b :: bs
          rw [hwire, List.take_append_drop]
      | interrupted =>
        obtain ⟨hpre, hdone, hgo⟩ := ih (b :: bs)
        exact ⟨hpre, hdone, fun h => hgo fun hmem => h (List.mem_cons_of_mem _ hmem)⟩
      | refuses =>
        exact ⟨List.nil_prefix, fun h => absurd h (by simp [sendAll]), fun h => absurd (List.mem_cons_self ..) h⟩

/-- A frame is on the wire whole once the call succeeds, and it does where the socket refuses nothing. -/
theorem writeText_frame {mask : Option Mask} {text : List Byte} (rs : List Send) (hlen : text.length < 65536)
    (hzero : 0 ∉ text) : ((writeText mask true rs text).done = true →
      (writeText mask true rs text).wire = (Frame.text mask text).encode) ∧
      (.refuses ∉ rs → (writeText mask true rs text).done = true) := by
  have hall : text.takeWhile (· ≠ 0) = text := by
    have happ := @List.takeWhile_append_of_pos Byte (fun b => b ≠ 0) text [] fun b hb =>
      decide_eq_true fun h0 : b = 0 => hzero (h0 ▸ hb)
    simpa using happ
  have hwords : (Frame.text mask text).encode = ([0x81, Frame.lengthByte mask.isSome text.length] ++
      Frame.extension text.length ++ Frame.keyBytes mask) ++ Frame.masked mask text := by
    simp [Frame.encode, Frame.behind, Frame.opcode, Frame.payload, Frame.mask]
  unfold writeText
  rw [hall]
  dsimp only
  rw [if_neg (by omega), Bool.not_true, Bool.and_false, if_neg (by simp), hwords]
  generalize [0x81, Frame.lengthByte mask.isSome text.length] ++ Frame.extension text.length ++ Frame.keyBytes mask = header
  obtain ⟨-, hheader, hgo⟩ := sendAll_done rs header
  generalize sendAll rs header = h at hheader hgo
  split
  · next hno =>
    simp only [Bool.not_eq_true'] at hno
    exact ⟨fun hyes => absurd (hno.symm.trans hyes) (by simp), fun hr => absurd (hno.symm.trans (hgo hr).1) (by simp)⟩
  · next hyes =>
    simp only [Bool.not_eq_true', Bool.not_eq_false] at hyes
    obtain ⟨-, hbody, hgo'⟩ := sendAll_done h.left (Frame.masked mask text)
    refine ⟨fun hdone => ?_, fun hr => (hgo' (hgo hr).2).1⟩
    dsimp only at hdone ⊢
    rw [hheader hyes, hbody hdone]

/-- Frames of a conforming peer reach the caller as they were sent where every ping is its two first bytes, these
come together for each frame, and no text runs dry behind them; if only the last is in doubt it is what decides. A
text that is written to a socket which refuses nothing comes back the same. -/
theorem frames_delivered (cap : ℕ) :
    (∀ frames s, (∀ f ∈ frames, f.Conforms) → (∀ f ∈ frames, f.payload.length < cap) →
      s.map Arrival.byte = frames.flatMap Frame.encode →
        (Bare frames ∧ Whole frames s ∧ Steady frames s → Delivers cap frames s) ∧
          (Bare frames ∧ Whole frames s ∧ Delivers cap frames s → Steady frames s)) ∧
    ∀ mask text rs s, text.length < 65536 → 0 ∉ text → text.length < cap → Send.refuses ∉ rs →
      s.map Arrival.byte = (writeText mask true rs text).wire →
        Whole [.text mask text] s ∧ Steady [.text mask text] s → Delivers cap [.text mask text] s := by
  have hread : ∀ frames s, (∀ f ∈ frames, f.Conforms) → (∀ f ∈ frames, f.payload.length < cap) →
      s.map Arrival.byte = frames.flatMap Frame.encode → Bare frames → Whole frames s → Steady frames s →
        Delivers cap frames s := by
    intro frames s hf hcap hs hbare hwhole hsteady
    obtain ⟨k, hend, halive, htexts⟩ := calls_frames hf hcap hs hbare hwhole hsteady
    exact delivers_of_calls hend halive htexts
  refine ⟨fun frames s hf hcap hs => ⟨fun h => hread frames s hf hcap hs h.1 h.2.1 h.2.2, fun h => ?_⟩,
    fun mask text rs s hlen hzero hcap hrs hs h => ?_⟩
  · exact steady_of_alive hf hcap hs h.1 h.2.1 h.2.2.alive
  · obtain ⟨hwire, hdone⟩ := @writeText_frame mask text rs hlen hzero
    refine hread _ s (List.forall_mem_singleton.2 hlen) (List.forall_mem_singleton.2 hcap) ?_ ?_ h.1 h.2
    · rw [hs, hwire (hdone hrs), List.flatMap_singleton]
    · exact List.forall_mem_singleton.2 fun hkind => absurd hkind (by simp [Frame.isText])

def greeting : Frame := .text none [0x68, 0x69]

/-- Two masked texts with a bare ping between them. -/
def chat : List Frame :=
  [.text (some ⟨[1, 2, 3, 4], rfl⟩) [0x68, 0x69], .ping none [], .text (some ⟨[5, 6, 7, 8], rfl⟩) [0x6F, 0x6B, 0x21]]

/-- Each frame after one read that finds nothing, in results of three bytes. -/
def cutChat : Script := chat.flatMap fun f => f.encode.mapIdx fun i b => ⟨if i = 0 then 1 else 0, decide (i % 3 = 0), b⟩

/-- A text written in two sends, as it arrives. -/
def sentScript : Script :=
  (writeText (some ⟨[1, 2, 3, 4], rfl⟩) true [.takes 3] [0x68, 0x69]).wire.map fun b => ⟨0, false, b⟩

theorem frames_delivered_chat : Delivers 16 chat cutChat ∧
    Delivers 16 [.text (some ⟨[1, 2, 3, 4], rfl⟩) [0x68, 0x69]] sentScript := by
  refine ⟨((frames_delivered 16).1 chat cutChat ?_ ?_ (by decide)).1 ⟨?_, ?_, ?_⟩,
    (frames_delivered 16).2 _ _ [.takes 3] sentScript (by decide) (by decide) (by decide) (by decide) (by decide)
      ⟨?_, ?_⟩⟩
  · exact List.forall_mem_cons.2 ⟨(by decide : 2 < 65536), List.forall_mem_cons.2 ⟨(by decide : 0 ≤ 125),
      List.forall_mem_singleton.2 (by decide : 3 < 65536)⟩⟩
  · decide
  · unfold Bare
    decide
  · unfold Whole
    decide
  · unfold Steady
    decide
  · unfold Whole
    decide
  · unfold Steady
    decide

/-- A ping with one byte of payload, then the greeting, all in one result. -/
def pinged : List Frame := [.ping none [0x78], greeting]

def pingedScript : Script := (pinged.flatMap Frame.encode).map fun b => ⟨0, false, b⟩

/-- The payload is read as the head of the next frame, a close. -/
theorem ping_desynchronises : pingedScript.map Arrival.byte = pinged.flatMap Frame.encode ∧
    ¬Delivers 16 pinged pingedScript := by
  refine ⟨by decide, fun h => ?_⟩
  have hfails : .failed true ∈ (calls 16 2 pingedScript).1 := by decide
  exact absurd (h.alive 2 _ hfails) (by decide)

end PsxRecomp.Lobby
