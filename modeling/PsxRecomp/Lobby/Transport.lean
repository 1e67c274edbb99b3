import Mathlib

/-! The stream socket below a reader: the bytes of the peer, each with the attempts to read that find nothing
before it arrives, and whether it arrives with the byte before. -/
namespace PsxRecomp.Lobby
set_option autoImplicit false

abbrev Byte := BitVec 8

structure Arrival where
  /-- The reads that would block before the byte is there. -/
  waits : ℕ
  /-- It starts a result of `recv` although it is there. -/
  fresh : Bool
  byte : Byte
  deriving DecidableEq

abbrev Script := List Arrival

/-- Whether a byte comes in one result with the byte before. -/
def Arrival.joined (a : Arrival) : Bool := a.waits = 0 && !a.fresh

/-- A read that finds nothing. -/
def attempt : Script → Script
  | [] => []
  | a :: s => { a with waits := a.waits - 1 } :: s

/-- `recv` of some bytes, `none` if it would block. -/
def recv (n : ℕ) (s : Script) : Script × Option (List Byte) :=
  match s with
  | [] => ([], none)
  | a :: rest =>
    if a.waits ≠ 0 then (attempt s, none)
    else
      let more := (rest.takeWhile Arrival.joined).take (n - 1)
      (rest.drop more.length, some (a.byte :: more.map Arrival.byte))

/-- `recv` with `MSG_WAITALL` on a socket that does not block: what is there, up to the size asked for. -/
def recvAll (n : ℕ) (s : Script) : Script × List Byte :=
  let got := (s.takeWhile fun a => a.waits = 0).take n
  if got = [] then (attempt s, []) else (s.drop got.length, got.map Arrival.byte)

/-- Bytes without a wait before any. -/
def Flowing (s : Script) : Prop := ∀ a ∈ s, a.waits = 0

instance (s : Script) : Decidable (Flowing s) := inferInstanceAs (Decidable (∀ a ∈ s, a.waits = 0))

section Reads

variable {s rest : Script}

theorem takeWhile_flowing (h : Flowing s) (rest : Script) :
    (s ++ rest).takeWhile (fun a => a.waits = 0) = s ++ rest.takeWhile fun a => a.waits = 0 := by
  rw [List.takeWhile_append_of_pos]
  exact fun a ha => decide_eq_true (h a ha)

/-- Flowing bytes are read at once. -/
theorem recvAll_flowing (h : Flowing s) (hpos : s ≠ []) (rest : Script) :
    recvAll s.length (s ++ rest) = (rest, s.map Arrival.byte) := by
  have hgot : ((s ++ rest).takeWhile fun a => a.waits = 0).take s.length = s := by
    rw [takeWhile_flowing h, List.take_left]
  unfold recvAll
  simp only [hgot, if_neg hpos, List.drop_left]

/-- A wait among the bytes cuts the read short. -/
theorem recvAll_short (h : ¬Flowing s) (rest : Script) : (recvAll s.length (s ++ rest)).2.length < s.length := by
  have hshort : ((s ++ rest).takeWhile fun a => a.waits = 0).length < s.length := by
    induction s with
    | nil => exact absurd (fun a ha => absurd ha List.not_mem_nil) h
    | cons a s ih =>
      by_cases ha : a.waits = 0
      · rw [List.cons_append, List.takeWhile_cons, if_pos (decide_eq_true ha), List.length_cons, List.length_cons]
        refine Nat.succ_lt_succ (ih fun hs => h ?_)
        exact List.forall_mem_cons.2 ⟨ha, hs⟩
      · rw [List.cons_append, List.takeWhile_cons, if_neg (by simpa using ha)]
        exact Nat.succ_pos _
  unfold recvAll
  dsimp only
  split
  · exact Nat.lt_of_le_of_lt (Nat.zero_le _) hshort
  · rw [List.length_map, List.length_take]
    omega

end Reads

/-! ## A payload -/

/-- The loop that reads a payload, with what is still to come; `none` where a read finds nothing. -/
def readPayload : ℕ → ℕ → Script → Script × Option (List Byte)
  | 0, need, s => if need = 0 then (s, some []) else (s, none)
  | fuel + 1, need, s =>
    if need = 0 then (s, some [])
    else
      let r := recv need s
      match r.2 with
      | none => (r.1, none)
      | some got =>
        let q := readPayload fuel (need - got.length) r.1
        (q.1, q.2.map (got ++ ·))

/-- One `recv` inside flowing bytes. -/
theorem recv_flowing {s rest : Script} (h : Flowing s) (hpos : s ≠ []) :
    ∃ k, 0 < k ∧ k ≤ s.length ∧ recv s.length (s ++ rest) = (s.drop k ++ rest, some ((s.take k).map Arrival.byte)) := by
  cases s with
  | nil => exact absurd rfl hpos
  | cons a s =>
    have ha : ¬a.waits ≠ 0 := by simpa using h a (List.mem_cons_self ..)
    have hmore : ∃ k ≤ s.length, ((s ++ rest).takeWhile Arrival.joined).take s.length = s.take k := by
      refine ⟨(s.takeWhile Arrival.joined).length, (List.takeWhile_sublist _).length_le, ?_⟩
      rw [List.takeWhile_append]
      split
      · next hall =>
        rw [hall, List.take_left, List.take_length]
      · rw [List.take_of_length_le (List.takeWhile_sublist _).length_le]
        exact List.prefix_iff_eq_take.1 (List.takeWhile_prefix _)
    obtain ⟨k, hk, hmore⟩ := hmore
    refine ⟨k + 1, Nat.succ_pos k, Nat.succ_le_succ hk, ?_⟩
    have hlen : (s.take k).length = k := List.length_take_of_le hk
    simp only [List.cons_append, recv, if_neg ha, List.length_cons, Nat.add_sub_cancel, hmore, hlen,
      List.drop_succ_cons, List.take_succ_cons, List.map_cons, List.drop_append_of_le_length hk]

theorem readPayload_flowing {s : Script} (h : Flowing s) (rest : Script) {fuel : ℕ} (hfuel : s.length ≤ fuel) :
    readPayload fuel s.length (s ++ rest) = (rest, some (s.map Arrival.byte)) := by
  induction fuel generalizing s with
  | zero =>
    obtain rfl : s = [] := List.length_eq_zero_iff.1 (by omega)
    rfl
  | succ fuel ih =>
    unfold readPayload
    by_cases hnil : s = []
    · subst hnil
      rfl
    · have hne : s.length ≠ 0 := fun h0 => hnil (List.length_eq_zero_iff.1 h0)
      obtain ⟨k, hpos, hle, hrecv⟩ := @recv_flowing s rest h hnil
      have hdrop : Flowing (s.drop k) := fun a ha => h a (List.mem_of_mem_drop ha)
      have hrest := ih hdrop (by rw [List.length_drop]; omega)
      rw [List.length_drop] at hrest
      rw [if_neg hne, hrecv]
      simp only [List.length_map, List.length_take_of_le hle, hrest, Option.map_some, ← List.map_append,
        List.take_append_drop]

/-- A wait among the bytes ends the loop. -/
theorem readPayload_stuck {s : Script} (h : ¬Flowing s) (rest : Script) (fuel : ℕ) :
    (readPayload fuel s.length (s ++ rest)).2 = none := by
  induction fuel generalizing s with
  | zero =>
    have hne : s.length ≠ 0 := fun h0 => h (by rw [List.length_eq_zero_iff.1 h0]; exact fun a ha => absurd ha List.not_mem_nil)
    unfold readPayload
    rw [if_neg hne]
  | succ fuel ih =>
    cases s with
    | nil => exact absurd (fun a ha => absurd ha List.not_mem_nil) h
    | cons a s =>
      unfold readPayload
      rw [if_neg (by simp)]
      by_cases ha : a.waits = 0
      · have hs : ¬Flowing s := fun hs => h (List.forall_mem_cons.2 ⟨ha, hs⟩)
        -- what one read takes stops before the first wait
        have hmore : ∃ k ≤ s.length, ((s ++ rest).takeWhile Arrival.joined).take s.length = s.take k ∧
            ¬Flowing (s.drop k) := by
          clear ih ha h
          induction s with
          | nil => exact absurd (fun a ha => absurd ha List.not_mem_nil) hs
          | cons b s ih =>
            by_cases hb : b.joined = true
            · have hwait : b.waits = 0 := by
                unfold Arrival.joined at hb
                exact of_decide_eq_true (Bool.and_eq_true_iff.1 hb).1
              obtain ⟨k, hk, htake, hdrop⟩ := ih fun hs' => hs (List.forall_mem_cons.2 ⟨hwait, hs'⟩)
              refine ⟨k + 1, Nat.succ_le_succ hk, ?_, hdrop⟩
              rw [List.cons_append, List.takeWhile_cons, if_pos hb, List.length_cons, List.take_succ_cons, htake,
                List.take_succ_cons]
            · refine ⟨0, Nat.zero_le _, ?_, hs⟩
              rw [List.cons_append, List.takeWhile_cons, if_neg hb, List.take_nil, List.take_zero]
        obtain ⟨k, hk, htake, hdrop⟩ := hmore
        have hlen : (s.take k).length = k := List.length_take_of_le hk
        have hrest := ih hdrop
        rw [List.length_drop] at hrest
        simp only [List.cons_append, recv, ha, ne_eq, not_true_eq_false, if_false, List.length_cons, Nat.add_sub_cancel,
          htake, hlen, List.length_map, List.drop_append_of_le_length hk]
        rw [show s.length + 1 - (k + 1) = s.length - k by omega, hrest]
        rfl
      · simp only [List.cons_append, recv, ne_eq, ha, not_false_eq_true, if_true]

end PsxRecomp.Lobby
