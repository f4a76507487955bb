import Cppvless.Vless.Protocol
import Mathlib.Algebra.GroupWithZero.Nat

set_option autoImplicit false

/-! # Length-prefixed frames

A datagram travels over a stream as its length in two bytes and its bytes. Streams of frames can be
cut in one way only, so a receiver that takes whole frames off the front and keeps the rest has got
the datagrams that were framed. -/

namespace Cppvless

/-- A datagram behind its length. -/
def frame (payload : Bytes) : Bytes := beBytes payload.length ++ payload

def frames (payloads : List Bytes) : Bytes := payloads.flatMap frame

/-- No whole frame at the front. -/
def Incomplete (rest : Bytes) : Prop :=
  rest.length < 2 ∨ rest.length < 2 + (beUInt16 (rest.getD 0 0) (rest.getD 1 0)).toNat

@[simp] theorem frame_length (payload : Bytes) : (frame payload).length = 2 + payload.length := by
  simp [frame, beBytes]
  omega

@[simp] theorem frames_nil : frames [] = [] := rfl

@[simp] theorem frames_cons (d : Bytes) (ds : List Bytes) : frames (d :: ds) = frame d ++ frames ds := rfl

@[simp] theorem frames_append (ds ds' : List Bytes) : frames (ds ++ ds') = frames ds ++ frames ds' := by
  simp [frames]

/-- The length a frame starts with. -/
theorem frame_getD {d : Bytes} (hd : d.length < 65536) (rest : Bytes) :
    (beUInt16 ((frame d ++ rest).getD 0 0) ((frame d ++ rest).getD 1 0)).toNat = d.length :=
  beUInt16_beBytes hd

/-- A frame at the front is taken off as it was put there. -/
theorem eq_frame_append {rest : Bytes} (h : ¬ Incomplete rest) :
    rest = frame ((rest.drop 2).take (beUInt16 (rest.getD 0 0) (rest.getD 1 0)).toNat) ++
      rest.drop (2 + (beUInt16 (rest.getD 0 0) (rest.getD 1 0)).toNat) := by
  unfold Incomplete at h
  match rest with
  | [] => simp at h
  | [_] => simp at h
  | hi :: lo :: body =>
      simp only [List.length_cons, List.getD_cons_zero, List.getD_cons_succ] at h ⊢
      have hlen : (body.take (beUInt16 hi lo).toNat).length = (beUInt16 hi lo).toNat := by
        rw [List.length_take]
        omega
      have hdrop : (hi :: lo :: body).drop (2 + (beUInt16 hi lo).toNat) =
          body.drop (beUInt16 hi lo).toNat := by
        rw [Nat.add_comm]
        rfl
      rw [hdrop, frame, show (hi :: lo :: body).drop 2 = body from rfl, hlen, beBytes_beUInt16]
      simp

/-- A whole frame at the front holds a datagram. -/
theorem exists_frame_append {rest : Bytes} (h : ¬ Incomplete rest) :
    ∃ (d more : Bytes), d.length < 65536 ∧ rest = frame d ++ more := by
  refine ⟨_, _, ?_, eq_frame_append h⟩
  have hlen := UInt16.toNat_lt (beUInt16 (rest.getD 0 0) (rest.getD 1 0))
  rw [List.length_take]
  omega

theorem incomplete_frame_append {d : Bytes} (hd : d.length < 65536) (rest : Bytes) :
    ¬ Incomplete (frame d ++ rest) := by
  unfold Incomplete
  rw [frame_getD hd, List.length_append, frame_length]
  omega

/-- Two streams of frames, one of which goes on, agree on their common frames. -/
theorem frames_eq_append {ds ds' : List Bytes} {rest : Bytes} (hds : ∀ d ∈ ds, d.length < 65536)
    (hds' : ∀ d ∈ ds', d.length < 65536) (h : frames ds = frames ds' ++ rest) :
    ∃ more, ds = ds' ++ more ∧ rest = frames more := by
  induction ds' generalizing ds with
  | nil => exact ⟨ds, rfl, h.symm⟩
  | cons d' ds' ih =>
      cases ds with
      | nil => simp [frame, beBytes] at h
      | cons d ds =>
          have hd := hds d (by simp)
          have hd' := hds' d' (by simp)
          rw [frames_cons, frames_cons, List.append_assoc] at h
          have hlen : d.length = d'.length := by
            rw [← frame_getD hd (frames ds), h, frame_getD hd']
          obtain ⟨hframe, hrest⟩ := List.append_inj h (by simp [hlen])
          have heq : d = d' := (List.append_inj hframe (by simp [hlen, beBytes])).2
          obtain ⟨more, hmore, hmore'⟩ := ih (fun x hx => hds x (by simp [hx]))
            (fun x hx => hds' x (by simp [hx])) hrest
          exact ⟨more, by rw [heq, hmore, List.cons_append], hmore'⟩

/-- What comes after some frames of a stream is incomplete only if there are no more. -/
theorem frames_eq_of_incomplete {ds ds' : List Bytes} {rest : Bytes}
    (hds : ∀ d ∈ ds, d.length < 65536) (hds' : ∀ d ∈ ds', d.length < 65536)
    (h : frames ds = frames ds' ++ rest) (hrest : Incomplete rest) : ds = ds' := by
  obtain ⟨more, hmore, hframes⟩ := frames_eq_append hds hds' h
  cases more with
  | nil => rw [hmore, List.append_nil]
  | cons d more =>
      rw [hframes, frames_cons] at hrest
      exact absurd hrest (incomplete_frame_append (hds d (by simp [hmore])) _)

/-! ## The frames of one piece -/

instance (data : Bytes) : Decidable (Incomplete data) := inferInstanceAs (Decidable (_ ∨ _))

/-- The datagrams of the whole frames at the front. -/
def wholeFrames (data : Bytes) : List Bytes :=
  if Incomplete data then
    []
  else
    let len := (beUInt16 (data.getD 0 0) (data.getD 1 0)).toNat
    (data.drop 2).take len :: wholeFrames (data.drop (2 + len))
termination_by data.length
decreasing_by
  next h =>
    unfold Incomplete at h
    simp only [List.length_drop]
    omega

/-- What is behind them. -/
def leftover (data : Bytes) : Bytes := data.drop (frames (wholeFrames data)).length

theorem wholeFrames_of_incomplete {data : Bytes} (h : Incomplete data) : wholeFrames data = [] := by
  rw [wholeFrames, if_pos h]

theorem wholeFrames_frame_append {d : Bytes} (hd : d.length < 65536) (rest : Bytes) :
    wholeFrames (frame d ++ rest) = d :: wholeFrames rest := by
  have hlen := frame_getD hd rest
  rw [wholeFrames, if_neg (incomplete_frame_append hd rest)]
  simp only [hlen]
  congr 1
  · simp [frame, beBytes]
  · congr 1
    exact List.drop_left' (frame_length d)

/-- Whole frames are cut off as they were put there. -/
theorem wholeFrames_frames_append {ds : List Bytes} (hds : ∀ d ∈ ds, d.length < 65536) (rest : Bytes) :
    wholeFrames (frames ds ++ rest) = ds ++ wholeFrames rest := by
  induction ds with
  | nil => rfl
  | cons d ds ih =>
      rw [frames_cons, List.append_assoc, wholeFrames_frame_append (hds d (by simp)),
        ih fun d' hd' => hds d' (by simp [hd'])]
      rfl

theorem wholeFrames_frames {ds : List Bytes} (hds : ∀ d ∈ ds, d.length < 65536) :
    wholeFrames (frames ds) = ds := by
  have h := wholeFrames_frames_append hds []
  have hnil : wholeFrames [] = [] := wholeFrames_of_incomplete (.inl Nat.two_pos)
  rwa [List.append_nil, hnil, List.append_nil] at h

theorem frames_wholeFrames (data : Bytes) :
    frames (wholeFrames data) ++ leftover data = data ∧ ∀ d ∈ wholeFrames data, d.length < 65536 := by
  induction hn : data.length using Nat.strongRecOn generalizing data with
  | ind n ih =>
      by_cases h : Incomplete data
      · simp [leftover, wholeFrames_of_incomplete h]
      · obtain ⟨d, rest, hd, rfl⟩ := exists_frame_append h
        obtain ⟨hrest, hall⟩ := ih rest.length (by rw [← hn, List.length_append, frame_length]; omega) rest rfl
        rw [wholeFrames_frame_append hd]
        refine ⟨?_, ?_⟩
        · have hleft : leftover (frame d ++ rest) = leftover rest := by
            unfold leftover
            rw [wholeFrames_frame_append hd, frames_cons, List.length_append, ← List.drop_drop,
              List.drop_left]
          rw [hleft, frames_cons, List.append_assoc, hrest]
        · intro d' hd'
          rcases List.mem_cons.1 hd' with rfl | hd'
          · exact hd
          · exact hall d' hd'

/-- Nothing is left over exactly if the piece is a sequence of frames. -/
theorem leftover_eq_nil_iff {data : Bytes} :
    leftover data = [] ↔ ∃ ds, (∀ d ∈ ds, d.length < 65536) ∧ data = frames ds := by
  obtain ⟨hframes, hall⟩ := frames_wholeFrames data
  constructor
  · intro h
    rw [h, List.append_nil] at hframes
    exact ⟨_, hall, hframes.symm⟩
  · rintro ⟨ds, hds, rfl⟩
    rw [leftover, wholeFrames_frames hds, List.drop_length]

/-- Streams of frames are equal only if their frames are. -/
theorem frames_injective {ds ds' : List Bytes} (hds : ∀ d ∈ ds, d.length < 65536)
    (hds' : ∀ d ∈ ds', d.length < 65536) (h : frames ds = frames ds') : ds = ds' := by
  rw [← List.append_nil (frames ds')] at h
  exact frames_eq_of_incomplete hds hds' h (.inl Nat.two_pos)

/-- The lengths of all frames of a stream and of those found piece by piece. -/
theorem frames_length_flatMap (cs : List Bytes) :
    (frames (cs.flatMap wholeFrames)).length + (cs.map fun c => (leftover c).length).sum =
      cs.flatten.length := by
  induction cs with
  | nil => rfl
  | cons c cs ih =>
      have hc := congrArg List.length (frames_wholeFrames c).1
      rw [List.length_append] at hc
      rw [List.flatMap_cons, frames_append, List.length_append, List.map_cons, List.sum_cons,
        List.flatten_cons, List.length_append]
      omega

theorem frames_length_filter (ds : List Bytes) (p : Bytes → Bool) :
    (frames (ds.filter p)).length + ((ds.filter fun d => !p d).map fun d => (frame d).length).sum =
      (frames ds).length := by
  induction ds with
  | nil => rfl
  | cons d ds ih =>
      cases hp : p d with
      | true => simp [hp] at ih ⊢; omega
      | false => simp [hp] at ih ⊢; omega

/-- **A stream of non-empty datagrams is taken apart piece by piece exactly if no piece ends within a
    frame.** -/
theorem flatMap_wholeFrames_eq_iff {ds cs : List Bytes} (hds : ∀ d ∈ ds, d ≠ [] ∧ d.length < 65536)
    (hcs : cs.flatten = frames ds) :
    (cs.flatMap fun c => (wholeFrames c).filter (· ≠ [])) = ds ↔ ∀ c ∈ cs, leftover c = [] := by
  have hfilter : (cs.flatMap fun c => (wholeFrames c).filter (· ≠ [])) =
      (cs.flatMap wholeFrames).filter (· ≠ []) := by
    rw [List.filter_flatMap]
  have hlen := frames_length_flatMap cs
  rw [hfilter]
  constructor
  · intro h c hc
    -- every byte is in the frame of a datagram that was found
    have hpart := frames_length_filter (cs.flatMap wholeFrames) (· ≠ [])
    rw [h] at hpart
    rw [hcs] at hlen
    have hsum : (cs.map fun c => (leftover c).length).sum = 0 := by omega
    exact List.length_eq_zero_iff.1 (List.sum_eq_zero_iff_forall_eq_nat.1 hsum _ (List.mem_map.2 ⟨c, hc, rfl⟩))
  · intro h
    have hwhole : frames (cs.flatMap wholeFrames) = frames ds := by
      rw [← hcs]
      clear hcs hlen hfilter
      induction cs with
      | nil => rfl
      | cons c cs ih =>
          have hc := (frames_wholeFrames c).1
          rw [h c (by simp), List.append_nil] at hc
          rw [List.flatMap_cons, frames_append, hc, ih fun c' hc' => h c' (by simp [hc']), List.flatten_cons]
    have heq : cs.flatMap wholeFrames = ds := by
      refine frames_injective ?_ (fun d hd => (hds d hd).2) hwhole
      intro d hd
      obtain ⟨c, -, hd⟩ := List.mem_flatMap.1 hd
      exact (frames_wholeFrames c).2 d hd
    rw [heq]
    exact List.filter_eq_self.2 fun d hd => by simpa using (hds d hd).1

end Cppvless
