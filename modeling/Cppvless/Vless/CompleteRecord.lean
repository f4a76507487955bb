import Cppvless.Vless.VisionWriter

set_option autoImplicit false

/-! # The complete records that end the padding

`VisionWriter::isCompleteRecord` with its position in the data, every access checked: `RecordScan`.
What carries the argument is that the rest of the data decides (`RecordScan.round_spec`): at a
position, with the two counters, the loop answers what `VisionWriter.isCompleteRecordLoop` says of
the data behind the position. On that function the records are read off one by one. -/

namespace Cppvless

/-- A concatenation of TLS records of application data, none of them empty. -/
inductive ApplicationRecords : Bytes → Prop
  | nil : ApplicationRecords []
  | record {payload rest : Bytes} (hi lo : UInt8)
      (hlength : payload.length = 256 * hi.toNat + lo.toNat) (hpos : 1 ≤ payload.length)
      (hrest : ApplicationRecords rest) :
      ApplicationRecords (0x17 :: 0x03 :: 0x03 :: hi :: lo :: (payload ++ rest))

/-- The variables of the loop. -/
structure RecordScan where
  i : Nat := 0
  headerLen : Nat := 5
  recordLen : Nat := 0
  deriving DecidableEq

namespace RecordScan

/-- A header byte: `none` if it is not that of application data. -/
def readHeader (s : RecordScan) (byte : UInt8) : Option RecordScan :=
  let next := { s with i := s.i + 1, headerLen := s.headerLen - 1 }
  match s.headerLen with
  | 5 => if byte ≠ 0x17 then none else some next
  | 4 => if byte ≠ 0x03 then none else some next
  | 3 => if byte ≠ 0x03 then none else some next
  | 2 => some { next with recordLen := byte.toNat <<< 8 }
  | 1 => some { next with recordLen := s.recordLen ||| byte.toNat }
  | _ => some next

/-- A round of the loop of `isCompleteRecord`, or what it returns. -/
def round (data : Bytes) (s : RecordScan) : Except Exn (Bool ⊕ RecordScan) :=
  if s.i < data.length then
    if 0 < s.headerLen then do
      let byte ← Bytes.index data s.i
      match s.readHeader byte with
      | none => return .inl false
      | some s => return .inr s
    else if 0 < s.recordLen then
      let remaining := data.length - s.i
      if remaining < s.recordLen then .ok (.inl false)
      else .ok (.inr { s with i := s.i + s.recordLen, recordLen := 0, headerLen := 5 })
    else .ok (.inl false)
  else .ok (.inl (s.headerLen = 5 && s.recordLen = 0))

/-- The loop, for at most that many rounds. -/
def run (data : Bytes) : Nat → RecordScan → Except Exn (Option Bool)
  | 0, _ => .ok none
  | rounds + 1, s =>
      match s.round data with
      | .error e => .error e
      | .ok (.inl b) => .ok (some b)
      | .ok (.inr s) => run data rounds s

/-- The states that the loop passes. -/
inductive Passes (data : Bytes) : RecordScan → Prop
  | start : Passes data {}
  | round {s s' : RecordScan} (h : Passes data s) (hround : s.round data = .ok (.inr s')) :
      Passes data s'

/-! ## The loop and the rest of the data -/

open VisionWriter

theorem isCompleteRecordLoop_readHeader (s : RecordScan) (byte : UInt8) (rest : Bytes)
    (h : 0 < s.headerLen) :
    isCompleteRecordLoop s.headerLen s.recordLen (byte :: rest) =
      match s.readHeader byte with
      | none => false
      | some s' => isCompleteRecordLoop s'.headerLen s'.recordLen rest := by
  obtain ⟨i, headerLen, recordLen⟩ := s
  by_cases htype : byte = 0x17 <;> by_cases hversion : byte = 0x03
  all_goals
    match headerLen, h with
    | 1, _ => simp [isCompleteRecordLoop, readHeader]
    | 2, _ => simp [isCompleteRecordLoop, readHeader]
    | 3, _ => simp [isCompleteRecordLoop, readHeader, hversion]
    | 4, _ => simp [isCompleteRecordLoop, readHeader, hversion]
    | 5, _ => simp [isCompleteRecordLoop, readHeader, htype]
    | n + 6, _ => simp [isCompleteRecordLoop, readHeader]

theorem readHeader_i {s s' : RecordScan} {byte : UInt8} (h : s.readHeader byte = some s') :
    s'.i = s.i + 1 := by
  unfold readHeader at h
  split at h
  all_goals first | split at h | skip
  all_goals first | contradiction | (obtain rfl := Option.some.inj h; rfl)

theorem round_readHeader {data : Bytes} {s : RecordScan} (h : s.i < data.length)
    (hheader : 0 < s.headerLen) :
    s.round data = match s.readHeader (data.getD s.i 0) with
      | none => .ok (.inl false)
      | some s' => .ok (.inr s') := by
  rw [round, if_pos h, if_pos hheader, Bytes.index_eq h]
  rfl

/-- A round stays in the data and goes forward, and the data behind the position decides. -/
theorem round_spec {data : Bytes} {s : RecordScan} (h : s.i ≤ data.length) :
    (∃ b, s.round data = .ok (.inl b) ∧
      isCompleteRecordLoop s.headerLen s.recordLen (data.drop s.i) = b) ∨
    (∃ s', s.round data = .ok (.inr s') ∧ s.i < s'.i ∧ s'.i ≤ data.length ∧
      isCompleteRecordLoop s'.headerLen s'.recordLen (data.drop s'.i) =
        isCompleteRecordLoop s.headerLen s.recordLen (data.drop s.i)) := by
  rcases Nat.lt_or_ge s.i data.length with hlt | hge
  · have hdrop : data.drop s.i = data.getD s.i 0 :: data.drop (s.i + 1) := by
      rw [List.drop_eq_getElem_cons hlt, List.getD_eq_getElem?_getD, List.getElem?_eq_getElem hlt]
      rfl
    by_cases hheader : 0 < s.headerLen
    · rw [round_readHeader hlt hheader, hdrop, isCompleteRecordLoop_readHeader s _ _ hheader]
      cases hread : s.readHeader (data.getD s.i 0) with
      | none => exact .inl ⟨false, rfl, rfl⟩
      | some s' =>
          have hi := readHeader_i hread
          exact .inr ⟨s', rfl, by omega, by omega, by rw [hi]⟩
    · rw [round, if_pos hlt, if_neg hheader, hdrop, isCompleteRecordLoop, if_neg hheader, ← hdrop,
        List.length_drop]
      by_cases hpayload : 0 < s.recordLen
      · rw [if_pos hpayload, if_pos hpayload]
        by_cases hshort : data.length - s.i < s.recordLen
        · rw [if_pos hshort, if_pos hshort]
          exact .inl ⟨false, rfl, rfl⟩
        · rw [if_neg hshort, if_neg hshort, List.drop_drop]
          exact .inr ⟨_, rfl, Nat.lt_add_of_pos_right hpayload, by
            show s.i + s.recordLen ≤ data.length
            omega, rfl⟩
      · rw [if_neg hpayload, if_neg hpayload]
        exact .inl ⟨false, rfl, rfl⟩
  · have hnil : data.drop s.i = [] := List.drop_of_length_le hge
    rw [round, if_neg (by omega), hnil, isCompleteRecordLoop]
    exact .inl ⟨_, rfl, rfl⟩

theorem Passes.le {data : Bytes} {s : RecordScan} (h : Passes data s) : s.i ≤ data.length := by
  induction h with
  | start => exact Nat.zero_le _
  | round _ hround ih =>
      rcases round_spec ih with ⟨b, heq, -⟩ | ⟨s', heq, -, hle, -⟩
      · rw [hround] at heq
        cases heq
      · rw [hround] at heq
        cases heq
        exact hle

/-- Every round but the last goes forward. -/
theorem run_eq {data : Bytes} {s : RecordScan} (h : s.i ≤ data.length) {rounds : Nat}
    (hrounds : data.length - s.i < rounds) :
    run data rounds s =
      .ok (some (isCompleteRecordLoop s.headerLen s.recordLen (data.drop s.i))) := by
  induction rounds generalizing s with
  | zero => omega
  | succ rounds ih =>
      rw [run]
      rcases round_spec h with ⟨b, heq, hb⟩ | ⟨s', heq, hlt, hle, hloop⟩
      · rw [heq, hb]
      · rw [heq]
        dsimp only
        rw [ih hle (by omega), hloop]

end RecordScan

/-! ## The records -/

namespace VisionWriter

theorem isCompleteRecordLoop_header (hi lo : UInt8) (rest : Bytes) :
    isCompleteRecordLoop 5 0 (0x17 :: 0x03 :: 0x03 :: hi :: lo :: rest) =
      isCompleteRecordLoop 0 (256 * hi.toNat + lo.toNat) rest := by
  have hlength : hi.toNat <<< 8 ||| lo.toNat = 256 * hi.toNat + lo.toNat := by
    rw [← Nat.shiftLeft_add_eq_or_of_lt lo.toNat_lt, Nat.shiftLeft_eq]
    omega
  simp only [isCompleteRecordLoop]
  simp [hlength]

theorem isCompleteRecordLoop_payload (recordLen : Nat) (rest : Bytes) :
    isCompleteRecordLoop 0 recordLen rest = true ↔
      0 < recordLen ∧ recordLen ≤ rest.length ∧
        isCompleteRecordLoop 5 0 (rest.drop recordLen) = true := by
  cases rest with
  | nil =>
      rw [isCompleteRecordLoop]
      simp only [List.length_nil, Nat.le_zero_eq]
      constructor
      · intro h
        simp at h
      · rintro ⟨hpos, hzero, -⟩
        omega
  | cons byte rest =>
      rw [isCompleteRecordLoop, if_neg (Nat.lt_irrefl 0)]
      by_cases hpos : 0 < recordLen
      · rw [if_pos hpos]
        by_cases hshort : (byte :: rest).length < recordLen
        · rw [if_pos hshort]
          simp only [Bool.false_eq_true, false_iff]
          rintro ⟨-, hle, -⟩
          omega
        · rw [if_neg hshort]
          exact ⟨fun h => ⟨hpos, by omega, h⟩, fun h => h.2.2⟩
      · rw [if_neg hpos]
        simp [hpos]

/-- What stands at the front of a string that is accepted and not empty. -/
theorem isCompleteRecordLoop_front {data : Bytes} (h : isCompleteRecordLoop 5 0 data = true)
    (hne : data ≠ []) : ∃ hi lo rest, data = 0x17 :: 0x03 :: 0x03 :: hi :: lo :: rest := by
  match data, hne with
  | [a], _ => simp [isCompleteRecordLoop] at h
  | [a, b], _ => simp [isCompleteRecordLoop] at h
  | [a, b, c], _ => simp [isCompleteRecordLoop] at h
  | [a, b, c, d], _ => simp [isCompleteRecordLoop] at h
  | a :: b :: c :: hi :: lo :: rest, _ =>
      by_cases ha : a = 0x17 <;> by_cases hb : b = 0x03 <;> by_cases hc : c = 0x03
      · exact ⟨hi, lo, rest, by rw [ha, hb, hc]⟩
      all_goals simp [isCompleteRecordLoop, ha, hb, hc] at h

/-- **It recognises exactly the concatenations of whole records that are not empty.** -/
theorem isCompleteRecordLoop_iff (data : Bytes) :
    isCompleteRecordLoop 5 0 data = true ↔ ApplicationRecords data := by
  constructor
  · intro h
    induction hn : data.length using Nat.strongRecOn generalizing data with
    | ind n ih =>
        by_cases hnil : data = []
        · rw [hnil]
          exact .nil
        · obtain ⟨hi, lo, rest, rfl⟩ := isCompleteRecordLoop_front h hnil
          rw [isCompleteRecordLoop_header, isCompleteRecordLoop_payload] at h
          obtain ⟨hpos, hle, hrest⟩ := h
          have hlength : (rest.take (256 * hi.toNat + lo.toNat)).length =
              256 * hi.toNat + lo.toNat := List.length_take_of_le hle
          have hshorter : (rest.drop (256 * hi.toNat + lo.toNat)).length < n := by
            rw [← hn, List.length_drop]
            simp only [List.length_cons]
            omega
          have hrecords := ih _ hshorter _ hrest rfl
          rw [← List.take_append_drop (256 * hi.toNat + lo.toNat) rest]
          exact .record hi lo hlength (by omega) hrecords
  · intro h
    induction h with
    | nil => simp [isCompleteRecordLoop]
    | record hi lo hlength hpos _ ih =>
        rw [isCompleteRecordLoop_header, isCompleteRecordLoop_payload, ← hlength]
        exact ⟨hpos, by simp, by rwa [List.drop_left]⟩

/-- `isCompleteRecord` says whether the data is a concatenation of whole records of application data
    that are not empty. The loop over the positions says the same, within as many rounds as there
    are bytes and one, and is never behind the end of the data. -/
theorem isCompleteRecord_iff (data : Bytes) :
    (isCompleteRecord data = true ↔ ApplicationRecords data) ∧
    RecordScan.run data (data.length + 1) {} = .ok (some (isCompleteRecord data)) ∧
    ∀ s, RecordScan.Passes data s → s.i ≤ data.length ∧ ∃ next, s.round data = .ok next := by
  refine ⟨isCompleteRecordLoop_iff data, ?_, fun s h => ⟨h.le, ?_⟩⟩
  · exact RecordScan.run_eq (Nat.zero_le _) (Nat.lt_succ_self _)
  · rcases RecordScan.round_spec h.le with ⟨b, heq, -⟩ | ⟨s', heq, -⟩
    · exact ⟨.inl b, heq⟩
    · exact ⟨.inr s', heq⟩

end VisionWriter

end Cppvless
