import Cppvless.Net.Relay

set_option autoImplicit false

/-! # What a relay delivers

A relay reads a source and writes to a destination, and may change the data on the way, in a way that
depends on what it has changed before. `Origin.Carries` is the invariant of one: since it began, all
that was read has been changed and written but for what is on the way, or the relay has met an error.
Nobody else disturbs it who leaves its source, its destination and its state alone
(`Direction.Leaves`). -/

namespace Cppvless

open Coroutine

variable {K : Kind}

/-- One of the relays. -/
structure Direction (K : Kind) where
  src : K.Fd
  dst : K.Fd
  State : Type
  state : K.Mem → State
  /-- `recodes s data out s'`: in state `s` it may make `out` of `data`, and is in state `s'` then -/
  recodes : State → Bytes → Bytes → State → Prop
  /-- what was read before it began -/
  left : K.Mem → Bytes

namespace Direction

variable (d : Direction K)

/-! ## Its end -/

section Ends

variable (tr : List (Event K.object))

/-- An error of its own: a read or a write failed. -/
def Failed : Prop := ReadFailed d.src tr ∨ WriteFailed d.dst tr

/-- Its source has ended, or it has met an error. -/
def Over : Prop := EofOn d.src tr ∨ d.Failed tr

/-- Its source has ended, and there was no error. -/
def EndedCleanly : Prop := EofOn d.src tr ∧ ¬ d.Failed tr

instance : Decidable (d.Failed tr) := inferInstanceAs (Decidable (_ ∨ _))

instance : Decidable (d.Over tr) := inferInstanceAs (Decidable (_ ∨ _))

instance : Decidable (d.EndedCleanly tr) := inferInstanceAs (Decidable (_ ∧ _))

end Ends

/-- `e` is neither an answer of its source nor a write to its destination. -/
structure Idle (e : Event K.object) : Prop where
  heard_none : heard d.src e = none
  wrote_none : wrote d.dst e = none

/-- Nor does it end its destination. -/
structure Silent (e : Event K.object) : Prop extends d.Idle e where
  not_shuts : shuts d.dst e = false

/-- Nothing of it happens between `w` and `w'`. -/
structure Leaves (w w' : World K.object) : Prop where
  state : d.state w'.mem = d.state w.mem
  left : d.left w'.mem = d.left w.mem
  trace : ∃ more, w'.trace = w.trace ++ more ∧ ∀ e ∈ more, d.Silent e

variable {d} {tr more : List (Event K.object)} {w w' : World K.object}

theorem Failed.append (h : d.Failed tr) (more : List (Event K.object)) : d.Failed (tr ++ more) :=
  h.imp (fun h => (readFailed_append _ _ _).2 (.inl h)) fun h => (writeFailed_append _ _ _).2 (.inl h)

/-- What is over stays over. -/
theorem Over.append (h : d.Over tr) (more : List (Event K.object)) : d.Over (tr ++ more) :=
  h.imp (fun h => (eofOn_append _ _ _).2 (.inl h)) fun h => h.append more

theorem answers_idle (h : ∀ e ∈ more, d.Idle e) : answers d.src more = [] :=
  List.filterMap_eq_nil_iff.2 fun e he => (h e he).heard_none

theorem writes_idle (h : ∀ e ∈ more, d.Idle e) : writes d.dst more = [] :=
  List.filterMap_eq_nil_iff.2 fun e he => (h e he).wrote_none

theorem endedCleanly_idle (h : ∀ e ∈ more, d.Idle e) :
    d.EndedCleanly (tr ++ more) ↔ d.EndedCleanly tr := by
  simp [EndedCleanly, Failed, EofOn, ReadFailed, WriteFailed, answers_idle h, writes_idle h]

theorem over_idle (h : ∀ e ∈ more, d.Idle e) : d.Over (tr ++ more) ↔ d.Over tr := by
  simp [Over, Failed, EofOn, ReadFailed, WriteFailed, answers_idle h, writes_idle h]

theorem idle_shut {o : NetOp K.Fd} {fd : K.Fd} (ho : o.Shuts fd) (r : o.Res) :
    d.Idle (.io (.inl o) r) :=
  ⟨heard_eq_none ho.not_reads r, wrote_eq_none ho.not_writes r⟩

/-- An operation on other descriptors, or one that does something else with these. -/
theorem silent_net {o : NetOp K.Fd} (h : ¬ o.Reads d.src ∧ ¬ o.Writes d.dst ∧ ¬ o.Shuts d.dst)
    (r : o.Res) : d.Silent (.io (.inl o) r) :=
  ⟨⟨heard_eq_none h.1 r, wrote_eq_none h.2.1 r⟩, shuts_eq_false h.2.2 r⟩

/-- What the relay of another direction reads. -/
theorem silent_read {fd : K.Fd} {rr : RecvResult} {e : Event K.object} (he : IsRead fd rr e)
    (hne : d.src ≠ fd) : d.Silent e := by
  obtain ⟨o, r, heq, ho⟩ := he.read
  refine ⟨⟨he.heard_other _ hne, he.wrote_none _⟩, ?_⟩
  rw [heq]
  exact shuts_eq_false ho.not_shuts r

/-- What it writes. -/
theorem silent_write {fd : K.Fd} {out : Bytes} {failed : Bool} {e : Event K.object}
    (he : IsWrite fd out failed e) (hne : d.dst ≠ fd) : d.Silent e := by
  obtain ⟨o, r, heq, ho⟩ := he.write
  refine ⟨⟨he.heard_none _, he.wrote_other _ hne⟩, ?_⟩
  rw [heq]
  exact shuts_eq_false ho.not_shuts r

/-- The end of its destination. -/
theorem silent_shut {fd : K.Fd} {o : NetOp K.Fd} (ho : o.Shuts fd) (r : o.Res) (hne : d.dst ≠ fd) :
    d.Silent (.io (.inl o) r) :=
  silent_net ⟨ho.not_reads, ho.not_writes, fun h => hne (h.unique ho)⟩ r

theorem silent_ext (o : K.Ext.Op) (r : K.Ext.Res o) : d.Silent (.io (.inr o) r) := ⟨⟨rfl, rfl⟩, rfl⟩

theorem silent_sys (c : Syscall K.Fd) : d.Silent (.sys c) := ⟨⟨rfl, rfl⟩, rfl⟩

theorem over_eof {rr : RecvResult} {e : Event K.object} (he : IsRead d.src rr e) (h : rr.eof = true) :
    d.Over (tr ++ [e]) :=
  .inl ((eofOn_append _ _ _).2 (.inr ((eofOn_single he.heard_self).2 h)))

theorem failed_read {rr : RecvResult} {e : Event K.object} (he : IsRead d.src rr e)
    (h : rr.error = true) : d.Failed (tr ++ [e]) :=
  .inl ((readFailed_append _ _ _).2 (.inr ((readFailed_single he.heard_self).2 h)))

theorem failed_write {out : Bytes} {e : Event K.object} (he : IsWrite d.dst out true e) :
    d.Failed (tr ++ [e]) :=
  .inr ((writeFailed_append _ _ _).2 (.inr ((writeFailed_single he.wrote_self).2 rfl)))

/-! ## What becomes of the data -/

/-- From state `s` on, `out` is made of the pieces and `s'` is left. -/
inductive Recoded (d : Direction K) (s : d.State) : List Bytes → Bytes → d.State → Prop
  | nil : Recoded d s [] [] s
  | concat (pieces : List Bytes) (data out more : Bytes) (s' s'' : d.State)
      (h : Recoded d s pieces out s') (hdata : d.recodes s' data more s'') :
      Recoded d s (pieces ++ [data]) (out ++ more) s''

/-- In this state it copies. -/
def Copies (d : Direction K) (s : d.State) : Prop := ∀ data, d.recodes s data data s

/-- Where it begins: the trace until then, the pieces read already, and its state. -/
structure Origin (d : Direction K) where
  before : List (Event K.object)
  lead : List Bytes
  start : d.State

/-- It begins in `w`. -/
def originAt (d : Direction K) (w : World K.object) : Origin d :=
  ⟨w.trace, if d.left w.mem = [] then [] else [d.left w.mem], d.state w.mem⟩

namespace Origin

variable (og : Origin d)

/-- Since then all that was read has been recoded but for the pieces `raw`, and what came of it
    written but for `pending`. -/
def Exact (raw : List Bytes) (pending : Bytes) (w : World K.object) : Prop :=
  ∃ after pieces out, w.trace = og.before ++ after ∧
    og.lead ++ chunksFrom d.src after = pieces ++ raw ∧
    d.Recoded og.start pieces out (d.state w.mem) ∧ wroteTo d.dst after ++ pending = out

/-- The same, unless there was an error. -/
def Carries (raw : List Bytes) (pending : Bytes) (w : World K.object) : Prop :=
  og.Exact raw pending w ∨ d.Failed w.trace

variable {og} {raw : List Bytes} {pending : Bytes} {e : Event K.object}

/-- At the beginning what was read already is to be recoded. -/
theorem carries_originAt (w : World K.object) :
    (d.originAt w).Carries (d.originAt w).lead [] w :=
  .inl ⟨[], [], [], (List.append_nil _).symm, by simp [chunksFrom, answers], .nil, rfl⟩

theorem Carries.idle (h : og.Carries raw pending w) (hstate : d.state w'.mem = d.state w.mem)
    {more : List (Event K.object)} (hmore : w'.trace = w.trace ++ more)
    (hidle : ∀ e ∈ more, d.Idle e) : og.Carries raw pending w' := by
  rcases h with ⟨after, pieces, out, htrace, hread, hrecoded, hwrote⟩ | hfailed
  · refine .inl ⟨after ++ more, pieces, out, ?_, ?_, ?_, ?_⟩
    · rw [hmore, htrace, List.append_assoc]
    · rw [chunksFrom_append]
      simpa [chunksFrom, answers_idle hidle] using hread
    · rw [hstate]
      exact hrecoded
    · rw [wroteTo_append]
      simpa [wroteTo, writes_idle hidle] using hwrote
  · refine .inr ?_
    rw [hmore]
    exact hfailed.append more

theorem Carries.leaves (h : og.Carries raw pending w) (hl : d.Leaves w w') :
    og.Carries raw pending w' := by
  obtain ⟨more, hmore, hsilent⟩ := hl.trace
  exact h.idle hl.state hmore fun e he => (hsilent e he).toIdle

theorem Carries.read {rr : RecvResult} (h : og.Carries [] [] w) (he : IsRead d.src rr e) :
    og.Carries (if rr.ok then [rr.data] else []) [] (w.push e) := by
  rcases h with ⟨after, pieces, out, htrace, hread, hrecoded, hwrote⟩ | hfailed
  · refine .inl ⟨after ++ [e], pieces, out, ?_, ?_, hrecoded, ?_⟩
    · rw [World.push_trace, htrace, List.append_assoc]
    · rw [List.append_nil] at hread
      rw [chunksFrom_append, chunksFrom_single he.heard_self, ← List.append_assoc, hread]
    · rw [wroteTo_append, wroteTo_other (he.wrote_none _), List.append_nil]
      exact hwrote
  · exact .inr (hfailed.append [e])

/-- A piece is recoded. -/
theorem Carries.recode {data out : Bytes} (h : og.Carries [data] [] w)
    (htrace : w'.trace = w.trace) (hdata : d.recodes (d.state w.mem) data out (d.state w'.mem)) :
    og.Carries [] out w' := by
  rcases h with ⟨after, pieces, before, hbefore, hread, hrecoded, hwrote⟩ | hfailed
  · refine .inl ⟨after, pieces ++ [data], before ++ out, htrace.trans hbefore, ?_, ?_, ?_⟩
    · rw [hread, List.append_nil]
    · exact .concat pieces data before out _ _ hrecoded hdata
    · rw [List.append_nil] at hwrote
      rw [hwrote]
  · exact .inr (htrace ▸ hfailed)

/-- A write takes what it got through off what is pending, or fails. -/
theorem Carries.write {out rest : Bytes} {failed : Bool} (h : og.Carries [] (out ++ rest) w)
    (he : IsWrite d.dst out failed e) : og.Carries [] (if failed then [] else rest) (w.push e) := by
  cases failed with
  | true => exact .inr (failed_write he)
  | false =>
      rcases h with ⟨after, pieces, all, htrace, hread, hrecoded, hwrote⟩ | hfailed
      · refine .inl ⟨after ++ [e], pieces, all, ?_, ?_, hrecoded, ?_⟩
        · rw [World.push_trace, htrace, List.append_assoc]
        · rw [chunksFrom_append, chunksFrom_other (he.heard_none _), List.append_nil]
          exact hread
        · rw [wroteTo_append, wroteTo_single he.wrote_self, List.append_assoc]
          exact hwrote
      · exact .inr (hfailed.append [e])

end Origin

end Direction

end Cppvless
