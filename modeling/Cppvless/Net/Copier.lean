import Cppvless.Net.Relay
import Cppvless.Coroutine.Replay
import Mathlib.Data.List.Chain
import Mathlib.Data.List.Induction

set_option autoImplicit false

/-! # One relay loop on its own

`copyStream` from any stream to a plain one, with another coroutine that may raise its stop flag at
any time. `writeFull` reports a send that fails after another was accepted in part as a success, so
the rest of the chunk is skipped if the loop finds later sends succeeding: the stream then has a hole.
Without such a failure it has none. -/

namespace Cppvless

open Coroutine

namespace Copier

/-- The two ends of the relay. -/
inductive Fd
  | source
  | sink
  deriving DecidableEq

inductive Task
  | copier
  | stopper
  deriving DecidableEq

/-- The only member is the stop flag; the only operation of its own is waiting to raise it. -/
@[reducible] def kind : Kind where
  Mem := Bool
  Fd := Fd
  fdEq := inferInstance
  Task := Task
  Ext := ⟨Unit, fun _ => Unit⟩
  extSuspends := fun _ => true

instance : DecidableEq kind.object.Task := inferInstanceAs (DecidableEq Task)

/-- The source, plain or TLS. -/
def source (tls : Bool) : NetStream Fd := if tls then .tls .source else .async .source

def sink : NetStream Fd := .async .sink

def copier (tls : Bool) : kind.Prog Unit := do
  Prog.spawn (O := kind.object) Task.stopper
  let _ ← copyStream (K := kind) sink (source tls) fun stop => stop

def stopper : kind.Prog Unit := do
  ext (K := kind) ()
  Prog.modify (O := kind.object) fun _ => true

def body (tls : Bool) : Task → kind.Prog Unit
  | .copier => copier tls
  | .stopper => stopper

def Reachable (tls : Bool) (p : Pool kind.object) : Prop :=
  Coroutine.Reachable (O := kind.object) (body tls) Task.copier false p

/-! ## Histories of a relay -/

/-- The send was accepted, but not all of it. -/
def Partial (x : Bytes × Int) : Prop := 0 < x.2 ∧ x.2 < x.1.length

/-- No send fails right after one that was accepted in part. -/
def Unbroken (tr : List (Event kind.object)) : Prop :=
  (sends (K := kind) Fd.sink tr).IsChain fun x y => Partial x → 0 < y.2

/-- The sink has got a prefix of what was read from the source, and all of it whenever the source was
    read. -/
structure Whole (tr : List (Event kind.object)) : Prop where
  accepted : wroteTo (K := kind) Fd.sink tr <+: readFrom (K := kind) Fd.source tr
  reads : EachStep (fun before e => heard (K := kind) Fd.source e ≠ none →
    wroteTo (K := kind) Fd.sink before = readFrom (K := kind) Fd.source before) tr

instance : DecidablePred Partial := fun x => inferInstanceAs (Decidable (0 < x.2 ∧ x.2 < x.1.length))

instance (tr : List (Event kind.object)) : Decidable (Unbroken tr) :=
  inferInstanceAs (Decidable ((sends (K := kind) Fd.sink tr).IsChain fun x y => Partial x → 0 < y.2))

variable {tr : List (Event kind.object)} {e : Event kind.object}

theorem Unbroken.of_append {tr' : List (Event kind.object)} (h : Unbroken (tr ++ tr')) :
    Unbroken tr := by
  unfold Unbroken at h
  rw [sends_append] at h
  exact h.left_of_append

/-- What comes right after a partial send succeeds. -/
theorem Unbroken.next {x y : Bytes × Int} (h : Unbroken (tr ++ [e]))
    (hx : (sends (K := kind) Fd.sink tr).getLast? = some x)
    (hy : sent (K := kind) Fd.sink e = some y) (hpart : Partial x) : 0 < y.2 := by
  unfold Unbroken at h
  rw [sends_append, List.isChain_append] at h
  exact h.2.2 x hx y (by simp [sends, hy]) hpart

theorem whole_nil : Whole [] := ⟨List.nil_prefix, eachStep_nil⟩

theorem Whole.other (h : Whole tr) (hheard : heard (K := kind) Fd.source e = none)
    (hwrote : wrote (K := kind) Fd.sink e = none) : Whole (tr ++ [e]) where
  accepted := by simpa [readFrom_other hheard, wroteTo_other hwrote] using h.accepted
  reads := eachStep_concat.2 ⟨h.reads, fun hne => absurd hheard hne⟩

/-! ## The contract -/

/-- What is read and not yet accepted is `rest`. -/
structure Pending (rest : Bytes) (w : World kind.object) : Prop where
  whole : Whole w.trace
  bytes : wroteTo (K := kind) Fd.sink w.trace ++ rest = readFrom (K := kind) Fd.source w.trace

/-- In the middle of a chunk the last send was accepted in part. -/
def Midway (w : World kind.object) : Prop := ∃ x, (sends (K := kind) Fd.sink w.trace).getLast? = some x ∧ Partial x

/-- Another coroutine's step: neither a read of the source nor a write to the sink. -/
def Aside (w w' : World kind.object) : Prop :=
  ∃ es, w'.trace = w.trace ++ es ∧ ∀ e ∈ es, IsQuiet e

/-- The copier keeps the stream whole, the stopper stays aside. -/
def contract : Contract kind.object where
  env := Unbroken
  guar
    | .copier, _, w' => Whole w'.trace
    | .stopper, w, w' => Aside w w'
  parked _ _ _ := True
  pre
    | .copier, w => w.trace = []
    | .stopper, _ => True
  post _ _ := True

theorem stable : contract.Stable :=
  ⟨fun _ _ h => h.of_append, fun _ _ _ _ _ _ => trivial, fun _ _ _ _ _ => trivial⟩

variable {w w' : World kind.object} {rest : Bytes}

theorem Aside.whole (h : Aside w w') (hw : Whole w.trace) : Whole w'.trace := by
  obtain ⟨es, htrace, hquiet⟩ := h
  rw [htrace]
  clear htrace
  induction es using List.reverseRecOn with
  | nil => simpa using hw
  | append_singleton es e ih =>
      have hes := ih fun e' he' => hquiet e' (by simp [he'])
      have he := hquiet e (by simp)
      rw [← List.append_assoc]
      exact hes.other (he.heard_none _) (he.wrote_none _)

theorem Aside.same (h : Aside w w') :
    readFrom (K := kind) Fd.source w'.trace = readFrom (K := kind) Fd.source w.trace ∧
      wroteTo (K := kind) Fd.sink w'.trace = wroteTo (K := kind) Fd.sink w.trace ∧
      sends (K := kind) Fd.sink w'.trace = sends (K := kind) Fd.sink w.trace := by
  obtain ⟨es, htrace, hquiet⟩ := h
  rw [htrace]
  clear htrace
  induction es using List.reverseRecOn with
  | nil => simp
  | append_singleton es e ih =>
      obtain ⟨hread, hwrote, hsends⟩ := ih fun e' he' => hquiet e' (by simp [he'])
      have he := hquiet e (by simp)
      rw [← List.append_assoc]
      refine ⟨?_, ?_, ?_⟩
      · rw [readFrom_append, readFrom_other (he.heard_none _), List.append_nil, hread]
      · rw [wroteTo_append, wroteTo_other (he.wrote_none _), List.append_nil, hwrote]
      · rw [sends_append, sends_other (he.wrote_none _), List.append_nil, hsends]

theorem Pending.aside (hw : Pending rest w) (h : Aside w w') : Pending rest w' := by
  obtain ⟨hread, hwrote, -⟩ := h.same
  exact ⟨h.whole hw.whole, by rw [hread, hwrote, hw.bytes]⟩

theorem Midway.aside (hw : Midway w) (h : Aside w w') : Midway w' := by
  unfold Midway
  rw [h.same.2.2]
  exact hw

theorem aside_of_rely (h : contract.rely Task.copier w w') : Aside w w' := by
  obtain ⟨u, hu, hg, -⟩ := h
  cases u with
  | copier => exact absurd rfl hu
  | stopper => exact hg

theorem aside_push (he : IsQuiet e) : Aside w (w.push e) := by
  refine ⟨[e], rfl, fun e' he' => ?_⟩
  rw [List.mem_singleton.1 he']
  exact he

/-! ## The loops -/

theorem source_fd (tls : Bool) : (source tls).fd = Fd.source := by
  unfold source
  split
  · rfl
  · rfl

theorem stays_pending (S : NetOp Fd → Prop) (rest : Bytes) :
    Stays contract Task.copier S (Pending rest) :=
  ⟨fun _ _ hw hr => hw.aside (aside_of_rely hr), fun _ _ _ _ => trivial⟩

/-- A send of `data`, of which `data.drop offset` is left: before the first one nothing of it was
    accepted, before any other the last one was accepted in part. -/
structure Sending (data : Bytes) (offset : Nat) (w : World kind.object) : Prop where
  pending : Pending (data.drop offset) w
  midway : 0 < offset → offset < data.length → Midway w

theorem Pending.send {data : Bytes} {r : (NetOp.send Fd.sink data).Res} (hw : Pending data w) :
    Pending (data.drop r.1.toNat)
      (w.push (.io (O := kind.object) (.inl (.send .sink data)) r)) := by
  have hwrite := isWrite_send (K := kind) Fd.sink data r
  have hread := readFrom_other (K := kind) (hwrite.heard_none Fd.source)
  have hbytes : (wroteTo (K := kind) Fd.sink w.trace ++ data.take r.1.toNat) ++
      data.drop r.1.toNat = readFrom (K := kind) Fd.source w.trace := by
    rw [List.append_assoc, List.take_append_drop, hw.bytes]
  refine ⟨⟨?_, eachStep_concat.2 ⟨hw.whole.reads, fun hne => ?_⟩⟩, ?_⟩
  · rw [World.push_trace, wroteTo_append, wroteTo_single hwrite.wrote_self, readFrom_append, hread,
      List.append_nil, ← hbytes]
    exact List.prefix_append _ _
  · exact absurd (hwrite.heard_none _) hne
  · rw [World.push_trace, wroteTo_append, wroteTo_single hwrite.wrote_self, readFrom_append, hread,
      List.append_nil, hbytes]

theorem wp_writeFull {data : Bytes} (hdata : data ≠ []) (hw : Pending data w) :
    wp contract Task.copier (sink.writeFull (K := kind) data) (Returns fun n w' =>
      0 < n ∧ Pending [] w' ∨ n ≤ 0 ∧ Whole w'.trace) w := by
  have hstart : Sending data 0 w := ⟨by simpa using hw, fun h => absurd h (Nat.lt_irrefl 0)⟩
  refine wp_loop (Sending data) hstart ?_
  intro offset w hw
  by_cases hlt : offset < data.length
  · rw [if_pos hlt]
    refine wp_bind (wp_net rfl (I := Sending data offset) ⟨?_, fun _ _ _ _ => trivial⟩
      (S := fun _ => True) trivial hw ?_)
    · intro w w' hw hr
      have haside := aside_of_rely hr
      exact ⟨hw.pending.aside haside, fun h₀ h₁ => (hw.midway h₀ h₁).aside haside⟩
    · intro w r hw henv
      have hnext := hw.pending.send (r := r)
      refine ⟨hnext.whole, ?_⟩
      by_cases hr : r.1 ≤ 0
      · -- the failure of the first send; no later one fails
        simp only [hr, if_true, wp_pure]
        by_cases hoff : 0 < offset
        · obtain ⟨x, hx, hpart⟩ := hw.midway hoff hlt
          have hpos : 0 < r.1 := Unbroken.next henv hx (y := (data.drop offset, r.1)) rfl hpart
          omega
        · rw [if_neg hoff]
          exact .inr ⟨hr, hnext.whole⟩
      · simp only [hr, if_false, wp_pure]
        rw [List.drop_drop] at hnext
        refine ⟨hnext, fun _ hlt' => ⟨(data.drop offset, r.1), ?_, ?_⟩⟩
        · simp [sends, sent]
        · have hlen : (data.drop offset).length = data.length - offset := List.length_drop
          exact ⟨Int.not_le.1 hr, show r.1 < ((data.drop offset).length : Int) by omega⟩
  · rw [if_neg hlt]
    have hpending := hw.pending
    rw [List.drop_of_length_le (by omega)] at hpending
    have hpos := List.length_pos_iff.2 hdata
    exact .inl ⟨by omega, hpending⟩

theorem wp_read (tls : Bool) (hw : Pending [] w) :
    wp contract Task.copier ((source tls).read (K := kind)) (Returns fun rr w' =>
      Pending rr.data w') w := by
  refine NetStream.wp_read _ _ (stays_pending _ []) hw ?_
  intro w e rr hw he _ _
  rw [source_fd] at he
  have hbytes : wroteTo (K := kind) Fd.sink w.trace = readFrom (K := kind) Fd.source w.trace := by
    rw [← hw.bytes, List.append_nil]
  have hnext : Pending rr.data (w.push e) := by
    refine ⟨⟨?_, eachStep_concat.2 ⟨hw.whole.reads, fun _ => hbytes⟩⟩, ?_⟩
    · rw [World.push_trace, wroteTo_append, wroteTo_other (he.wrote_none _), List.append_nil,
        readFrom_append, hbytes]
      exact List.prefix_append _ _
    · rw [World.push_trace, wroteTo_append, wroteTo_other (he.wrote_none _), List.append_nil,
        readFrom_append, readFrom_single he.heard_self, hbytes]
  exact ⟨hnext.whole, hnext⟩

theorem wp_shutdownWrite (hw : Pending [] w) :
    wp contract Task.copier (sink.shutdownWrite (K := kind)) (Returns fun _ _ => True) w := by
  refine NetStream.wp_shutdownWrite _ (stays_pending _ []) hw ?_
  intro w o r n hw ho _
  have hquiet := hw.aside (aside_push (isQuiet_net (fun _ => ho.not_reads) (fun _ => ho.not_writes) r))
  exact ⟨hquiet.whole, trivial⟩

theorem wp_copier (tls : Bool) (hw : w.trace = []) :
    wp contract Task.copier (copier tls) (fun _ _ => True) w := by
  have hstart : Pending [] w := by
    refine ⟨?_, ?_⟩
    · rw [hw]
      exact whole_nil
    · rw [hw]
      rfl
  have hspawned := hstart.aside (aside_push (isQuiet_spawned (K := kind) Task.stopper))
  refine wp_bind (wp_spawn fun _ => ⟨hspawned.whole, trivial, ?_⟩)
  intro w₁ hl
  have hw₁ : Pending [] w₁ := (stays_pending (fun _ => True) []).later hspawned hl
  refine wp_seq (wp_copyStream (P := Pending) (E := Pending []) (R := Pending []) (Q := fun _ _ => True)
    (fun _ _ _ => trivial) ?_ (fun _ hw => wp_returns (wp_shutdownWrite hw) fun _ _ _ => trivial)
    (fun _ hw => wp_returns (wp_shutdownWrite hw) fun _ _ _ => trivial) ?_ hw₁)
    (fun _ _ _ => trivial) fun _ _ _ => trivial
  · intro w hw
    refine wp_returns (wp_read tls hw) ?_
    intro rr w' hw'
    show if rr.eof = true then _ else if rr.error = true then _ else _
    cases hok : rr.ok with
    | true =>
        obtain ⟨heof, herr⟩ : rr.eof = false ∧ rr.error = false := by simpa [rr.ok_eq] using hok
        simp only [heof, herr, Bool.false_eq_true, if_false]
        exact hw'
    | false =>
        rw [RecvResult.data_eq_nil_of_not_ok hok] at hw'
        split
        · exact hw'
        · split
          · exact hw'
          · exact (RecvResult.data_eq_nil_of_not_ok hok).symm ▸ hw'
  · intro data w hdata hw
    refine wp_returns (wp_writeFull hdata hw) ?_
    intro n w' hw'
    show if n ≤ 0 then True else Pending [] w'
    split
    · trivial
    · rcases hw' with ⟨-, hw'⟩ | ⟨hn, -⟩
      · exact hw'
      · contradiction

theorem wp_stopper : wp contract Task.stopper stopper (fun _ _ => True) w := by
  refine wp_bind (wp_await (O := kind.object) rfl trivial ?_)
  intro w₁ _ r _
  refine ⟨aside_push (isQuiet_ext (K := kind) () r), wp_member fun _ => ⟨⟨[], ?_, ?_⟩, trivial⟩⟩
  · simp
  · exact fun e he => absurd he (by simp)

end Copier

/-- **Relaying makes no hole**, as long as no send fails right after one that was accepted in part:
    whatever the reads and the sends answer and whenever the stop flag is raised, the sink has at all
    times got a prefix of what was read, and all of it whenever the source is read again. -/
theorem copyStream_whole (tls : Bool) {p : Pool Copier.kind.object} (hp : Copier.Reachable tls p)
    (hsends : Copier.Unbroken p.world.trace) : Copier.Whole p.world.trace := by
  have hpre : Copier.contract.pre Copier.Task.copier ⟨false, []⟩ := rfl
  refine Contract.invariant Copier.stable ?_ hpre (fun w => Copier.Whole w.trace) Copier.whole_nil
    ?_ hp hsends
  · intro t w hw _
    cases t with
    | copier => exact Copier.wp_copier tls hw
    | stopper => exact Copier.wp_stopper
  · intro t w w' hguar _ hw
    cases t with
    | copier => exact hguar
    | stopper => exact hguar.whole hw

/-- Peers that send these pieces and accept these amounts, and everything after them. -/
def Copier.peers (pieces : List Bytes) (accepts : List Int) (w : World Copier.kind.object) :
    (o : Copier.kind.object.Io.Op) → Copier.kind.object.Io.Res o
  | .inl (.recv fd bufSize) =>
      ⟨.ofBytes ((pieces.getD (answers (K := Copier.kind) fd w.trace).length []).take bufSize),
        List.length_take_le _ _⟩
  | .inl (.send _ data) =>
      ⟨min (accepts.getD (sends (K := kind) Fd.sink w.trace).length data.length) data.length,
        Int.min_le_right _ _⟩
  | .inl (.connect _ _) => (0 : Int)
  | .inl (.shutdownWr _) => (0 : Int)
  | .inl (.tlsHandshake _) => true
  | .inl (.tlsRead _ maxBytes) => ⟨.ofBytes [], Nat.zero_le maxBytes⟩
  | .inl (.tlsWriteFull _ data) => ⟨data.length, NetOp.accepts_whole data⟩
  | .inl (.tlsShutdownWrite _) => (0 : Int)
  | .inl (.getaddrinfo _ _ _) => (none : Option (List SockAddr))
  | .inl (.socket _ _ _) => true
  | .inr _ => ()

/-- The relay between these peers, after `n` completions. -/
def Copier.sampleRun (pieces : List Bytes) (accepts : List Int) (n : Nat) :
    Pool Copier.kind.object :=
  run (O := Copier.kind.object) (Copier.body false) Copier.Task.copier false
    (Copier.peers pieces accepts) 100 (List.replicate n Copier.Task.copier)

theorem Copier.sampleRun_reachable (pieces : List Bytes) (accepts : List Int) (n : Nat) :
    Copier.Reachable false (Copier.sampleRun pieces accepts n) :=
  run_reachable (O := Copier.kind.object) (Copier.body false) Copier.Task.copier false _ _ _

/-- Three bytes, accepted one after the other, and a fourth. -/
theorem copyStream_whole_bytewise :
    Copier.Whole (Copier.sampleRun [[1, 2, 3], [4]] [1, 1, 1] 6).world.trace :=
  copyStream_whole false (Copier.sampleRun_reachable _ _ _) (by decide +kernel)

/-- The first byte of three is accepted, the next send fails, the one after it succeeds: the sink gets
    the first byte and the fourth. -/
theorem copyStream_torn :
    ¬ ∀ p, Copier.Reachable false p → Copier.Whole p.world.trace := by
  intro h
  have hwhole := h _ (Copier.sampleRun_reachable [[1, 2, 3], [4]] [1, -1] 5)
  exact absurd hwhole.accepted (by decide +kernel)

end Cppvless
