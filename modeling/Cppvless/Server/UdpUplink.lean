import Cppvless.Coroutine.Eval
import Cppvless.Net.Framing
import Cppvless.Server.Handshake
import Cppvless.Vless.Encoder

set_option autoImplicit false

/-! # Datagrams towards the target

A UDP session of the server takes the frames that follow the request header off the stream and sends
each non-empty datagram on its own. The stream may be cut anywhere: what was read beyond the header
and whatever is left of a piece is kept in `pending` until its frame is complete. -/

namespace Cppvless

open Coroutine

namespace VlessConnection

/-- A well-formed request for a UDP session without a flow, of a user of the server. -/
structure UdpRequest (validator : Validator) where
  header : Bytes
  req : Request
  wf : Header validator header req
  command : req.command = .udp
  flow : req.flow = []

namespace UdpUplink

/-- The datagrams sent to the target. -/
def delivered (tr : List (Event kind.object)) : List Bytes :=
  (sends (K := kind) Fd.target tr).map Prod.fst

variable {validator : Validator} (r : UdpRequest validator) (ds : List Bytes)

/-- The client sends the header and the frames of `ds`, and a datagram is accepted whole. -/
structure Env (tr : List (Event kind.object)) : Prop where
  reads : readFrom (K := kind) Fd.client tr <+: r.header ++ frames ds
  accepted : ∀ x ∈ sends (K := kind) Fd.target tr, x.2 = x.1.length

/-- Nothing but non-empty datagrams of `ds` was sent, each once and in order. -/
def Safe (tr : List (Event kind.object)) : Prop :=
  delivered tr <+: ds.filter fun d => d ≠ []

/-- Once a started session has read everything, every non-empty datagram was sent. -/
def Done (w : World kind.object) : Prop :=
  w.mem.targetTaskStarted = true → readFrom (K := kind) Fd.client w.trace = r.header ++ frames ds →
    delivered w.trace = ds.filter fun d => d ≠ []

/-- What the target task leaves alone. -/
structure Keeps (w w' : World kind.object) : Prop where
  sends : sends (K := kind) Fd.target w'.trace = sends (K := kind) Fd.target w.trace
  answers : answers (K := kind) Fd.client w'.trace = answers (K := kind) Fd.client w.trace
  started : w'.mem.targetTaskStarted = w.mem.targetTaskStarted
  clientReadDone : w'.mem.clientReadDone = w.mem.clientReadDone
  closed : w.mem.clientReadDone = false → w'.mem.closed = w.mem.closed
  remaining : w'.mem.handshakeRemaining = w.mem.handshakeRemaining

/-- Until the request is known. -/
structure Waiting (w : World kind.object) : Prop where
  started : w.mem.targetTaskStarted = false
  closed : w.mem.closed = false
  clientReadDone : w.mem.clientReadDone = false
  delivered : delivered w.trace = []

/-- After the handshake: what was read beyond the header is in `handshakeRemaining`. -/
structure Accepted (w : World kind.object) : Prop extends Waiting w where
  read : readFrom (K := kind) Fd.client w.trace = r.header ++ w.mem.handshakeRemaining

/-- With the target task started, `clientTask` relays, whatever that one does. -/
structure Running (w : World kind.object) : Prop where
  started : w.mem.targetTaskStarted = true
  closed : w.mem.closed = false
  clientReadDone : w.mem.clientReadDone = false

/-- Some frames were read and sent, and `pending` is what was read after them. -/
def Parsed (pending : Bytes) (tr : List (Event kind.object)) : Prop :=
  ∃ done : List Bytes, (∀ d ∈ done, d.length < 65536) ∧
    readFrom (K := kind) Fd.client tr = r.header ++ frames done ++ pending ∧
    delivered tr = done.filter fun d => d ≠ []

/-- `clientTask` sends the datagrams; the target task, once it is there, leaves that direction
    alone. -/
def contract : Contract kind.object where
  env := Env r ds
  guar
    | .clientTask, w, w' => (Safe ds w.trace → Safe ds w'.trace) ∧
        (w.mem.targetTaskStarted = true → w'.mem.targetTaskStarted = true)
    | .targetTask, w, w' => w.mem.targetTaskStarted = true ∧ Keeps w w'
  parked t o w := t = Task.clientTask →
    (∀ o' : NetOp Fd, o = .inl o' → ¬ o'.Writes .target) → Done r ds w
  pre
    | .clientTask, w => w.mem = {} ∧ w.trace = []
    | .targetTask, w => w.mem.targetTaskStarted = true
  post t w := t = Task.clientTask → Done r ds w

variable {r ds} {w w' : World kind.object} {pending : Bytes}

/-! ## Steps -/

theorem Keeps.delivered (h : Keeps w w') : delivered w'.trace = delivered w.trace := by
  unfold UdpUplink.delivered
  rw [h.sends]

theorem Keeps.readFrom (h : Keeps w w') :
    readFrom (K := kind) Fd.client w'.trace = readFrom (K := kind) Fd.client w.trace := by
  unfold Cppvless.readFrom chunksFrom
  rw [h.answers]

theorem Keeps.done (h : Keeps w w') (hw : Done r ds w) : Done r ds w' := by
  unfold Done
  rw [h.started, h.readFrom, h.delivered]
  exact hw

theorem Keeps.safe (h : Keeps w w') (hw : Safe ds w.trace) : Safe ds w'.trace := by
  unfold Safe
  rw [h.delivered]
  exact hw

theorem Keeps.parsed (h : Keeps w w') (hw : Parsed r pending w.trace) :
    Parsed r pending w'.trace := by
  unfold Parsed
  rw [h.readFrom, h.delivered]
  exact hw

theorem Keeps.running (h : Keeps w w') (hw : Running w) : Running w' where
  started := h.started.trans hw.started
  closed := (h.closed hw.clientReadDone).trans hw.closed
  clientReadDone := h.clientReadDone.trans hw.clientReadDone

theorem rely_client (h : (contract r ds).rely Task.clientTask w w') :
    w.mem.targetTaskStarted = true ∧ Keeps w w' := by
  obtain ⟨u, hu, hg, -⟩ := h
  cases u with
  | clientTask => exact absurd rfl hu
  | targetTask => exact hg

theorem rely_target (h : (contract r ds).rely Task.targetTask w w')
    (hs : w.mem.targetTaskStarted = true) : w'.mem.targetTaskStarted = true := by
  obtain ⟨u, hu, hg, -⟩ := h
  cases u with
  | clientTask => exact hg.2 hs
  | targetTask => exact absurd rfl hu

theorem stable : (contract r ds).Stable where
  env_prefix tr tr' h := by
    refine ⟨(readFrom_mono _ (List.prefix_append tr tr')).trans h.reads, ?_⟩
    intro x hx
    exact h.accepted x (by simp [hx])
  parked t o w w' h hr ht ho := by
    subst ht
    exact (rely_client hr).2.done (h rfl ho)
  post t w w' h hr ht := by
    subst ht
    exact (rely_client hr).2.done (h rfl)

/-! ## Frames and datagrams -/

/-- What was sent are datagrams of `ds`. -/
theorem Parsed.safe (hds : ∀ d ∈ ds, d.length < 65536) (henv : Env r ds w.trace)
    (h : Parsed r pending w.trace) : Safe ds w.trace := by
  obtain ⟨done, hdone, hread, hdelivered⟩ := h
  have hreads := henv.reads
  rw [hread, List.append_assoc, List.prefix_append_right_inj] at hreads
  obtain ⟨more, hmore⟩ := hreads
  rw [List.append_assoc] at hmore
  obtain ⟨later, hlater, -⟩ := frames_eq_append hds hdone hmore.symm
  unfold Safe
  rw [hdelivered, hlater, List.filter_append]
  exact List.prefix_append _ _

/-- With no whole frame pending, everything read was sent. -/
theorem Parsed.done (hds : ∀ d ∈ ds, d.length < 65536) (h : Parsed r pending w.trace)
    (hpending : Incomplete pending) : Done r ds w := by
  intro _ hall
  obtain ⟨done, hdone, hread, hdelivered⟩ := h
  rw [hread, List.append_assoc] at hall
  have hframes := List.append_cancel_left hall
  rw [hdelivered, frames_eq_of_incomplete hds hdone hframes.symm hpending]

theorem Parsed.read (h : Parsed r pending w.trace) {e : Event kind.object} {rr : RecvResult}
    (he : IsRead Fd.client rr e) : Parsed r (pending ++ rr.data) (w.push e).trace := by
  obtain ⟨done, hdone, hread, hdelivered⟩ := h
  refine ⟨done, hdone, ?_, ?_⟩
  · rw [World.push_trace, readFrom_append, readFrom_single he.heard_self, hread]
    simp
  · unfold delivered at hdelivered ⊢
    rw [World.push_trace, sends_append, sends_other (he.wrote_none _), List.append_nil]
    exact hdelivered

theorem Parsed.call (h : Parsed r pending w.trace) (f : Mem → Mem × List (Syscall Fd)) :
    Parsed r pending (w.call f).trace := by
  obtain ⟨done, hdone, hread, hdelivered⟩ := h
  refine ⟨done, hdone, ?_, ?_⟩
  · rw [readFrom, chunksFrom, answers_call]
    exact hread
  · rw [delivered, sends_call]
    exact hdelivered

/-- An empty frame at the front of what is pending is skipped. -/
theorem Parsed.skip {tr : List (Event kind.object)} (h : Parsed r (frame [] ++ pending) tr) :
    Parsed r pending tr := by
  obtain ⟨done, hdone, hread, hdelivered⟩ := h
  refine ⟨done ++ [[]], ?_, ?_, ?_⟩
  · intro d hd
    rcases List.mem_append.1 hd with hd | hd
    · exact hdone d hd
    · rw [List.mem_singleton.1 hd]
      exact Nat.zero_lt_succ _
  · rw [hread]
    simp
  · rw [hdelivered, List.filter_append]
    simp

/-- The datagram of any other is sent. -/
theorem Parsed.send {d : Bytes} (hd : d.length < 65536) (hne : d ≠ [])
    (h : Parsed r (frame d ++ pending) w.trace) (answer : (NetOp.send Fd.target d).Res) :
    Parsed r pending (w.push (.io (O := kind.object) (.inl (.send .target d)) answer)).trace := by
  obtain ⟨done, hdone, hread, hdelivered⟩ := h
  have hquiet := (isWrite_send (K := kind) Fd.target d answer).heard_none Fd.client
  refine ⟨done ++ [d], ?_, ?_, ?_⟩
  · intro x hx
    rcases List.mem_append.1 hx with hx | hx
    · exact hdone x hx
    · rw [List.mem_singleton.1 hx]
      exact hd
  · rw [World.push_trace, readFrom_append, readFrom_other hquiet, List.append_nil, hread]
    simp
  · unfold delivered at hdelivered ⊢
    rw [World.push_trace, sends_append, List.map_append, hdelivered, List.filter_append]
    simp [sends, sent, hne]

/-! ## The target task -/

variable (cfg : Config)

theorem keeps_call {f : Mem → Mem × List (Syscall Fd)}
    (hstarted : (f w.mem).1.targetTaskStarted = w.mem.targetTaskStarted)
    (hread : (f w.mem).1.clientReadDone = w.mem.clientReadDone)
    (hclosed : w.mem.clientReadDone = false → (f w.mem).1.closed = w.mem.closed)
    (hremaining : (f w.mem).1.handshakeRemaining = w.mem.handshakeRemaining) :
    Keeps w (w.call f) :=
  ⟨sends_call _ _ _, answers_call _ _ _, hstarted, hread, hclosed, hremaining⟩

theorem keeps_push {e : Event kind.object} (hheard : heard (K := kind) Fd.client e = none)
    (hwrote : wrote (K := kind) Fd.target e = none) : Keeps w (w.push e) where
  sends := by simp [sends_other hwrote]
  answers := by simp [answers_other hheard]
  started := rfl
  clientReadDone := rfl
  closed := fun _ => rfl
  remaining := rfl

theorem targetAside : TargetAside (contract r ds) fun w => w.mem.targetTaskStarted = true where
  rely _ _ hw hr := rely_target hr hw
  parked _ _ := nofun
  call f w hw hf := by
    obtain ⟨visionWriter, visionCtx, closed, targetReadDone, hmem, hclosed⟩ := hf
    have hkeeps : Keeps w (w.call f) := by
      refine keeps_call ?_ ?_ (fun hread => ?_) ?_
      · rw [hmem]
      · rw [hmem]
      · rw [hmem]
        exact hclosed hread
      · rw [hmem]
    exact ⟨⟨hw, hkeeps⟩, hkeeps.started.trans hw⟩
  push _ _ hw hheard hwrote := ⟨⟨hw, keeps_push hheard hwrote⟩, hw⟩

theorem wp_targetTask (hw : w.mem.targetTaskStarted = true) :
    wp (contract r ds) Task.targetTask (targetTask cfg)
      (fun _ => (contract r ds).post Task.targetTask) w :=
  wp_mono (targetAside.wp_targetTask hw) fun _ _ _ => nofun

/-! ## The client task, up to the relay -/

theorem guar_client (hsafe : Safe ds w.trace → Safe ds w'.trace)
    (hs : w.mem.targetTaskStarted = true → w'.mem.targetTaskStarted = true) :
    (contract r ds).guar Task.clientTask w w' := ⟨hsafe, hs⟩

theorem safe_call (f : Mem → Mem × List (Syscall Fd)) (h : Safe ds w.trace) :
    Safe ds (w.call f).trace := by
  unfold Safe delivered
  rw [sends_call]
  exact h

theorem Waiting.safe (h : Waiting w) : Safe ds w.trace := by
  unfold Safe
  rw [h.delivered]
  exact List.nil_prefix

theorem done_of_waiting (h : w.mem.targetTaskStarted = false) : Done r ds w := by
  intro hs
  exact absurd hs (by simp [h])

theorem handshakes : Handshake.Handshakes (contract r ds) Waiting where
  alone w w' hw hr := absurd (rely_client hr).1 (by simp [hw.started])
  parked o w hw _ _ _ := done_of_waiting hw.started
  guar w w' hw hw' _ := guar_client (fun _ => hw'.safe) fun hs => absurd hs (by simp [hw.started])
  push w e hw _ hwrote _ _ := by
    refine ⟨hw.started, hw.closed, hw.clientReadDone, ?_⟩
    unfold delivered
    rw [World.push_trace, sends_append, sends_other (hwrote _), List.append_nil]
    exact hw.delivered
  modify w f hw hf := by
    obtain ⟨stream, remaining, hf⟩ := hf w.mem
    refine ⟨?_, ?_, ?_, ?_⟩
    · simpa only [World.call_mem, hf] using hw.started
    · simpa only [World.call_mem, hf] using hw.closed
    · simpa only [World.call_mem, hf] using hw.clientReadDone
    · unfold delivered
      rw [sends_call]
      exact hw.delivered

/-- Between the handshake and the relay the client is not read and the target not written. -/
def Between : ObjOp kind.object → Prop
  | .member f => ∀ s, (f s).1 = s ∨ (f s).1 = { s with targetFd := some .target }
  | .io (.inl o) => ¬ o.Reads .client ∧ ¬ o.Writes .target
  | .spawn _ => False
  | _ => True

theorem between_of_connects (op : ObjOp kind.object) (h : Connects op) : Between op := by
  match op with
  | .get => trivial
  | .member _ => exact fun s => (h s).1
  | .io (.inl _) => exact ⟨h.1 _, h.2.1 _⟩
  | .io (.inr _) => trivial
  | .spawn _ => exact h

theorem only_respond (version : UInt8) : Only Between (sendResponseAndKey cfg version) :=
  only_response cfg version trivial
    (fun _ ho => ⟨fun hreads => hreads.not_writes ho, fun h => nomatch ho.unique h⟩) fun _ => trivial

theorem frame_between : Frame (contract r ds) Task.clientTask Between (Accepted r) where
  rely _ _ hw hr := absurd (rely_client hr).1 (by simp [hw.started])
  parked _ _ _ _ hw _ _ := done_of_waiting hw.started
  member f w hf hw _ := by
    have hnext : Accepted r (w.call f) := by
      have hdelivered : delivered (w.call f).trace = [] := by
        unfold delivered
        rw [sends_call]
        exact hw.delivered
      have hread : readFrom (K := kind) Fd.client (w.call f).trace =
          r.header ++ w.mem.handshakeRemaining := by
        rw [readFrom, chunksFrom, answers_call]
        exact hw.read
      have hmem : (w.call f).mem = w.mem ∨
          (w.call f).mem = { w.mem with targetFd := some .target } := hf w.mem
      rcases hmem with hmem | hmem
      · exact ⟨⟨hmem ▸ hw.started, hmem ▸ hw.closed, hmem ▸ hw.clientReadDone, hdelivered⟩,
          hmem ▸ hread⟩
      · exact ⟨⟨hmem ▸ hw.started, hmem ▸ hw.closed, hmem ▸ hw.clientReadDone, hdelivered⟩,
          hmem ▸ hread⟩
    exact ⟨guar_client (fun _ => hnext.safe) fun hs => absurd hs (by simp [hw.started]), hnext⟩
  io o answer w ho hw _ := by
    have hquiet : heard (K := kind) Fd.client (.io (O := kind.object) o answer) = none ∧
        wrote (K := kind) Fd.target (.io (O := kind.object) o answer) = none := by
      cases o with
      | inl o => exact ⟨heard_eq_none ho.1 answer, wrote_eq_none ho.2 answer⟩
      | inr o =>
          have h := isQuiet_ext (K := kind) o answer
          exact ⟨h.heard_none _, h.wrote_none _⟩
    have hnext : Accepted r (w.answer o answer) := by
      refine ⟨⟨hw.started, hw.closed, hw.clientReadDone, ?_⟩, ?_⟩
      · unfold delivered
        rw [World.answer_trace, sends_append, sends_other hquiet.2, List.append_nil]
        exact hw.delivered
      · rw [World.answer_trace, readFrom_append, readFrom_other hquiet.1, List.append_nil]
        exact hw.read
    exact ⟨guar_client (fun _ => hnext.safe) fun hs => absurd hs (by simp [hw.started]), hnext⟩
  spawn _ _ h := h.elim

theorem Accepted.parsed (hw : Accepted r w) : Parsed r w.mem.handshakeRemaining w.trace := by
  refine ⟨[], nofun, ?_, hw.delivered⟩
  rw [frames_nil, List.append_nil]
  exact hw.read

theorem wp_startTargetTask (hw : Accepted r w) :
    wp (contract r ds) Task.clientTask startTargetTask (Returns fun _ w' =>
      Running w' ∧ Parsed r w'.mem.handshakeRemaining w'.trace) w := by
  refine wp_bind (wp_member fun _ => ⟨guar_client (safe_call _) fun _ => rfl, wp_spawn fun _ => ?_⟩)
  set w₁ := w.call fun s => ({ s with targetTaskStarted := true }, []) with hw₁
  have hquiet := isQuiet_spawned (K := kind) Task.targetTask
  have hkeeps : Keeps w₁ (w₁.start .targetTask) :=
    keeps_push (hquiet.heard_none _) (hquiet.wrote_none _)
  have hrunning : Running w₁ := ⟨rfl, hw.closed, hw.clientReadDone⟩
  have hparsed : Parsed r w₁.mem.handshakeRemaining w₁.trace := hw.parsed.call _
  refine ⟨guar_client hkeeps.safe fun _ => rfl, rfl, fun w₂ hl => ?_⟩
  induction hl with
  | refl => exact ⟨hkeeps.running hrunning, hkeeps.parsed hparsed⟩
  | tail _ hr ih =>
      have hkeeps := (rely_client hr).2
      exact ⟨hkeeps.running ih.1, hkeeps.remaining ▸ hkeeps.parsed ih.2⟩

/-! ## The relay -/

theorem byteAt_drop (bs : Bytes) (offset i : Nat) (h : i < (bs.drop offset).length) :
    byteAt bs (offset + i) = pure ((bs.drop offset).getD i 0) := by
  rw [List.length_drop] at h
  unfold byteAt
  rw [List.getD_eq_getElem?_getD, List.getElem?_drop, List.getElem?_eq_getElem (by omega)]
  rfl

/-- A round that finds no whole frame ends the loop. -/
theorem sendPacket_incomplete {offset : Nat} (hle : offset ≤ pending.length)
    (h : Incomplete (pending.drop offset)) : sendPacket pending offset = pure (.inr (some offset)) := by
  have hleft : (pending.drop offset).length = pending.length - offset := List.length_drop
  rw [sendPacket, sizeSub, if_pos hle, Coro.pure_bind']
  by_cases htwo : 2 ≤ pending.length - offset
  · have hhi := byteAt_drop pending offset 0 (by omega)
    have hlo := byteAt_drop pending offset 1 (by omega)
    rw [Nat.add_zero] at hhi
    rw [if_pos htwo, hhi, hlo]
    simp only [Coro.pure_bind']
    rw [if_pos]
    rcases h with h | h
    · omega
    · omega
  · rw [if_neg htwo]

/-- A round that finds a frame sends its datagram, and no byte outside `pending` is looked at. -/
theorem sendPacket_frame {offset : Nat} {d rest : Bytes} (hle : offset ≤ pending.length)
    (hd : d.length < 65536) (h : pending.drop offset = frame d ++ rest) :
    sendPacket pending offset = if d = [] then pure (.inl (offset + 2)) else do
      let written ← targetStream.writeFull (K := kind) d
      if written ≤ 0 then return .inr none else return .inl (offset + (2 + d.length)) := by
  have hleft : (pending.drop offset).length = pending.length - offset := List.length_drop
  have hlen : (pending.drop offset).length = 2 + d.length + rest.length := by simp [h]
  unfold sendPacket
  have hhi := byteAt_drop pending offset 0 (by omega)
  have hlo := byteAt_drop pending offset 1 (by omega)
  rw [Nat.add_zero] at hhi
  rw [sizeSub, if_pos hle, Coro.pure_bind', if_pos (by omega), hhi, hlo]
  simp only [Coro.pure_bind']
  rw [h, frame_getD hd, if_neg (by omega)]
  by_cases hne : d = []
  · rw [if_pos hne, hne]
    rfl
  · have hpos := List.length_pos_iff.2 hne
    have hpacket : (pending.drop (offset + 2)).take d.length = d := by
      rw [← List.drop_drop, h, frame]
      simp [beBytes]
    rw [if_pos hpos, if_neg hne, bytesAt, if_pos (by omega), hpacket, Coro.pure_bind']

theorem stays_parsed (hds : ∀ d ∈ ds, d.length < 65536) (hpending : Incomplete pending) :
    Stays (contract r ds) Task.clientTask (NetOp.Reads .client) fun w =>
      Parsed r pending w.trace ∧ Running w := by
  refine ⟨fun w w' hw hr => ?_, fun o w _ hw _ _ => hw.1.done hds hpending⟩
  have hkeeps := (rely_client hr).2
  exact ⟨hkeeps.parsed hw.1, hkeeps.running hw.2⟩

/-- While a datagram is sent, anything may be pending. -/
theorem stays_sending (I : Bytes → Prop) :
    Stays (contract r ds) Task.clientTask (NetOp.Writes .target) fun w =>
      (∃ pending, I pending ∧ Parsed r pending w.trace) ∧ Running w := by
  refine ⟨fun w w' hw hr => ?_, fun o w ho _ _ h => absurd ho (h o rfl)⟩
  have hkeeps := (rely_client hr).2
  obtain ⟨⟨pending, hI, hparsed⟩, hrunning⟩ := hw
  exact ⟨⟨pending, hI, hkeeps.parsed hparsed⟩, hkeeps.running hrunning⟩

/-- A datagram is sent at once. -/
theorem wp_sendDatagram (hds : ∀ d ∈ ds, d.length < 65536) {d rest : Bytes}
    (hd : d.length < 65536) (hne : d ≠ [])
    (hw : Parsed r (frame d ++ rest) w.trace ∧ Running w) :
    wp (contract r ds) Task.clientTask (targetStream.writeFull (K := kind) d) (Returns fun n w' =>
      0 < n ∧ Parsed r rest w'.trace ∧ Running w') w := by
  have hpos := List.length_pos_iff.2 hne
  refine wp_loop (fun offset w => (offset = 0 ∧ Parsed r (frame d ++ rest) w.trace ∨
    offset = d.length ∧ Parsed r rest w.trace) ∧ Running w) ⟨.inl ⟨rfl, hw.1⟩, hw.2⟩ ?_
  rintro offset w ⟨⟨hoffset, hparsed⟩ | ⟨hoffset, hparsed⟩, hrunning⟩
  · rw [hoffset, if_pos hpos, List.drop_zero]
    refine wp_bind (wp_net rfl (stays_sending fun pending => pending = frame d ++ rest)
      (show (NetOp.send Fd.target d).Writes .target from rfl) ⟨⟨_, rfl, hparsed⟩, hrunning⟩ ?_)
    intro w answer ⟨⟨_, hpending, hparsed⟩, hrunning⟩ henv
    rw [hpending] at hparsed
    have hnext := hparsed.send hd hne answer
    refine ⟨guar_client (fun _ => hnext.safe hds henv) fun hs => hs, ?_⟩
    have hall : answer.1 = d.length := by
      refine henv.accepted (d, answer.1) ?_
      rw [World.push_trace, sends_append]
      simp [sends, sent]
    have haccepted : ¬ answer.1 ≤ 0 := by omega
    simp only [haccepted, if_false, wp_pure]
    exact ⟨.inr ⟨by omega, hnext⟩, hrunning.started, hrunning.closed, hrunning.clientReadDone⟩
  · rw [hoffset, if_neg (Nat.lt_irrefl _)]
    exact ⟨by omega, hparsed, hrunning⟩

/-- `sendPackets` sends every whole frame and answers where the incomplete one starts. -/
theorem wp_sendPackets (hds : ∀ d ∈ ds, d.length < 65536) (pending : Bytes)
    (hw : Parsed r pending w.trace ∧ Running w) :
    wp (contract r ds) Task.clientTask (sendPackets pending) (Returns fun out w' =>
      ∃ offset, out = some offset ∧ offset ≤ pending.length ∧ Incomplete (pending.drop offset) ∧
        Parsed r (pending.drop offset) w'.trace ∧ Running w') w := by
  refine wp_loop (fun offset w => offset ≤ pending.length ∧
    Parsed r (pending.drop offset) w.trace ∧ Running w) ⟨Nat.zero_le _, by simpa using hw⟩ ?_
  intro offset w ⟨hle, hparsed, hrunning⟩
  by_cases hincomplete : Incomplete (pending.drop offset)
  · rw [sendPacket_incomplete hle hincomplete]
    exact ⟨offset, rfl, hle, hincomplete, hparsed, hrunning⟩
  · obtain ⟨d, rest, hd, hsplit⟩ := exists_frame_append hincomplete
    have hlen : (pending.drop offset).length = 2 + d.length + rest.length := by simp [hsplit]
    rw [List.length_drop] at hlen
    have hnext : pending.drop (offset + (2 + d.length)) = rest := by
      rw [← List.drop_drop, hsplit]
      simp
    rw [hsplit] at hparsed
    rw [sendPacket_frame hle hd hsplit]
    by_cases hne : d = []
    · rw [if_pos hne]
      rw [hne] at hparsed hnext
      exact ⟨by omega, hnext ▸ hparsed.skip, hrunning⟩
    · rw [if_neg hne]
      refine wp_then (wp_sendDatagram hds hd hne ⟨hparsed, hrunning⟩) ?_
      intro n w ⟨hn, hparsed, hrunning⟩
      rw [if_neg (by omega)]
      exact ⟨by omega, hnext ▸ hparsed, hrunning⟩

theorem wp_relayUdpClientToTarget (hds : ∀ d ∈ ds, d.length < 65536)
    (hw : Running w ∧ Parsed r w.mem.handshakeRemaining w.trace) :
    wp (contract r ds) Task.clientTask (relayUdpClientToTarget cfg) (Returns fun _ => Done r ds) w := by
  refine wp_bind (wp_update (O := kind.object) fun _ =>
    ⟨guar_client (safe_call _) fun hs => hs, ?_⟩)
  refine wp_loop (fun pending w => Parsed r pending w.trace ∧ Running w)
    ⟨hw.2.call _, hw.1.started, hw.1.closed, hw.1.clientReadDone⟩ ?_
  intro pending w hw
  refine wp_get_seq (O := kind.object) ?_
  rw [if_neg (by simp [hw.2.closed])]
  refine wp_then (wp_sendPackets hds pending hw) ?_
  rintro _ w ⟨offset, rfl, -, hincomplete, hparsed, hrunning⟩
  show wp _ _ (if 0 < offset then _ else _) _ _
  by_cases hpos : 0 < offset
  · rw [if_pos hpos]
    exact ⟨hparsed, hrunning⟩
  · rw [if_neg hpos]
    obtain rfl : offset = 0 := by omega
    rw [List.drop_zero] at hincomplete hparsed
    have hstays := stays_parsed (r := r) hds hincomplete
    rw [← clientStream_fd cfg] at hstays
    refine wp_then (R := fun rr w' => Parsed r (pending ++ rr.data) w'.trace ∧ Running w')
      (NetStream.wp_read _ _ hstays ⟨hparsed, hrunning⟩ ?_) ?_
    · intro w e rr ⟨hparsed, hrunning⟩ he _ henv
      rw [clientStream_fd] at he
      have hnext := hparsed.read he
      refine ⟨guar_client (fun _ => hnext.safe hds henv) fun hs => hs, hnext, ?_⟩
      exact ⟨hrunning.started, hrunning.closed, hrunning.clientReadDone⟩
    · intro rr w ⟨hparsed, hrunning⟩
      have hend : rr.ok = false → Done r ds w := by
        intro hok
        rw [RecvResult.data_eq_nil_of_not_ok hok, List.append_nil] at hparsed
        exact hparsed.done hds hincomplete
      cases heof : rr.eof with
      | true => exact hend (by simp [rr.ok_eq, heof])
      | false =>
          cases herr : rr.error with
          | true => exact hend (by simp [rr.ok_eq, herr])
          | false => exact ⟨hparsed, hrunning⟩

theorem wp_runUdpSession (hds : ∀ d ∈ ds, d.length < 65536) (hw : Accepted r w) :
    wp (contract r ds) Task.clientTask (runUdpSession cfg r.req) (fun _ => Done r ds) w := by
  rw [runUdpSession, if_neg (by simp [r.flow, r.wf.encryption_eq])]
  refine wp_seq (wp_of_uses frame_between (only_respond cfg _) hw) ?_
    fun _ _ hw => done_of_waiting hw.started
  intro sent w hw
  cases sent with
  | false => exact done_of_waiting hw.started
  | true =>
      refine wp_seq (wp_of_uses frame_between ((only_connectTarget r.req).mono between_of_connects)
        hw) ?_ fun _ _ hw => done_of_waiting hw.started
      intro connected w hw
      cases connected with
      | false => exact done_of_waiting hw.started
      | true =>
          refine wp_then (wp_startTargetTask hw) ?_
          intro _ w hw
          exact wp_returns (wp_relayUdpClientToTarget cfg hds hw) fun _ _ hw => hw

theorem wp_clientTask (hds : ∀ d ∈ ds, d.length < 65536) (r : UdpRequest cfg.validator)
    (henv : Env r ds w.trace) (hmem : w.mem = {}) (htrace : w.trace = []) :
    wp (contract r ds) Task.clientTask (clientTask cfg)
      (fun _ => (contract r ds).post Task.clientTask) w := by
  have hwaiting : Waiting w := by
    refine ⟨by rw [hmem], by rw [hmem], by rw [hmem], ?_⟩
    rw [htrace]
    rfl
  refine Handshake.wp_clientTask cfg handshakes (fun _ h => h.reads) r.wf henv hmem htrace hwaiting (D := Done r ds) ?_ ?_ ?_
  · exact fun w hw _ => done_of_waiting hw.started
  · intro w hw _ hread
    refine ⟨guar_client (safe_call _) fun hs => hs, ?_⟩
    rw [dispatch, r.command]
    refine wp_runUdpSession cfg hds ⟨⟨hw.started, hw.closed, hw.clientReadDone, ?_⟩, ?_⟩
    · rw [delivered, sends_call]
      exact hw.delivered
    · rw [readFrom, chunksFrom, answers_call]
      exact hread
  · intro w hw
    have hstarted : (finishClientTask w.mem).1.targetTaskStarted = w.mem.targetTaskStarted := by
      simp only [finishClientTask]
      split
      · rfl
      · split <;> rfl
    refine ⟨guar_client (safe_call _) fun hs => hstarted.trans hs, fun _ hs => ?_⟩
    rw [readFrom, chunksFrom, answers_call, delivered, sends_call]
    exact hw (hstarted.symm.trans hs)

theorem meets (cfg : Config) (r : UdpRequest cfg.validator) (hds : ∀ d ∈ ds, d.length < 65536)
    (t : Task) (w : World kind.object) (hpre : (contract r ds).pre t w) (henv : Env r ds w.trace) :
    wp (contract r ds) t (body cfg t) (fun _ => (contract r ds).post t) w := by
  cases t with
  | clientTask => exact wp_clientTask cfg hds r henv hpre.1 hpre.2
  | targetTask => exact wp_targetTask cfg hpre

/-! ## The parse loop -/

section Eval

open Coro

variable {σ : Type} (h : (op : kind.object.sig.Op) → σ → kind.object.sig.Res op × σ)

/-- A plain `writeFull` returns, whatever the sends answer. -/
theorem eval_writeFull (data : Bytes) (s : σ) :
    ∃ n s', Eval h (targetStream.writeFull (K := kind) data) s (.ok n) s' := by
  have hends : ∃ n s', Eval h (targetStream.writeFull (K := kind) data) s (.ok n) s' ∧ True := by
    refine Eval.loop_ends (P := fun _ => True) (Q := fun _ => True) (fun offset => data.length - offset) ?_ trivial s
    intro offset s _
    by_cases hlt : offset < data.length
    · rw [if_pos hlt]
      have hsend := Eval.await (h := h) (ε := Exn)
        (ObjOp.io (O := kind.object) (.inl (.send .target (data.drop offset)))) s
      set next := h (ObjOp.io (O := kind.object) (.inl (.send .target (data.drop offset)))) s
      by_cases hfailed : next.1.1 ≤ 0
      · refine .inr ⟨if 0 < offset then (offset : Int) else next.1.1, next.2, hsend.bind ?_, trivial⟩
        rw [if_pos hfailed]
        exact .done _ _
      · refine .inl ⟨offset + next.1.1.toNat, next.2, hsend.bind ?_, trivial, ?_⟩
        · rw [if_neg hfailed]
          exact .done _ _
        · show data.length - (offset + next.1.1.toNat) < data.length - offset
          omega
    · rw [if_neg hlt]
      exact .inr ⟨_, _, .done _ _, trivial⟩
  obtain ⟨n, s', hev, -⟩ := hends
  exact ⟨n, s', hev⟩

/-- **The parse loop ends**, whatever the sends answer, and stays within `pending`; a second pass over
    what it leaves does nothing. -/
theorem sendPackets_returns (pending : Bytes) (s : σ) :
    ∃ out s', Eval h (sendPackets pending) s (.ok out) s' ∧
      ∀ offset, out = some offset → offset ≤ pending.length ∧
        Eval h (sendPackets (pending.drop offset)) s' (.ok (some 0)) s' := by
  have hends : ∃ out s', Eval h (sendPackets pending) s (.ok out) s' ∧
      ∀ offset, out = some offset → offset ≤ pending.length ∧ Incomplete (pending.drop offset) := by
    refine Eval.loop_ends (P := fun offset => offset ≤ pending.length)
      (Q := fun out => ∀ offset, out = some offset →
        offset ≤ pending.length ∧ Incomplete (pending.drop offset))
      (fun offset => pending.length - offset) ?_ (Nat.zero_le _) s
    intro offset s hle
    by_cases hincomplete : Incomplete (pending.drop offset)
    · rw [sendPacket_incomplete hle hincomplete]
      refine .inr ⟨_, _, .done _ _, ?_⟩
      rintro _ ⟨⟩
      exact ⟨hle, hincomplete⟩
    · obtain ⟨d, rest, hd, hsplit⟩ := exists_frame_append hincomplete
      have hlen : (pending.drop offset).length = 2 + d.length + rest.length := by simp [hsplit]
      rw [List.length_drop] at hlen
      rw [sendPacket_frame hle hd hsplit]
      by_cases hne : d = []
      · rw [if_pos hne]
        exact .inl ⟨_, _, .done _ _, by omega, by omega⟩
      · rw [if_neg hne]
        obtain ⟨n, s', hev⟩ := eval_writeFull h d s
        by_cases hn : n ≤ 0
        · refine .inr ⟨none, s', hev.bind ?_, nofun⟩
          rw [if_pos hn]
          exact .done _ _
        · refine .inl ⟨offset + (2 + d.length), s', hev.bind ?_, by omega, by omega⟩
          rw [if_neg hn]
          exact .done _ _
  obtain ⟨out, s', hev, hout⟩ := hends
  refine ⟨out, s', hev, fun offset hoffset => ?_⟩
  obtain ⟨hle, hincomplete⟩ := hout offset hoffset
  refine ⟨hle, .loop_last ?_⟩
  rw [sendPacket_incomplete (Nat.zero_le _) (by rwa [List.drop_zero])]
  exact .done _ _

end Eval

/-- `clientTask` waits for a write to the target. -/
def Sending (p : Pool kind.object) : Prop :=
  ∃ (o : NetOp Fd) (k : o.Res → Code Unit),
    p.frames Task.clientTask = some (.op (.io (O := kind.object) (.inl o)) k) ∧ o.Writes .target

end UdpUplink

/-- **A UDP session sends what was framed.** Let the client send the header and the frames of `ds`,
    empty ones among them, in whatever pieces, and let the target's socket accept a datagram whole.
    In every reachable state the datagrams sent are the first non-empty ones of `ds`, each sent
    once. Whenever the event loop has control, no send is under way and everything was read by a
    session that has started, all of them were sent. The loop over `pending` ends, without an
    access outside of it. -/
theorem udp_uplink (cfg : Config) (r : UdpRequest cfg.validator) (ds : List Bytes)
    (hds : ∀ d ∈ ds, d.length < 65536) {p : Pool kind.object} (hp : Reachable cfg p)
    (hclient : readFrom (K := kind) Fd.client p.world.trace <+: r.header ++ frames ds)
    (haccepted : ∀ x ∈ sends (K := kind) Fd.target p.world.trace, x.2 = x.1.length) :
    UdpUplink.delivered p.world.trace <+: ds.filter (fun d => d ≠ []) ∧
      (p.stack = [] → ¬ UdpUplink.Sending p → p.world.mem.targetTaskStarted = true →
        readFrom (K := kind) Fd.client p.world.trace = r.header ++ frames ds →
        UdpUplink.delivered p.world.trace = ds.filter fun d => d ≠ []) ∧
      ∀ (σ : Type) (h : (op : kind.object.sig.Op) → σ → kind.object.sig.Res op × σ)
        (pending : Bytes) (s : σ), ∃ out s', Coro.Eval h (sendPackets pending) s (.ok out) s' ∧
          ∀ offset, out = some offset → offset ≤ pending.length ∧
            Coro.Eval h (sendPackets (pending.drop offset)) s' (.ok (some 0)) s' := by
  have henv : UdpUplink.Env r ds p.world.trace := ⟨hclient, haccepted⟩
  have hfresh : (UdpUplink.contract r ds).pre Task.clientTask ⟨{}, []⟩ := ⟨rfl, rfl⟩
  have hmeets := UdpUplink.meets cfg r hds
  refine ⟨?_, fun hstack hidle => ?_, fun σ h pending s =>
    UdpUplink.sendPackets_returns h pending s⟩
  · refine Contract.invariant UdpUplink.stable hmeets hfresh (fun w => UdpUplink.Safe ds w.trace)
      List.nil_prefix ?_ hp henv
    intro t w w' hguar _ hw
    cases t with
    | clientTask => exact hguar.1 hw
    | targetTask => exact hguar.2.safe hw
  · have hsound := Contract.sound UdpUplink.stable hmeets hfresh hp henv
    have hstarted := (frames_ne_none_iff (O := kind.object) hp Task.clientTask).2 (.inl rfl)
    rcases hsound.suspended_or_finished hstack hstarted with hsuspended | hfinished
    · obtain ⟨-, o, k, hframe, hs⟩ := hsuspended
      refine hsound.parked hframe hs rfl ?_
      rintro o rfl hwrites
      exact hidle ⟨o, k, hframe, hwrites⟩
    · exact hsound.post hfinished rfl

/-- A request for a UDP session. -/
def plainUdpRequest : Request :=
  { uuid := List.Vector.replicate 16 0, command := .udp, port := 53,
    address := .ipv4 (.cons 127 (.cons 0 (.cons 0 (.cons 1 .nil)))) }

def plainUdpHeader : Bytes :=
  [0] ++ List.replicate 16 0 ++ [0, 2, 0, 53, 1, 127, 0, 0, 1]

def plainUdp : UdpRequest plainServer.validator where
  header := plainUdpHeader
  req := plainUdpRequest
  wf := by
    have hencode : Encoder.encodeRequest plainUdpRequest = .ok plainUdpHeader := by decide
    exact Encoder.encodeRequest_header (.inr rfl) (by decide) hencode
  command := rfl
  flow := rfl

/-- A run in which the first piece ends within a length and an empty frame stands between two
    datagrams. -/
def plainUdpRun : Pool kind.object :=
  sampleRun plainServer [plainUdpHeader ++ [0], [2, 7, 8, 0, 0, 0], [1, 9]] []
    (List.replicate 9 Task.clientTask)

theorem plainUdpRun_idle : ¬ UdpUplink.Sending plainUdpRun := by
  rintro ⟨o, k, hframe, -⟩
  have hdone : plainUdpRun.awaits Task.clientTask = none := by decide +kernel
  rw [Pool.awaits, hframe] at hdone
  cases hdone

theorem plainUdpRun_reachable : Reachable plainServer plainUdpRun :=
  sampleRun_reachable plainServer _ _ _

theorem plainUdpRun_sent : UdpUplink.delivered plainUdpRun.world.trace = [[7, 8], [9]] :=
  (udp_uplink plainServer plainUdp [[7, 8], [], [9]] (by decide) plainUdpRun_reachable
    (by decide +kernel) (by decide +kernel)).2.1 (by decide +kernel) plainUdpRun_idle
    (by decide +kernel) (by decide +kernel)

end VlessConnection

end Cppvless
