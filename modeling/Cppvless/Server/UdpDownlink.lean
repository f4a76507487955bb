import Cppvless.Server.UdpUplink

set_option autoImplicit false

/-! # Datagrams from the target

`relayUdpTargetToClient` frames what it reads from the target's socket. It reads the socket through
the stream convention, by which a read of length zero is the end: an empty datagram therefore ends
the session, and is the only datagram that does. -/

namespace Cppvless

open Coroutine

namespace VlessConnection

namespace UdpDownlink

variable {validator : Validator} (r : UdpRequest validator) (payload : Bytes)

/-- The client sends the header and `payload` and takes whatever it is sent. Every read of the
    target's socket answers a datagram. -/
structure Env (tr : List (Event kind.object)) : Prop where
  reads : readFrom (K := kind) Fd.client tr <+: r.header ++ payload
  writes : ¬ WriteFailed (K := kind) Fd.client tr
  datagrams : ∀ rr ∈ answers (K := kind) Fd.target tr, rr.error = false ∧ rr.data.length ≤ 65507

/-- Of the response and the frames of the non-empty datagrams read, `pending` is not written yet. -/
def Owes (pending : Bytes) (tr : List (Event kind.object)) : Prop :=
  wroteTo (K := kind) Fd.client tr ++ pending =
    [0, 0] ++ frames (chunksFrom (K := kind) Fd.target tr)

/-- Whatever the order of events: only such frames are written, in order, and only an empty datagram
    makes the server cut the client off. -/
structure Safe (tr : List (Event kind.object)) : Prop where
  written : wroteTo (K := kind) Fd.client tr <+:
    [0, 0] ++ frames (chunksFrom (K := kind) Fd.target tr)
  uncut : CutOff (K := kind) Fd.client tr → EofOn (K := kind) Fd.target tr
  started : answers (K := kind) Fd.target tr ≠ [] → Event.spawned Task.targetTask ∈ tr

/-- The session of the target task is up. -/
structure Up (w : World kind.object) : Prop where
  started : w.mem.targetTaskStarted = true
  closed : w.mem.closed = false
  targetReadDone : w.mem.targetReadDone = false
  targetFd : w.mem.targetFd = some .target
  command : w.mem.command = .udp
  spawned : Event.spawned Task.targetTask ∈ w.trace

/-- `clientTask`, before it starts the target task, has to write `pending`. -/
structure Waiting (command : Command) (pending : Bytes) (w : World kind.object) : Prop where
  command : w.mem.command = command
  started : w.mem.targetTaskStarted = false
  closed : w.mem.closed = false
  targetReadDone : w.mem.targetReadDone = false
  targetFd : w.mem.targetFd ≠ some .client
  encryption : w.mem.useEncryption = false
  unread : answers (K := kind) Fd.target w.trace = []
  uncut : ¬ CutOff (K := kind) Fd.client w.trace
  owes : Owes pending w.trace

/-- The target task has to write `pending`. -/
structure Relaying (pending : Bytes) (w : World kind.object) : Prop where
  up : Up w
  owes : Owes pending w.trace
  noEof : ¬ EofOn (K := kind) Fd.target w.trace

/-- What has to be written to the client is up to the target task, once it is started. -/
def contract : Contract kind.object where
  env := Env r payload
  guar
    | .clientTask, w, w' =>
        answers (K := kind) Fd.target w'.trace = answers (K := kind) Fd.target w.trace ∧
          (Safe w.trace → Safe w'.trace) ∧ (Up w → Up w' ∧
            writes (K := kind) Fd.client w'.trace = writes (K := kind) Fd.client w.trace)
    | .targetTask, w, w' => w.mem.targetTaskStarted = true ∧ w'.mem.targetFd = w.mem.targetFd ∧
        (Safe w.trace → Safe w'.trace)
  parked t o w := t = Task.targetTask → Up w ∧ ¬ EofOn (K := kind) Fd.target w.trace ∧
    ∀ o', o = .inl o' → o'.Reads .target → Owes [] w.trace
  pre
    | .clientTask, w => w.mem = {} ∧ w.trace = []
    | .targetTask, w => Relaying [] w
  post t w := t = Task.targetTask → EofOn (K := kind) Fd.target w.trace

variable {r payload} {w w' : World kind.object} {tr : List (Event kind.object)}
  {e : Event kind.object} {pending : Bytes} {command : Command}

/-! ## What is owed -/

theorem Owes.written (h : Owes pending tr) : wroteTo (K := kind) Fd.client tr <+:
    [0, 0] ++ frames (chunksFrom (K := kind) Fd.target tr) := ⟨pending, h⟩

theorem Owes.congr {tr' : List (Event kind.object)} (h : Owes pending tr)
    (hanswers : answers (K := kind) Fd.target tr' = answers (K := kind) Fd.target tr)
    (hwrites : writes (K := kind) Fd.client tr' = writes (K := kind) Fd.client tr) :
    Owes pending tr' := by
  unfold Owes wroteTo chunksFrom
  rw [hanswers, hwrites]
  exact h

/-- A datagram that is read is owed. -/
theorem Owes.read {rr : RecvResult} (h : Owes [] tr) (he : IsRead Fd.target rr e)
    (hok : rr.ok = true) : Owes (frame rr.data) (tr ++ [e]) := by
  unfold Owes at h ⊢
  rw [List.append_nil] at h
  rw [wroteTo_append, wroteTo_other (he.wrote_none _), List.append_nil, h, chunksFrom_append,
    chunksFrom_single he.heard_self, if_pos hok, frames_append]
  simp

theorem Owes.write {out rest : Bytes} {failed : Bool} (h : Owes (out ++ rest) tr)
    (he : IsWrite Fd.client out failed e) : Owes rest (tr ++ [e]) := by
  unfold Owes at h ⊢
  rw [wroteTo_append, wroteTo_single he.wrote_self, chunksFrom_append,
    chunksFrom_other (he.heard_none _), List.append_nil, ← h]
  simp

/-- The client took what it was sent. -/
theorem not_failed {out : Bytes} {failed : Bool} (he : IsWrite Fd.client out failed e)
    (henv : Env r payload (tr ++ [e])) : failed = false := by
  cases failed with
  | false => rfl
  | true =>
      refine absurd ?_ henv.writes
      rw [writeFailed_append]
      exact .inr ((writeFailed_single he.wrote_self).2 rfl)

/-! ## Steps -/

/-- A step that does not touch what the client is sent. -/
theorem Safe.step {more : List (Event kind.object)} (h : Safe tr)
    (hwrites : writes (K := kind) Fd.client more = [])
    (hanswers : answers (K := kind) Fd.target more = [])
    (hcut : CutOff (K := kind) Fd.client more → EofOn (K := kind) Fd.target tr) :
    Safe (tr ++ more) where
  written := by
    rw [wroteTo, writes_append, hwrites, chunksFrom, answers_append, hanswers, List.append_nil,
      List.append_nil]
    exact h.written
  uncut hc := by
    rw [eofOn_append]
    rcases (cutOff_append _ _ _).1 hc with hc | hc
    · exact .inl (h.uncut hc)
    · exact .inl (hcut hc)
  started hs := by
    rw [answers_append, hanswers, List.append_nil] at hs
    exact List.mem_append_left more (h.started hs)

/-- `clientTask`, once the target task is there, stays on its own side. -/
theorem guar_client {more : List (Event kind.object)} (htrace : w'.trace = w.trace ++ more)
    (hwrites : writes (K := kind) Fd.client more = [])
    (hanswers : answers (K := kind) Fd.target more = [])
    (hcut : ¬ CutOff (K := kind) Fd.client more) (hup : Up w → Up w') :
    (contract r payload).guar Task.clientTask w w' := by
  refine ⟨?_, fun hw => ?_, fun hw => ⟨hup hw, ?_⟩⟩
  · rw [htrace, answers_append, hanswers, List.append_nil]
  · rw [htrace]
    exact hw.step hwrites hanswers fun hc => absurd hc hcut
  · rw [htrace, writes_append, hwrites, List.append_nil]

theorem guar_push (hwrote : wrote (K := kind) Fd.client e = none)
    (hheard : heard (K := kind) Fd.target e = none) (hcut : ¬ CutOff (K := kind) Fd.client [e]) :
    (contract r payload).guar Task.clientTask w (w.push e) := by
  refine guar_client rfl (by simp [writes, hwrote]) (answers_other hheard) hcut fun hw => ?_
  exact ⟨hw.started, hw.closed, hw.targetReadDone, hw.targetFd, hw.command,
    List.mem_append_left _ hw.spawned⟩

theorem guar_call {f : Mem → Mem × List (Syscall Fd)}
    (hcut : Syscall.shutdownRdWr Fd.client ∉ (f w.mem).2) (hup : Up w → Up (w.call f)) :
    (contract r payload).guar Task.clientTask w (w.call f) := by
  refine guar_client rfl (writes_sys _ _) (answers_sys _ _) ?_ hup
  rw [cutOff_sys]
  exact hcut

theorem rely_client (h : (contract r payload).rely Task.clientTask w w') :
    w.mem.targetTaskStarted = true ∧ w'.mem.targetFd = w.mem.targetFd := by
  obtain ⟨u, hu, hg, -⟩ := h
  cases u with
  | clientTask => exact absurd rfl hu
  | targetTask => exact ⟨hg.1, hg.2.1⟩

theorem rely_target (h : (contract r payload).rely Task.targetTask w w') :
    answers (K := kind) Fd.target w'.trace = answers (K := kind) Fd.target w.trace ∧ (Up w → Up w' ∧
      writes (K := kind) Fd.client w'.trace = writes (K := kind) Fd.client w.trace) := by
  obtain ⟨u, hu, hg, -⟩ := h
  cases u with
  | clientTask => exact ⟨hg.1, hg.2.2⟩
  | targetTask => exact absurd rfl hu

theorem stable : (contract r payload).Stable where
  env_prefix tr tr' h := by
    refine ⟨(readFrom_mono _ (List.prefix_append tr tr')).trans h.reads, ?_, ?_⟩
    · exact fun hf => h.writes ((writeFailed_append _ _ _).2 (.inl hf))
    · exact fun rr hr => h.datagrams rr (by simp [hr])
  parked t o w w' h hr ht := by
    subst ht
    obtain ⟨hanswers, hkeeps⟩ := rely_target hr
    obtain ⟨hup, hnoEof, howes⟩ := h rfl
    refine ⟨(hkeeps hup).1, ?_, fun o' ho hreads => ?_⟩
    · rw [EofOn, hanswers]
      exact hnoEof
    · exact (howes o' ho hreads).congr hanswers (hkeeps hup).2
  post t w w' h hr ht := by
    subst ht
    rw [EofOn, (rely_target hr).1]
    exact h rfl

/-! ## The target task -/

theorem Relaying.rely (h : Relaying pending w) (hr : (contract r payload).rely Task.targetTask w w') :
    Relaying pending w' := by
  obtain ⟨hanswers, hkeeps⟩ := rely_target hr
  refine ⟨(hkeeps h.up).1, h.owes.congr hanswers (hkeeps h.up).2, ?_⟩
  rw [EofOn, hanswers]
  exact h.noEof

theorem Up.push (h : Up w) : Up (w.push e) :=
  ⟨h.started, h.closed, h.targetReadDone, h.targetFd, h.command, List.mem_append_left _ h.spawned⟩

/-- Reading a datagram. -/
theorem Safe.read {rr : RecvResult} (h : Safe tr) (he : IsRead Fd.target rr e)
    (hspawned : Event.spawned Task.targetTask ∈ tr) :
    Safe (tr ++ [e]) where
  written := by
    rw [wroteTo_append, wroteTo_other (he.wrote_none _), List.append_nil, chunksFrom_append,
      frames_append, ← List.append_assoc]
    exact h.written.trans (List.prefix_append _ _)
  uncut hc := by
    rcases (cutOff_append _ _ _).1 hc with hc | hc
    · exact (eofOn_append _ _ _).2 (.inl (h.uncut hc))
    · exact absurd hc (he.not_cutOff _)
  started _ := List.mem_append_left _ hspawned

/-- Writing what is owed. -/
theorem Safe.write {out : Bytes} {failed : Bool} (h : Safe tr) (he : IsWrite Fd.client out failed e)
    (howes : Owes pending (tr ++ [e])) : Safe (tr ++ [e]) where
  written := howes.written
  uncut hc := by
    rcases (cutOff_append _ _ _).1 hc with hc | hc
    · exact (eofOn_append _ _ _).2 (.inl (h.uncut hc))
    · exact absurd hc (he.not_cutOff _)
  started hs := by
    rw [answers_append, answers_other (he.heard_none _), List.append_nil] at hs
    exact List.mem_append_left _ (h.started hs)

variable (cfg : Config)

/-- The loop of `relayUdpTargetToClient`: nothing but an empty datagram ends it. -/
theorem wp_relayUdpTargetToClient (hw : Relaying [] w) :
    wp (contract r payload) Task.targetTask (relayUdpTargetToClient cfg) (Returns fun _ w' =>
      EofOn (K := kind) Fd.target w'.trace ∧ w'.mem.targetTaskStarted = true) w := by
  refine wp_loop (fun _ => Relaying []) hw ?_
  intro _ w hw
  refine wp_get_seq (O := kind.object) ?_
  rw [if_neg (by simp [hw.up.closed])]
  have hstays : Stays (contract r payload) Task.targetTask (NetOp.Reads targetStream.fd)
      (Relaying []) := by
    refine ⟨fun w w' hw hr => hw.rely hr, fun o w _ hw _ => ⟨hw.up, hw.noEof, ?_⟩⟩
    exact fun _ _ _ => hw.owes
  refine wp_then (R := fun rr w' => rr.error = false ∧ rr.data.length ≤ 65507 ∧ if rr.ok
    then Relaying (frame rr.data) w'
    else EofOn (K := kind) Fd.target w'.trace ∧ w'.mem.targetTaskStarted = true)
    (NetStream.wp_read _ _ hstays hw ?_) ?_
  · intro w e rr hw he _ henv
    rw [targetStream_fd] at he
    obtain ⟨herror, hlength⟩ := henv.datagrams rr (by
      rw [World.push_trace, answers_append, answers_single he.heard_self]
      simp)
    refine ⟨⟨hw.up.started, rfl, fun hsafe => hsafe.read he hw.up.spawned⟩, herror, hlength, ?_⟩
    show if rr.ok = true then _ else _
    cases hok : rr.ok with
    | true =>
        refine ⟨hw.up.push, hw.owes.read he hok, fun heof => ?_⟩
        rcases (eofOn_append _ _ _).1 heof with heof | heof
        · exact hw.noEof heof
        · rw [rr.ok_eq, (eofOn_single he.heard_self).1 heof] at hok
          exact nomatch hok
    | false =>
        refine ⟨(eofOn_append _ _ _).2 (.inr ((eofOn_single he.heard_self).2 ?_)), hw.up.started⟩
        simpa [rr.ok_eq, herror] using hok
  · intro rr w ⟨herror, hlength, hw⟩
    cases hok : rr.ok with
    | false =>
        simp only [hok, Bool.false_eq_true, if_false] at hw
        rw [if_pos (by simpa [rr.ok_eq, herror] using hok)]
        exact hw
    | true =>
        simp only [hok, if_true] at hw
        obtain ⟨heof, -⟩ : rr.eof = false ∧ rr.error = false := by simpa [rr.ok_eq] using hok
        rw [if_neg (by simp [heof]), if_neg (by simp [herror]), if_neg (by omega)]
        refine wp_then (cfg.clientStream.wp_writeFull (P := Relaying) (F := fun _ => False) ?_ ?_ ?_ hw) ?_
        · refine fun rest => ⟨fun w w' hw hr => hw.rely hr, fun o w ho hw _ => ⟨hw.up, hw.noEof, ?_⟩⟩
          rw [clientStream_fd] at ho
          rintro o' ⟨⟩ hreads
          exact absurd ho hreads.not_writes
        · intro w e out rest failed hw he henv
          rw [clientStream_fd] at he
          have howes := hw.owes.write he
          refine ⟨⟨hw.up.started, rfl, fun hsafe => hsafe.write he howes⟩, ?_⟩
          rw [not_failed he henv, if_neg Bool.false_ne_true]
          refine ⟨hw.up.push, howes, fun heof => ?_⟩
          rcases (eofOn_append _ _ _).1 heof with heof | heof
          · exact hw.noEof heof
          · exact eofOn_other (he.heard_none _) heof
        · exact List.cons_ne_nil _ _
        · intro n w hn
          rcases hn with ⟨hpos, hw | hw⟩ | ⟨-, hw⟩
          · rw [if_neg (by omega)]
            exact hw
          · exact hw.elim
          · exact hw.elim

/-- The end of the target task, after an empty datagram. -/
theorem guar_ended {f : Mem → Mem × List (Syscall Fd)} (hstarted : w.mem.targetTaskStarted = true)
    (hfd : (f w.mem).1.targetFd = w.mem.targetFd) (heof : EofOn (K := kind) Fd.target w.trace) :
    (contract r payload).guar Task.targetTask w (w.call f) :=
  ⟨hstarted, hfd, fun hsafe => hsafe.step (writes_sys _ _) (answers_sys _ _) fun _ => heof⟩

theorem eofOn_call (f : Mem → Mem × List (Syscall Fd)) (heof : EofOn (K := kind) Fd.target w.trace) :
    EofOn (K := kind) Fd.target (w.call f).trace := by
  rw [EofOn, answers_call]
  exact heof

theorem wp_targetTask (hw : Relaying [] w) :
    wp (contract r payload) Task.targetTask (targetTask cfg)
      (fun _ => (contract r payload).post Task.targetTask) w := by
  refine wp_targetTask_of
    (F := fun w => EofOn (K := kind) Fd.target w.trace ∧ w.mem.targetTaskStarted = true)
    (G := fun w => EofOn (K := kind) Fd.target w.trace ∧ w.mem.targetTaskStarted = true) ?_ ?_ ?_
  · refine wp_get_seq (O := kind.object) ?_
    rw [if_pos hw.up.command]
    exact wp_returns (wp_relayUdpTargetToClient cfg hw) fun _ _ hw => hw
  · exact fun w hw => ⟨guar_ended hw.2 rfl hw.1, eofOn_call _ hw.1, hw.2⟩
  · intro w hw
    refine ⟨guar_ended hw.2 ?_ hw.1, fun _ => eofOn_call _ hw.1⟩
    cases hc : w.mem.clientReadDone <;> simp [finishTargetTask, hc]

/-! ## The client task, up to the relay -/

theorem Waiting.safe (h : Waiting command pending w) : Safe w.trace where
  written := h.owes.written
  uncut hc := absurd hc h.uncut
  started hs := absurd h.unread hs

theorem Waiting.alone (h : Waiting command pending w) :
    ¬ (contract r payload).rely Task.clientTask w w' := by
  intro hr
  exact absurd (rely_client hr).1 (by simp [h.started])

theorem guar_waiting {command' : Command} {pending' : Bytes} (h : Waiting command pending w)
    (h' : Waiting command' pending' w') : (contract r payload).guar Task.clientTask w w' := by
  refine ⟨h'.unread.trans h.unread.symm, fun _ => h'.safe, fun hup => ?_⟩
  exact absurd hup.started (by simp [h.started])

theorem Waiting.push {pending' : Bytes} (h : Waiting command pending w)
    (hheard : heard (K := kind) Fd.target e = none) (hcut : ¬ CutOff (K := kind) Fd.client [e])
    (howes : Owes pending' (w.push e).trace) : Waiting command pending' (w.push e) := by
  refine ⟨h.command, h.started, h.closed, h.targetReadDone, h.targetFd, h.encryption, ?_, ?_, howes⟩
  · rw [World.push_trace, answers_append, answers_other hheard, h.unread]
    rfl
  · exact fun hc => ((cutOff_append _ _ _).1 hc).elim h.uncut hcut

theorem Owes.other (h : Owes pending tr) (hheard : heard (K := kind) Fd.target e = none)
    (hwrote : wrote (K := kind) Fd.client e = none) : Owes pending (tr ++ [e]) := by
  refine h.congr ?_ ?_
  · rw [answers_append, answers_other hheard, List.append_nil]
  · simp [writes, hwrote]

theorem Waiting.call {command' : Command} {f : Mem → Mem × List (Syscall Fd)}
    (h : Waiting command pending w) (hmem : ∃ stream handshakeRemaining targetFd,
      targetFd ≠ some .client ∧ (f w.mem).1 =
        { w.mem with stream, handshakeRemaining, targetFd, command := command' })
    (hcut : Syscall.shutdownRdWr Fd.client ∉ (f w.mem).2) :
    Waiting command' pending (w.call f) := by
  obtain ⟨stream, handshakeRemaining, targetFd, hfd, hmem⟩ := hmem
  have howes := h.owes.congr (answers_call _ w f) (writes_call _ w f)
  refine ⟨?_, ?_, ?_, ?_, ?_, ?_, ?_, ?_, howes⟩
  · simp only [World.call_mem, hmem]
  · simpa only [World.call_mem, hmem] using h.started
  · simpa only [World.call_mem, hmem] using h.closed
  · simpa only [World.call_mem, hmem] using h.targetReadDone
  · simpa only [World.call_mem, hmem] using hfd
  · simpa only [World.call_mem, hmem] using h.encryption
  · rw [answers_call]
    exact h.unread
  · intro hc
    rcases (cutOff_append _ _ _).1 hc with hc | hc
    · exact h.uncut hc
    · exact hcut ((cutOff_sys _ _).1 hc)

theorem handshakes : Handshake.Handshakes (contract r payload) (Waiting .tcp [0, 0]) where
  alone w w' hw := hw.alone
  parked o w _ _ h := absurd h (by simp)
  guar w w' hw hw' _ := guar_waiting hw hw'
  push w e hw hheard hwrote hcut _ := by
    have hfd : Fd.target ≠ Fd.client := by simp
    exact hw.push (hheard _ hfd) (hcut _) (hw.owes.other (hheard _ hfd) (hwrote _))
  modify w f hw hf := by
    obtain ⟨stream, handshakeRemaining, hf⟩ := hf w.mem
    refine hw.call ⟨stream, handshakeRemaining, w.mem.targetFd, hw.targetFd, ?_⟩ (by simp)
    rw [hf, ← hw.command]

theorem wp_sendResponseAndKey (hw : Waiting command [0, 0] w) :
    wp (contract r payload) Task.clientTask (sendResponseAndKey cfg 0)
      (Returns fun _ => Waiting command []) w := by
  refine wp_then (cfg.clientStream.wp_writeFull (P := Waiting command) (F := fun _ => False) ?_ ?_
    (List.cons_ne_nil 0 [0]) hw) ?_
  · exact fun rest => ⟨fun w w' hw hr => absurd hr hw.alone, fun _ _ _ _ h => absurd h (by simp)⟩
  · intro w e out rest failed hw he henv
    rw [clientStream_fd] at he
    have hnext := hw.push (he.heard_none _) (he.not_cutOff _) (hw.owes.write he)
    refine ⟨guar_waiting hw hnext, ?_⟩
    rw [not_failed he henv, if_neg Bool.false_ne_true]
    exact hnext
  · intro n w hn
    rcases hn with ⟨-, hw | hw⟩ | ⟨-, hw⟩
    · split
      · exact hw
      · refine wp_get_seq (O := kind.object) ?_
        rw [if_neg (by simp [hw.encryption])]
        exact hw
    · exact hw.elim
    · exact hw.elim

theorem frame_connects :
    Frame (contract r payload) Task.clientTask Connects (Waiting command []) where
  rely _ _ hw hr := absurd hr hw.alone
  parked _ _ _ _ _ h := absurd h (by simp)
  member f w hf hw _ := by
    have hnext : Waiting command [] (w.call f) := by
      refine hw.call ?_ ((hf w.mem).2 _)
      rw [← hw.command]
      rcases (hf w.mem).1 with hmem | hmem
      · exact ⟨w.mem.stream, w.mem.handshakeRemaining, w.mem.targetFd, hw.targetFd, hmem⟩
      · exact ⟨w.mem.stream, w.mem.handshakeRemaining, some .target, by simp, hmem⟩
    exact ⟨guar_waiting hw hnext, hnext⟩
  io o answer w ho hw _ := by
    have hquiet : IsQuiet (.io (O := kind.object) o answer) := by
      cases o with
      | inl o => exact isQuiet_net ho.1 ho.2.1 answer
      | inr o => exact isQuiet_ext (K := kind) o answer
    have hnext : Waiting command [] (w.answer o answer) :=
      hw.push (hquiet.heard_none _) (cutOff_io (K := kind) _ _ _)
        (hw.owes.other (hquiet.heard_none _) (hquiet.wrote_none _))
    exact ⟨guar_waiting hw hnext, hnext⟩
  spawn _ _ h := h.elim

theorem wp_startTargetTask (hfd : w.mem.targetFd = some .target) (hw : Waiting .udp [] w) :
    wp (contract r payload) Task.clientTask startTargetTask
      (Returns fun _ w' => w'.mem.targetFd ≠ some .client) w := by
  refine wp_bind (wp_member fun _ => ⟨guar_call nofun fun hup => ?_, wp_spawn fun _ => ?_⟩)
  · exact absurd hup.started (by simp [hw.started])
  · set w₁ := w.call fun s => ({ s with targetTaskStarted := true }, [])
    have hquiet := isQuiet_spawned (K := kind) Task.targetTask
    have howes : Owes [] w₁.trace := hw.owes.congr (answers_call _ _ _) (writes_call _ _ _)
    refine ⟨guar_push (hquiet.wrote_none _) (hquiet.heard_none _) (cutOff_spawned _ _), ?_, ?_⟩
    · refine ⟨⟨rfl, hw.closed, hw.targetReadDone, hfd, hw.command, ?_⟩,
        howes.other (hquiet.heard_none _) (hquiet.wrote_none _), ?_⟩
      · rw [World.start_trace]
        simp
      · rw [World.start_trace, eofOn_append]
        rintro (heof | heof)
        · rw [EofOn, answers_call, hw.unread] at heof
          simp at heof
        · exact eofOn_other (hquiet.heard_none _) heof
    · intro w₂ hl
      induction hl with
      | refl => exact hw.targetFd
      | tail _ hr ih =>
          show _ ≠ _
          rw [(rely_client hr).2]
          exact ih

/-- The other direction is none of the target task's business. -/
theorem frame_client : Frame (contract r payload) Task.clientTask ClientSide
    fun w => w.mem.targetFd ≠ some .client where
  rely w w' hw hr := by
    rw [(rely_client hr).2]
    exact hw
  parked _ _ _ _ _ h := absurd h (by simp)
  member f w hf hw _ := by
    obtain ⟨visionReader, visionCtx, handshakeRemaining, hf⟩ := hf w.mem
    refine ⟨guar_call (by simp [hf]) fun hup => ?_, by simpa only [World.call_mem, hf] using hw⟩
    refine ⟨?_, ?_, ?_, ?_, ?_, List.mem_append_left _ hup.spawned⟩
    · simpa only [World.call_mem, hf] using hup.started
    · simpa only [World.call_mem, hf] using hup.closed
    · simpa only [World.call_mem, hf] using hup.targetReadDone
    · simpa only [World.call_mem, hf] using hup.targetFd
    · simpa only [World.call_mem, hf] using hup.command
  io o answer w ho hw _ := by
    refine ⟨?_, hw⟩
    cases o with
    | inl o =>
        exact guar_push (wrote_eq_none ho.apart.2.1 answer) (heard_eq_none ho.apart.1 answer)
          (cutOff_io (K := kind) _ _ _)
    | inr o =>
        have hquiet := isQuiet_ext (K := kind) o answer
        exact guar_push (hquiet.wrote_none _) (hquiet.heard_none _) (cutOff_io (K := kind) _ _ _)
  spawn _ _ h := h.elim

theorem wp_runUdpSession (hw : Waiting .udp [0, 0] w) :
    wp (contract r payload) Task.clientTask (runUdpSession cfg r.req)
      (fun _ w' => w'.mem.targetFd ≠ some .client) w := by
  rw [runUdpSession, if_neg (by simp [r.flow, r.wf.encryption_eq]), r.wf.version_eq]
  refine wp_then (wp_sendResponseAndKey cfg hw) ?_
  intro sent w hw
  cases sent with
  | false => exact hw.targetFd
  | true =>
      refine wp_seq (wp_connectTarget_of frame_connects r.req hw) ?_ fun _ _ hw => hw.1.targetFd
      rintro connected w ⟨hw, hfd⟩
      cases connected with
      | false => exact hw.targetFd
      | true =>
          refine wp_then (wp_startTargetTask (hfd rfl) hw) ?_
          intro _ w hw
          exact wp_of_uses frame_client (only_relayUdpClientToTarget cfg) hw

theorem wp_clientTask (r : UdpRequest cfg.validator) (hmem : w.mem = {}) (htrace : w.trace = [])
    (henv : Env r payload w.trace) :
    wp (contract r payload) Task.clientTask (clientTask cfg)
      (fun _ => (contract r payload).post Task.clientTask) w := by
  have hwaiting : Waiting .tcp [0, 0] w := by
    refine ⟨by rw [hmem], by rw [hmem], by rw [hmem], by rw [hmem], by simp [hmem],
      by rw [hmem], ?_, ?_, ?_⟩
    · rw [htrace]
      rfl
    · rw [htrace]
      rintro ⟨e, he, -⟩
      cases he
    · rw [htrace]
      rfl
  refine Handshake.wp_clientTask cfg handshakes (fun _ h => h.reads) r.wf henv hmem htrace hwaiting
    (D := fun w => w.mem.targetFd ≠ some .client) (fun w hw _ => hw.targetFd) ?_ ?_
  · intro w hw _ _
    refine ⟨guar_call (by simp) fun hup => absurd hup.started (by simp [hw.started]), ?_⟩
    have hnext := hw.call (f := fun s => ({ s with command := r.req.command }, []))
      ⟨w.mem.stream, w.mem.handshakeRemaining, w.mem.targetFd, hw.targetFd, rfl⟩ (by simp)
    rw [dispatch, r.command]
    rw [r.command] at hnext
    exact wp_runUdpSession cfg hnext
  · intro w hfd
    refine ⟨guar_call ?_ fun hup => ?_, fun h => absurd h (by simp)⟩
    · simp only [finishClientTask]
      split
      · simp
      · split
        · next fd _ htarget =>
            simp only [List.mem_singleton, Syscall.shutdownRdWr.injEq]
            rintro rfl
            exact hfd htarget
        · simp
    · have hfinish : finishClientTask w.mem =
          ({ w.mem with clientReadDone := true }, [.shutdownRdWr .target]) := by
        simp [finishClientTask, hup.started, hup.targetReadDone, hup.targetFd]
      refine ⟨?_, ?_, ?_, ?_, ?_, List.mem_append_left _ hup.spawned⟩
      all_goals rw [World.call_mem, hfinish]
      · exact hup.started
      · exact hup.closed
      · exact hup.targetReadDone
      · exact hup.targetFd
      · exact hup.command

theorem meets (cfg : Config) (r : UdpRequest cfg.validator) (payload : Bytes) (t : Task)
    (w : World kind.object) (hpre : (contract r payload).pre t w) (henv : Env r payload w.trace) :
    wp (contract r payload) t (body cfg t) (fun _ => (contract r payload).post t) w := by
  cases t with
  | clientTask => exact wp_clientTask cfg r hpre.1 hpre.2 henv
  | targetTask => exact wp_targetTask cfg hpre

/-- What a relay of datagrams is for: every non-empty datagram is framed and written, in order, and
    none ends the relay or cuts the client off. -/
structure Relayed (p : Pool kind.object) : Prop where
  written : wroteTo (K := kind) Fd.client p.world.trace <+:
    [0, 0] ++ frames (chunksFrom (K := kind) Fd.target p.world.trace)
  caughtUp : ∀ n k, p.frames Task.targetTask =
      some (.op (.io (O := kind.object) (.inl (.recv .target n))) k) →
    wroteTo (K := kind) Fd.client p.world.trace =
      [0, 0] ++ frames (chunksFrom (K := kind) Fd.target p.world.trace)
  running : ¬ p.Finished Task.targetTask
  uncut : ¬ CutOff (K := kind) Fd.client p.world.trace

end UdpDownlink

/-- **A UDP session relays datagrams as long as none is empty.** Let the client send the header of a
    UDP request and take whatever it is sent, and let every read of the target's socket answer a
    datagram. In every reachable state the datagrams are relayed unless an empty one was read; after
    an empty one they are not. -/
theorem udp_downlink (cfg : Config) (r : UdpRequest cfg.validator) (payload : Bytes)
    {p : Pool kind.object} (hp : Reachable cfg p)
    (hclient : readFrom (K := kind) Fd.client p.world.trace <+: r.header ++ payload)
    (hwrites : ¬ WriteFailed (K := kind) Fd.client p.world.trace)
    (hdatagrams : ∀ rr ∈ answers (K := kind) Fd.target p.world.trace,
      rr.error = false ∧ rr.data.length ≤ 65507) :
    (¬ EofOn (K := kind) Fd.target p.world.trace → UdpDownlink.Relayed p) ∧
      (p.stack = [] →
        (UdpDownlink.Relayed p ↔ ¬ EofOn (K := kind) Fd.target p.world.trace)) := by
  have henv : UdpDownlink.Env r payload p.world.trace := ⟨hclient, hwrites, hdatagrams⟩
  have hfresh : (UdpDownlink.contract r payload).pre Task.clientTask ⟨{}, []⟩ := ⟨rfl, rfl⟩
  have hmeets := UdpDownlink.meets cfg r payload
  have hsafe := Contract.invariant UdpDownlink.stable hmeets hfresh
    (fun w => UdpDownlink.Safe w.trace)
    ⟨List.nil_prefix, fun ⟨_, he, _⟩ => (nomatch he), fun h => absurd rfl h⟩
    (fun t w w' hguar _ hw => by
      cases t with
      | clientTask => exact hguar.2.1 hw
      | targetTask => exact hguar.2.2 hw) hp henv
  have hsound := Contract.sound UdpDownlink.stable hmeets hfresh hp henv
  have hrelayed : ¬ EofOn (K := kind) Fd.target p.world.trace → UdpDownlink.Relayed p := by
    intro hnoEof
    refine ⟨hsafe.written, fun n k hframe => ?_, fun hfinished => ?_, fun hcut => ?_⟩
    · have howes := (hsound.parked hframe rfl rfl).2.2 _ rfl rfl
      unfold UdpDownlink.Owes at howes
      rw [List.append_nil] at howes
      exact howes
    · exact hnoEof (hsound.post hfinished rfl)
    · exact hnoEof (hsafe.uncut hcut)
  refine ⟨hrelayed, fun hstack => ⟨fun h heof => ?_, hrelayed⟩⟩
  -- the target task has read, so it was started, and cannot be suspended after an empty datagram
  obtain ⟨rr, hrr, -⟩ := id heof
  have hspawned := hsafe.started (List.ne_nil_of_mem hrr)
  have hstarted := (frames_ne_none_iff (O := kind.object) hp Task.targetTask).2 (.inr hspawned)
  rcases hsound.suspended_or_finished hstack hstarted with hsuspended | hfinished
  · obtain ⟨-, o, k, hframe, hs⟩ := hsuspended
    exact (hsound.parked hframe hs rfl).2.1 heof
  · exact h.running hfinished

/-- The run of a UDP session in which the target sends these datagrams. -/
def datagramRun (datagrams : List Bytes) (ts : List Task) : Pool kind.object :=
  sampleRun plainServer [plainUdpHeader] datagrams ([.clientTask, .clientTask, .clientTask] ++ ts)

theorem datagramRun_reachable (datagrams : List Bytes) (ts : List Task) :
    Reachable plainServer (datagramRun datagrams ts) := sampleRun_reachable plainServer _ _ _

/-- Two datagrams, and the third read under way. -/
theorem datagramRun_relayed :
    UdpDownlink.Relayed (datagramRun [[7], [8, 9]] (List.replicate 4 .targetTask)) :=
  (udp_downlink plainServer plainUdp [] (datagramRun_reachable _ _) (by decide +kernel)
    (by decide +kernel) (by decide +kernel)).1 (by decide +kernel)

/-- An empty datagram ends the session: the next one is not even read, and the client is cut off. -/
theorem datagramRun_cutOff :
    ¬ ∀ (cfg : Config) (r : UdpRequest cfg.validator) (payload : Bytes) (p : Pool kind.object),
      Reachable cfg p → readFrom (K := kind) Fd.client p.world.trace <+: r.header ++ payload →
      ¬ WriteFailed (K := kind) Fd.client p.world.trace →
      (∀ rr ∈ answers (K := kind) Fd.target p.world.trace,
        rr.error = false ∧ rr.data.length ≤ 65507) → UdpDownlink.Relayed p := by
  intro h
  refine (h plainServer plainUdp [] (datagramRun [[7], [], [8]] (List.replicate 4 .targetTask))
    (datagramRun_reachable _ _) ?_ ?_ ?_).uncut ?_
  · decide +kernel
  · decide +kernel
  · decide +kernel
  · decide +kernel

end VlessConnection

end Cppvless
