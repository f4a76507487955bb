import Cppvless.Server.Handshake
import Cppvless.Vless.Encoder

set_option autoImplicit false

/-! # The TCP tunnel

Without Vision a TCP session of the server is transparent. Each direction is a `Flow`: towards the
target it carries what follows the request header, through the handshake buffer, the drained rest
and the copy loop; towards the client, the response and what the target sends. `clientTask` carries
the first and, until it starts `targetTask`, the response. -/

namespace Cppvless

open Coroutine

namespace VlessConnection

/-- A well-formed request for a TCP session without a flow, of a user of the server. -/
structure TcpRequest (validator : Validator) where
  header : Bytes
  req : Request
  wf : Header validator header req
  command : req.command = .tcp
  flow : req.flow = []

namespace Tunnel

/-- Towards the target: what follows the header. -/
def up (header : Bytes) : Flow Fd := ⟨.client, .target, header, []⟩

/-- Towards the client: the response and what the target sends. -/
def down : Flow Fd := ⟨.target, .client, [], [0, 0]⟩

variable {validator : Validator} (r : TcpRequest validator) (payload : Bytes)

/-- The client sends the header and `payload`, and failed writes stay failed. -/
structure Env (tr : List (Event kind.object)) : Prop where
  sticky : ∀ fd, Sticky fd tr
  reads : readFrom (K := kind) Fd.client tr <+: r.header ++ payload

def SafeUp (tr : List (Event kind.object)) : Prop :=
  wroteTo (K := kind) Fd.target tr <+: payload

def SafeDown (tr : List (Event kind.object)) : Prop :=
  wroteTo (K := kind) Fd.client tr <+: [0, 0] ++ readFrom (K := kind) Fd.target tr

/-- If the client has sent everything and then ended, and nothing failed, everything was forwarded. -/
def Done (tr : List (Event kind.object)) : Prop :=
  EofOn (K := kind) Fd.client tr → ¬ WriteFailed (K := kind) Fd.target tr →
    readFrom (K := kind) Fd.client tr = r.header ++ payload →
      wroteTo (K := kind) Fd.target tr = payload

/-- No addon of the request changes the data. -/
def Untouched (s : Mem) : Prop := s.useEncryption = false ∧ s.useVision = false

/-- Nothing that the flow towards the client depends on has changed. -/
structure KeepsDown (w w' : World kind.object) : Prop where
  writes : writes (K := kind) Fd.client w'.trace = writes (K := kind) Fd.client w.trace
  answers : answers (K := kind) Fd.target w'.trace = answers (K := kind) Fd.target w.trace
  started : w'.mem.targetTaskStarted = w.mem.targetTaskStarted

/-- Nothing that the flow towards the target depends on has changed. -/
structure KeepsUp (w w' : World kind.object) : Prop where
  writes : writes (K := kind) Fd.target w'.trace = writes (K := kind) Fd.target w.trace
  answers : answers (K := kind) Fd.client w'.trace = answers (K := kind) Fd.client w.trace
  started : w'.mem.targetTaskStarted = w.mem.targetTaskStarted
  remaining : w'.mem.handshakeRemaining = w.mem.handshakeRemaining
  encryption : w'.mem.useEncryption = w.mem.useEncryption
  vision : w'.mem.useVision = w.mem.useVision

/-- What the target task finds. -/
structure Relaying (w : World kind.object) : Prop where
  started : w.mem.targetTaskStarted = true
  command : w.mem.command = .tcp
  untouched : Untouched w.mem
  carries : down.Carries [] w.trace

/-- A connection that has not done anything. -/
structure Fresh (w : World kind.object) : Prop where
  mem : w.mem = {}
  trace : w.trace = []

/-- Until the request is known: nothing was written, and no addon was set up. -/
structure Waiting (w : World kind.object) : Prop where
  started : w.mem.targetTaskStarted = false
  command : w.mem.command = .tcp
  untouched : Untouched w.mem
  toTarget : wroteTo (K := kind) Fd.target w.trace = []
  response : down.Carries [0, 0] w.trace

/-- After the handshake: what was read beyond the header is in `handshakeRemaining`. -/
structure Accepted (w : World kind.object) : Prop where
  started : w.mem.targetTaskStarted = false
  command : w.mem.command = .tcp
  untouched : Untouched w.mem
  carries : (up r.header).Carries w.mem.handshakeRemaining w.trace
  noEof : ¬ EofOn (K := kind) Fd.client w.trace

/-- With the target task started, `clientTask` is on its own direction. -/
structure Running (w : World kind.object) : Prop where
  started : w.mem.targetTaskStarted = true
  untouched : Untouched w.mem
  noEof : ¬ EofOn (K := kind) Fd.client w.trace

/-- The two directions. Until the target task is started, `clientTask` has both. -/
def contract : Contract kind.object where
  env := Env r payload
  guar
    | .clientTask, w, w' => (SafeUp payload w.trace → SafeUp payload w'.trace) ∧
        (SafeDown w.trace → SafeDown w'.trace) ∧
        (w.mem.targetTaskStarted = true → KeepsDown w w')
    | .targetTask, w, w' => w.mem.targetTaskStarted = true ∧ SafeDown w'.trace ∧ KeepsUp w w'
  parked t _ w := t = Task.clientTask → Done r payload w.trace
  pre
    | .clientTask, w => Fresh w
    | .targetTask, w => Relaying w
  post t w := t = Task.clientTask → Done r payload w.trace

variable {r payload} {w w' : World kind.object}

theorem KeepsUp.done (h : KeepsUp w w') (hw : Done r payload w.trace) : Done r payload w'.trace := by
  simpa only [Done, EofOn, WriteFailed, readFrom, chunksFrom, wroteTo, h.answers, h.writes] using hw

theorem KeepsUp.carries (h : KeepsUp w w') {header pending : Bytes}
    (hw : (up header).Carries pending w.trace) : (up header).Carries pending w'.trace :=
  hw.congr h.answers h.writes

theorem KeepsUp.eofOn (h : KeepsUp w w') :
    EofOn (K := kind) Fd.client w'.trace ↔ EofOn (K := kind) Fd.client w.trace := by
  simp only [EofOn, h.answers]

theorem KeepsDown.carries (h : KeepsDown w w') {pending : Bytes}
    (hw : down.Carries pending w.trace) : down.Carries pending w'.trace :=
  hw.congr h.answers h.writes

theorem KeepsDown.safe (h : KeepsDown w w') (hw : SafeDown w.trace) : SafeDown w'.trace := by
  simpa only [SafeDown, readFrom, chunksFrom, wroteTo, h.answers, h.writes] using hw

theorem rely_client (h : (contract r payload).rely Task.clientTask w w') :
    w.mem.targetTaskStarted = true ∧ KeepsUp w w' := by
  obtain ⟨u, hu, hg, -⟩ := h
  cases u with
  | clientTask => exact absurd rfl hu
  | targetTask => exact ⟨hg.1, hg.2.2⟩

theorem rely_target (h : (contract r payload).rely Task.targetTask w w')
    (hs : w.mem.targetTaskStarted = true) : KeepsDown w w' := by
  obtain ⟨u, hu, hg, -⟩ := h
  cases u with
  | clientTask => exact hg.2.2 hs
  | targetTask => exact absurd rfl hu

theorem stable : (contract r payload).Stable where
  env_prefix tr tr' h := by
    refine ⟨fun fd => (h.sticky fd).of_append, ?_⟩
    exact (readFrom_mono _ (List.prefix_append tr tr')).trans h.reads
  parked t o w w' h hr ht := by
    subst ht
    exact (rely_client hr).2.done (h rfl)
  post t w w' h hr ht := by
    subst ht
    exact (rely_client hr).2.done (h rfl)

/-! ## What the flows give -/

theorem safeUp_of_carries {tr : List (Event kind.object)} {pending : Bytes} (henv : Env r payload tr)
    (h : (up r.header).Carries pending tr) : SafeUp payload tr := by
  obtain ⟨body, hread, hwrote⟩ := h.written
  have hreads := henv.reads
  rw [show readFrom (K := kind) Fd.client tr = r.header ++ body from hread] at hreads
  exact hwrote.trans ((List.prefix_append_right_inj _).1 hreads)

theorem safeDown_of_carries {tr : List (Event kind.object)} {pending : Bytes}
    (h : down.Carries pending tr) : SafeDown tr := by
  obtain ⟨body, hread, hwrote⟩ := h.written
  rw [SafeDown, show readFrom (K := kind) Fd.target tr = body from hread]
  exact hwrote

theorem done_of_carries {tr : List (Event kind.object)} (h : (up r.header).Carries [] tr) :
    Done r payload tr := by
  intro _ hok hread
  obtain ⟨body, hbody, hwrote⟩ := h.exact hok
  rw [show readFrom (K := kind) Fd.client tr = r.header ++ body from hbody] at hread
  rw [List.append_nil] at hwrote
  exact hwrote.trans (List.append_cancel_left hread)

theorem done_of_not_eof {tr : List (Event kind.object)} (h : ¬ EofOn (K := kind) Fd.client tr) :
    Done r payload tr := fun heof => absurd heof h

/-! ## The target task -/

/-- An event of `targetTask`: a read of the target or a write to the client, or none of either. -/
theorem keepsUp_push {e : Event kind.object} (hwrote : wrote (K := kind) Fd.target e = none)
    (hheard : heard (K := kind) Fd.client e = none) : KeepsUp w (w.push e) where
  writes := by simp [Cppvless.writes, hwrote]
  answers := by simp [Cppvless.answers, hheard]
  started := rfl
  remaining := rfl
  encryption := rfl
  vision := rfl

theorem keepsDown_push {e : Event kind.object} (hwrote : wrote (K := kind) Fd.client e = none)
    (hheard : heard (K := kind) Fd.target e = none) : KeepsDown w (w.push e) where
  writes := by simp [Cppvless.writes, hwrote]
  answers := by simp [Cppvless.answers, hheard]
  started := rfl

/-- While it copies, the target task is started; nothing else matters to it. -/
theorem target_copies : FlowCopies (contract r payload) Task.targetTask down
    (fun w => w.mem.targetTaskStarted = true) fun w => w.mem.targetTaskStarted = true := by
  have hstays : ∀ (S : NetOp Fd → Prop) pending, Stays (contract r payload) Task.targetTask S
      fun w => down.Carries pending w.trace ∧ w.mem.targetTaskStarted = true := by
    intro S pending
    refine ⟨fun w w' hw hr => ?_, fun _ _ _ _ => nofun⟩
    have hkeeps := rely_target hr hw.2
    exact ⟨hkeeps.carries hw.1, hkeeps.started.trans hw.2⟩
  refine ⟨⟨fun tr h => h.sticky _, hstays _, ?_⟩, fun _ => id, hstays _ [], ?_, hstays _ [], ?_⟩
  · intro w e out failed pending hs he hcarries _
    exact ⟨⟨hs, safeDown_of_carries hcarries,
      keepsUp_push (he.wrote_other _ nofun) (he.heard_none _)⟩, hs⟩
  · intro w e rr hs he hcarries _
    exact ⟨⟨hs, safeDown_of_carries hcarries,
      keepsUp_push (he.wrote_none _) (he.heard_other _ nofun)⟩, by split <;> exact hs⟩
  · intro w o r hs ho hcarries _
    exact ⟨⟨hs, safeDown_of_carries hcarries,
      keepsUp_push (wrote_eq_none ho.not_writes _) (heard_eq_none ho.not_reads _)⟩, hs⟩

variable (cfg : Config)

theorem wp_relayTargetToClient (hw : Relaying w) :
    wp (contract r payload) Task.targetTask (relayTargetToClient cfg) (Returns fun _ w' =>
      SafeDown w'.trace ∧ w'.mem.targetTaskStarted = true) w := by
  refine wp_get_seq (O := kind.object) ?_
  -- without addons the branch is that of `copyStream`
  rw [if_neg (by simp [hw.command]), if_neg (by simp [hw.untouched.1]),
    if_neg (by simp [hw.untouched.2])]
  refine wp_then (target_copies.wp_copyStream (clientStream_fd cfg) targetStream_fd _
    ⟨hw.carries, hw.started⟩) ?_
  intro _ w' hw'
  exact ⟨safeDown_of_carries hw'.1, hw'.2⟩

theorem safeDown_call {f : Mem → Mem × List (Syscall Fd)} (h : SafeDown w.trace) :
    SafeDown (w.call f).trace := by
  rw [SafeDown, wroteTo, readFrom, chunksFrom, writes_call, answers_call]
  exact h

/-- A member change of the target task that only concerns the ends of the coroutines. -/
theorem guar_target_call {f : Mem → Mem × List (Syscall Fd)} (hs : w.mem.targetTaskStarted = true)
    (hsafe : SafeDown w.trace)
    (hmem : ∃ closed targetReadDone, (f w.mem).1 = { w.mem with closed, targetReadDone }) :
    (contract r payload).guar Task.targetTask w (w.call f) := by
  obtain ⟨closed, targetReadDone, hmem⟩ := hmem
  refine ⟨hs, safeDown_call hsafe, writes_call _ _ _, answers_call _ _ _, ?_, ?_, ?_, ?_⟩
  all_goals rw [World.call_mem, hmem]

theorem wp_targetTask (hw : Relaying w) :
    wp (contract r payload) Task.targetTask (targetTask cfg)
      (fun _ => (contract r payload).post Task.targetTask) w := by
  refine wp_targetTask_of (F := fun w => SafeDown w.trace ∧ w.mem.targetTaskStarted = true)
    (G := fun w => SafeDown w.trace ∧ w.mem.targetTaskStarted = true) ?_ ?_ ?_
  · exact wp_returns (wp_relayTargetToClient cfg hw) fun _ _ hw => hw
  · intro w hw
    exact ⟨guar_target_call hw.2 hw.1 ⟨w.mem.closed, true, rfl⟩, safeDown_call hw.1, hw.2⟩
  · intro w hw
    refine ⟨guar_target_call hw.2 hw.1 ?_, nofun⟩
    cases hc : w.mem.clientReadDone with
    | true => exact ⟨true, true, by simp [finishTargetTask, hc]⟩
    | false => exact ⟨w.mem.closed, true, by simp [finishTargetTask, hc]⟩

/-! ## The client task, alone -/

/-- Until it starts the target task, `clientTask` is alone. -/
theorem stays_alone {S : NetOp Fd → Prop} {I : World kind.object → Prop}
    (hs : ∀ w, I w → w.mem.targetTaskStarted = false)
    (hdone : ∀ w, I w → Done r payload w.trace) :
    Stays (contract r payload) Task.clientTask S I :=
  ⟨fun w _ hw hr => absurd (rely_client hr).1 (by simp [hs w hw]), fun _ w _ hw _ => hdone w hw⟩

theorem guar_alone (hs : w.mem.targetTaskStarted = false)
    (hup : SafeUp payload w.trace → SafeUp payload w'.trace)
    (hdown : SafeDown w.trace → SafeDown w'.trace) :
    (contract r payload).guar Task.clientTask w w' :=
  ⟨hup, hdown, fun h => absurd h (by simp [hs])⟩

/-- A member change that leaves `targetTaskStarted` alone is within the guarantee of `clientTask`. -/
theorem guar_client_call {f : Mem → Mem × List (Syscall Fd)}
    (hf : (f w.mem).1.targetTaskStarted = w.mem.targetTaskStarted) :
    (contract r payload).guar Task.clientTask w (w.call f) := by
  have hkeeps : KeepsDown w (w.call f) := ⟨writes_call _ _ _, answers_call _ _ _, hf⟩
  refine ⟨fun h => ?_, hkeeps.safe, fun _ => hkeeps⟩
  rw [SafeUp, wroteTo, writes_call]
  exact h

theorem done_call {f : Mem → Mem × List (Syscall Fd)} (h : Done r payload w.trace) :
    Done r payload (w.call f).trace := by
  simpa only [Done, EofOn, WriteFailed, readFrom, chunksFrom, wroteTo, writes_call, answers_call]
    using h

/-! ## The handshake -/

theorem handshakes : Handshake.Handshakes (contract r payload) Waiting where
  alone w w' hw hr := absurd (rely_client hr).1 (by simp [hw.started])
  parked o w _ hnoEof _ := done_of_not_eof hnoEof
  guar w w' hw hw' _ := by
    refine guar_alone hw.started (fun _ => ?_) fun _ => safeDown_of_carries hw'.response
    rw [SafeUp, hw'.toTarget]
    exact List.nil_prefix
  push w e hw hheard hwrote _ _ := by
    refine ⟨hw.started, hw.command, hw.untouched, ?_, ?_⟩
    · simp [wroteTo_other (hwrote _), hw.toTarget]
    · exact hw.response.other (readFrom_other (hheard _ nofun)) (hwrote _)
  modify w f hw hf := by
    obtain ⟨stream, remaining, hf⟩ := hf w.mem
    refine ⟨?_, ?_, ?_, ?_, ?_⟩
    · simpa only [World.call_mem, hf] using hw.started
    · simpa only [World.call_mem, hf] using hw.command
    · simpa only [World.call_mem, hf, Untouched] using hw.untouched
    · rw [wroteTo, writes_call]
      exact hw.toTarget
    · exact hw.response.congr (answers_call _ _ _) (writes_call _ _ _)

/-- What was read beyond the header is to be written to the target. -/
theorem Waiting.accepted (hw : Waiting w) (hnoEof : ¬ EofOn (K := kind) Fd.client w.trace)
    (hread : readFrom (K := kind) Fd.client w.trace = r.header ++ w.mem.handshakeRemaining) :
    Accepted r w := by
  refine ⟨hw.started, hw.command, hw.untouched, .inl ⟨w.mem.handshakeRemaining, hread, ?_⟩, hnoEof⟩
  show wroteTo (K := kind) Fd.target w.trace ++ w.mem.handshakeRemaining = [] ++ _
  rw [hw.toTarget]

/-! ## The response and the connection -/

/-- No event between the handshake and the first byte for the target reads the client. -/
theorem Accepted.other (h : Accepted r w) {e : Event kind.object}
    (hheard : heard (K := kind) Fd.client e = none) (hwrote : wrote (K := kind) Fd.target e = none) :
    Accepted r (w.push e) where
  started := h.started
  command := h.command
  untouched := h.untouched
  carries := h.carries.other (readFrom_other hheard) hwrote
  noEof := fun heof => ((eofOn_append _ _ _).1 heof).elim h.noEof (eofOn_other hheard)

theorem Accepted.guar (h : Accepted r w) {pending : Bytes} (henv : Env r payload w'.trace)
    (h' : Accepted r w') (hdown : down.Carries pending w'.trace) :
    (contract r payload).guar Task.clientTask w w' :=
  guar_alone h.started (fun _ => safeUp_of_carries henv h'.carries)
    fun _ => safeDown_of_carries hdown

theorem writes_response : FlowWrites (contract r payload) Task.clientTask down (Accepted r) where
  sticky tr h := h.sticky _
  stays pending := stays_alone (fun w hw => hw.2.started) fun w hw => done_of_not_eof hw.2.noEof
  write w e out failed pending hw he hcarries henv := by
    have hnext := hw.other (he.heard_none _) (he.wrote_other _ nofun)
    exact ⟨hw.guar henv hnext hcarries, hnext⟩

theorem wp_sendResponseAndKey (hw : Accepted r w) (hdown : down.Carries [0, 0] w.trace) :
    wp (contract r payload) Task.clientTask (sendResponseAndKey cfg 0) (Returns fun _ w' =>
      Accepted r w' ∧ down.Carries [] w'.trace) w := by
  refine wp_then (writes_response.wp_writeFull (clientStream_fd cfg) (List.cons_ne_nil 0 [0])
    ⟨hdown, hw⟩) ?_
  intro n w' ⟨hdown', hw'⟩
  split
  · exact ⟨hw', hdown'⟩
  · refine wp_get_seq (O := kind.object) ?_
    rw [if_neg (by simp [hw'.untouched.1])]
    exact ⟨hw', hdown'⟩

/-- Connecting moves no byte. -/
theorem frame_connects : Frame (contract r payload) Task.clientTask Connects
    fun w => Accepted r w ∧ down.Carries [] w.trace where
  rely _ _ hw hr := absurd (rely_client hr).1 (by simp [hw.1.started])
  parked _ _ _ _ hw _ := done_of_not_eof hw.1.noEof
  member f w hf hw henv := by
    have haccepted : Accepted r (w.call f) := by
      have hmem : (w.call f).mem = w.mem ∨
          (w.call f).mem = { w.mem with targetFd := some .target } := (hf w.mem).1
      have hcarries := hw.1.carries.congr (answers_call _ w f) (writes_call _ w f)
      have hnoEof : ¬ EofOn (K := kind) Fd.client (w.call f).trace := by
        rw [EofOn, answers_call]
        exact hw.1.noEof
      rcases hmem with hmem | hmem
      · exact ⟨hmem ▸ hw.1.started, hmem ▸ hw.1.command, hmem ▸ hw.1.untouched, hmem ▸ hcarries,
          hnoEof⟩
      · exact ⟨hmem ▸ hw.1.started, hmem ▸ hw.1.command, hmem ▸ hw.1.untouched, hmem ▸ hcarries,
          hnoEof⟩
    have hdown := hw.2.congr (answers_call _ w f) (writes_call _ w f)
    exact ⟨hw.1.guar henv haccepted hdown, haccepted, hdown⟩
  io o answer w ho hw henv := by
    have hquiet : IsQuiet (.io (O := kind.object) o answer) := by
      cases o with
      | inl o => exact isQuiet_net ho.1 ho.2.1 answer
      | inr o => exact isQuiet_ext (K := kind) o answer
    have haccepted := hw.1.other (hquiet.heard_none _) (hquiet.wrote_none _)
    have hdown := hw.2.other (readFrom_other (hquiet.heard_none _)) (hquiet.wrote_none _)
    exact ⟨hw.1.guar henv haccepted hdown, haccepted, hdown⟩
  spawn _ _ h := h.elim

/-! ## Relaying towards the target -/

theorem Running.rely (h : Running w) (hr : (contract r payload).rely Task.clientTask w w') :
    Running w' := by
  have hkeeps := (rely_client hr).2
  refine ⟨hkeeps.started.trans h.started, ⟨?_, ?_⟩, mt hkeeps.eofOn.1 h.noEof⟩
  · exact hkeeps.encryption.trans h.untouched.1
  · exact hkeeps.vision.trans h.untouched.2

theorem wp_startTargetTask (hw : Accepted r w) (hdown : down.Carries [] w.trace) :
    wp (contract r payload) Task.clientTask startTargetTask (Returns fun _ w' =>
      Running w' ∧ (up r.header).Carries w'.mem.handshakeRemaining w'.trace) w := by
  refine wp_bind (wp_member fun _ => ⟨?_, wp_spawn fun _ => ?_⟩)
  · refine guar_alone hw.started (fun h => ?_) fun h => ?_
    · simpa [SafeUp] using h
    · simpa [SafeDown] using h
  · set w₁ := w.call fun s => ({ s with targetTaskStarted := true }, [])
    have htrace : w₁.trace = w.trace := by simp [w₁]
    have hcarries : (up r.header).Carries w₁.mem.handshakeRemaining w₁.trace :=
      htrace ▸ hw.carries
    have hquiet := isQuiet_spawned (K := kind) Task.targetTask
    have hkeeps : KeepsDown w₁ (w₁.start .targetTask) :=
      keepsDown_push (hquiet.wrote_none _) (hquiet.heard_none _)
    refine ⟨⟨fun h => ?_, hkeeps.safe, fun _ => hkeeps⟩, ⟨rfl, hw.command, hw.untouched, ?_⟩, ?_⟩
    · rw [SafeUp, World.start_trace, wroteTo_append, wroteTo_other (hquiet.wrote_none _),
        List.append_nil]
      exact h
    · exact hkeeps.carries (htrace ▸ hdown)
    · have hrunning : Running (w₁.start .targetTask) := by
        refine ⟨rfl, hw.untouched, fun heof => ?_⟩
        rcases (eofOn_append _ _ _).1 heof with heof | heof
        · exact hw.noEof (htrace ▸ heof)
        · exact eofOn_other (hquiet.heard_none _) heof
      have hcarries' := hcarries.other (readFrom_other (hquiet.heard_none _))
        (hquiet.wrote_none _)
      intro w₂ hl
      induction hl with
      | refl => exact ⟨hrunning, hcarries'⟩
      | tail _ hr ih =>
          have hkeeps := (rely_client hr).2
          exact ⟨ih.1.rely hr, hkeeps.remaining ▸ hkeeps.carries ih.2⟩

/-- While it copies, the client task is on its own direction; after the end of the stream only
    what it promised matters. -/
theorem client_copies : FlowCopies (contract r payload) Task.clientTask (up r.header) Running
    fun w => w.mem.targetTaskStarted = true := by
  have hguar : ∀ {w : World kind.object} {e : Event kind.object} {pending : Bytes},
      (up r.header).Carries pending (w.push e).trace → Env r payload (w.push e).trace →
      wrote (K := kind) Fd.client e = none → heard (K := kind) Fd.target e = none →
      (contract r payload).guar Task.clientTask w (w.push e) := by
    intro w e pending hcarries henv hwrote hheard
    have hkeeps : KeepsDown w (w.push e) := keepsDown_push hwrote hheard
    exact ⟨fun _ => safeUp_of_carries henv hcarries, hkeeps.safe, fun _ => hkeeps⟩
  refine ⟨⟨fun tr h => h.sticky _, fun pending => ⟨?_, ?_⟩, ?_⟩, fun w hw => hw.started,
    ⟨?_, ?_⟩, ?_, ⟨?_, ?_⟩, ?_⟩
  · intro w w' hw hr
    exact ⟨(rely_client hr).2.carries hw.1, hw.2.rely hr⟩
  · exact fun _ w _ hw _ => done_of_not_eof hw.2.noEof
  · intro w e out failed pending hw he hcarries henv
    refine ⟨hguar hcarries henv (he.wrote_other _ nofun) (he.heard_none _), hw.started,
      hw.untouched, fun heof => ?_⟩
    exact ((eofOn_append _ _ _).1 heof).elim hw.noEof (eofOn_other (he.heard_none _))
  · intro w w' hw hr
    exact ⟨(rely_client hr).2.carries hw.1, hw.2.rely hr⟩
  · exact fun _ w _ hw _ => done_of_carries hw.1
  · intro w e rr hw he hcarries henv
    refine ⟨hguar hcarries henv (he.wrote_none _) (he.heard_other _ nofun), ?_⟩
    split
    · next hok =>
        refine ⟨hw.started, hw.untouched, fun heof => ?_⟩
        rcases (eofOn_append _ _ _).1 heof with heof | heof
        · exact hw.noEof heof
        · rw [rr.ok_eq, (eofOn_single he.heard_self).1 heof] at hok
          exact nomatch hok
    · exact hw.started
  · intro w w' hw hr
    have hkeeps := (rely_client hr).2
    exact ⟨hkeeps.carries hw.1, hkeeps.started.trans hw.2⟩
  · exact fun _ w _ hw _ => done_of_carries hw.1
  · intro w o answer hw ho hcarries henv
    exact ⟨hguar hcarries henv (wrote_eq_none ho.not_writes _) (heard_eq_none ho.not_reads _), hw⟩

theorem wp_forwardHandshakeRemaining
    (hw : Running w ∧ (up r.header).Carries w.mem.handshakeRemaining w.trace) :
    wp (contract r payload) Task.clientTask forwardHandshakeRemaining (Returns fun _ w' =>
      (up r.header).Carries [] w'.trace ∧ Running w') w := by
  refine wp_get_seq (O := kind.object) ?_
  by_cases hnil : w.mem.handshakeRemaining = []
  · rw [if_pos hnil]
    exact ⟨hnil ▸ hw.2, hw.1⟩
  · rw [if_neg hnil, decodeHandshakeRemaining, if_neg (by simp [hw.1.untouched.1]),
      if_neg (by simp [hw.1.untouched.2])]
    refine wp_pure_seq (O := kind.object) ?_
    refine wp_then (client_copies.wp_writeNonempty targetStream_fd ⟨hw.2, hw.1⟩) ?_
    intro written w' hw'
    cases written with
    | false => exact hw'
    | true =>
        refine wp_bind (wp_member fun _ => ⟨guar_client_call rfl, ?_, hw'.2.started,
          hw'.2.untouched, ?_⟩)
        · exact hw'.1.congr (answers_call _ _ _) (writes_call _ _ _)
        · rw [EofOn, answers_call]
          exact hw'.2.noEof

theorem wp_relayClientToTarget (hw : (up r.header).Carries [] w.trace ∧ Running w) :
    wp (contract r payload) Task.clientTask (relayClientToTarget cfg) (Returns fun _ w' =>
      (up r.header).Carries [] w'.trace) w := by
  refine wp_get_seq (O := kind.object) ?_
  rw [if_neg (by simp [hw.2.untouched.1]), if_neg (by simp [hw.2.untouched.2])]
  exact wp_returns (client_copies.wp_copyStream targetStream_fd (clientStream_fd cfg) _ hw)
    fun _ _ hw => hw.1

theorem wp_runTcpSession (hw : Accepted r w) (hdown : down.Carries [0, 0] w.trace) :
    wp (contract r payload) Task.clientTask (runTcpSession cfg r.req)
      (Ends (fun _ w' => Done r payload w'.trace) fun w' => Done r payload w'.trace) w := by
  have hvision : setupVision r.req = pure true := by
    simp [setupVision, r.flow, flowVision, ascii]
  have hencryption : setupEncryption cfg r.req = pure true := by
    rw [setupEncryption, if_pos r.wf.encryption_eq]
  rw [runTcpSession, hvision, hencryption, r.wf.version_eq]
  refine wp_pure_seq (O := kind.object) (wp_pure_seq (O := kind.object) ?_)
  refine wp_then (wp_sendResponseAndKey cfg hw hdown) ?_
  intro sent w ⟨hw, hdown⟩
  cases sent with
  | false => exact done_of_not_eof hw.noEof
  | true =>
      refine wp_seq (wp_of_uses frame_connects (only_connectTarget r.req) ⟨hw, hdown⟩) ?_
        fun _ _ hw => done_of_not_eof hw.1.noEof
      intro connected w ⟨hw, hdown⟩
      cases connected with
      | false => exact done_of_not_eof hw.noEof
      | true =>
          refine wp_then (wp_startTargetTask hw hdown) ?_
          intro _ w hw
          refine wp_then (wp_forwardHandshakeRemaining hw) ?_
          intro forwarded w hw
          cases forwarded with
          | false => exact done_of_carries hw.1
          | true => exact wp_returns (wp_relayClientToTarget cfg hw) fun _ _ hw => done_of_carries hw

theorem wp_clientTask (r : TcpRequest cfg.validator) (hw : Fresh w)
    (henv : Env r payload w.trace) :
    wp (contract r payload) Task.clientTask (clientTask cfg)
      (fun _ => (contract r payload).post Task.clientTask) w := by
  have hwaiting : Waiting w := by
    obtain ⟨hmem, htrace⟩ := hw
    refine ⟨by rw [hmem], by rw [hmem], by rw [hmem]; exact ⟨rfl, rfl⟩, ?_, ?_⟩
    · rw [htrace]
      rfl
    · rw [htrace]
      exact .inl ⟨[], rfl, rfl⟩
  refine Handshake.wp_clientTask cfg handshakes (fun _ h => h.reads) r.wf henv hw.mem hw.trace hwaiting
    (D := fun w => Done r payload w.trace) ?_ ?_ ?_
  · intro w _ hread heof _ hall
    exact absurd hall (hread heof)
  · intro w hw hnoEof hread
    have haccepted := hw.accepted hnoEof hread
    refine ⟨guar_client_call rfl, ?_⟩
    have hw' : Accepted r (w.call fun s => ({ s with command := r.req.command }, [])) := by
      refine ⟨hw.started, r.command, hw.untouched, ?_, ?_⟩
      · exact haccepted.carries.congr (answers_call _ _ _) (writes_call _ _ _)
      · rw [EofOn, answers_call]
        exact hnoEof
    have hdown := hw.response.congr (answers_call (K := kind) Fd.target w fun s =>
      ({ s with command := r.req.command }, [])) (writes_call _ _ _)
    rw [dispatch, r.command]
    rw [r.command] at hw' hdown
    refine wp_mono (wp_runTcpSession cfg hw' hdown) ?_
    intro res w hw
    cases res with
    | ok _ => exact hw
    | error _ => exact hw
  · intro w hw
    refine ⟨guar_client_call ?_, fun _ => done_call hw⟩
    simp only [finishClientTask]
    split
    · rfl
    · split <;> rfl

theorem meets (cfg : Config) (r : TcpRequest cfg.validator) (payload : Bytes) (t : Task)
    (w : World kind.object) (hpre : (contract r payload).pre t w) (henv : Env r payload w.trace) :
    wp (contract r payload) t (body cfg t) (fun _ => (contract r payload).post t) w := by
  cases t with
  | clientTask => exact wp_clientTask cfg r hpre henv
  | targetTask => exact wp_targetTask cfg hpre

end Tunnel

/-- **The TCP tunnel is transparent.** Let the client send a header and then `payload`, in whatever
    pieces, and let no write succeed after a failed one. In every reachable state the target has
    got a prefix of `payload`, and the client a prefix of the response and what was read from the
    target. Whenever the event loop has control after the client's own end of stream, the target
    has got all of `payload`, unless a write to it failed. -/
theorem tcp_tunnel_transparent (cfg : Config) (r : TcpRequest cfg.validator) (payload : Bytes)
    {p : Pool kind.object} (hp : Reachable cfg p)
    (hsticky : ∀ fd, Sticky (K := kind) fd p.world.trace)
    (hclient : readFrom (K := kind) Fd.client p.world.trace <+: r.header ++ payload) :
    wroteTo (K := kind) Fd.target p.world.trace <+: payload ∧
      wroteTo (K := kind) Fd.client p.world.trace <+:
        [0, 0] ++ readFrom (K := kind) Fd.target p.world.trace ∧
      (p.stack = [] → EofOn (K := kind) Fd.client p.world.trace →
        ¬ WriteFailed (K := kind) Fd.target p.world.trace →
        readFrom (K := kind) Fd.client p.world.trace = r.header ++ payload →
        wroteTo (K := kind) Fd.target p.world.trace = payload) := by
  have henv : Tunnel.Env r payload p.world.trace := ⟨hsticky, hclient⟩
  have hfresh : (Tunnel.contract r payload).pre Task.clientTask ⟨{}, []⟩ := ⟨rfl, rfl⟩
  have hsafe := Contract.invariant Tunnel.stable (Tunnel.meets cfg r payload) hfresh
    (fun w => Tunnel.SafeUp payload w.trace ∧ Tunnel.SafeDown w.trace)
    ⟨List.nil_prefix, List.nil_prefix⟩ ?_ hp henv
  · refine ⟨hsafe.1, hsafe.2, fun hstack => ?_⟩
    have hsound := Contract.sound Tunnel.stable (Tunnel.meets cfg r payload) hfresh hp henv
    have hstarted := (frames_ne_none_iff (O := kind.object) hp Task.clientTask).2 (.inl rfl)
    rcases hsound.suspended_or_finished hstack hstarted with hsuspended | hfinished
    · obtain ⟨-, o, k, hframe, hs⟩ := hsuspended
      exact hsound.parked hframe hs rfl
    · exact hsound.post hfinished rfl
  · intro t w w' hguar _ hw
    cases t with
    | clientTask => exact ⟨hguar.1 hw.1, hguar.2.1 hw.2⟩
    | targetTask =>
        refine ⟨?_, hguar.2.1⟩
        rw [Tunnel.SafeUp, wroteTo, hguar.2.2.writes]
        exact hw.1

/-- What `plainRequest` asks for. -/
def plainTcpRequest : Request :=
  { uuid := List.Vector.replicate 16 0, command := .tcp, port := 80,
    address := .ipv4 (.cons 127 (.cons 0 (.cons 0 (.cons 1 .nil)))) }

def plainTcp : TcpRequest plainServer.validator where
  header := plainRequest
  req := plainTcpRequest
  wf := by
    have hencode : Encoder.encodeRequest plainTcpRequest = .ok plainRequest := by decide
    exact Encoder.encodeRequest_header (.inl rfl) (by decide) hencode
  command := rfl
  flow := rfl

/-- A run in which the first piece holds the request and one byte more. -/
theorem plainTcp_transparent :
    wroteTo (K := kind) Fd.target (sampleRun plainServer [plainRequest ++ [1], [2, 3]] [[4, 5]]
      [.clientTask, .clientTask, .clientTask, .clientTask, .targetTask, .targetTask, .clientTask,
        .clientTask, .clientTask]).world.trace = [1, 2, 3] :=
  (tcp_tunnel_transparent plainServer plainTcp [1, 2, 3] (sampleRun_reachable plainServer _ _ _)
    (fun fd => by cases fd <;> decide +kernel) (by decide +kernel)).2.2 (by decide +kernel)
    (by decide +kernel) (by decide +kernel) (by decide +kernel)

end VlessConnection

end Cppvless
