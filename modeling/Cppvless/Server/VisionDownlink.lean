import Cppvless.Server.Tunnel

set_option autoImplicit false

/-! # What a Vision session sends to the client

With Vision `targetTask` pads what it reads until the writer has switched to direct copying, and
from then on copies it. The context of the writer is shared with `clientTask`, which may change it
between any two calls; the writer itself is not (`KeepsWriter`). What has been written is therefore at
all times the response and a stream of frames for what was read (`Sends`), and unpadding such a stream
does not depend on how it is cut. -/

namespace Cppvless

open Coroutine

namespace VlessConnection

/-- A well-formed request for a TCP session with Vision, of a user of the server. -/
structure VisionRequest (validator : Validator) where
  header : Bytes
  req : Request
  wf : Header validator header req
  command : req.command = .tcp
  flow : req.flow = flowVision

namespace VisionDownlink

variable {validator : Validator} (r : VisionRequest validator) (payload : Bytes)

/-- The client sends the header and `payload`, and takes everything. -/
structure Env (tr : List (Event kind.object)) : Prop where
  taken : ¬ WriteFailed (K := kind) Fd.client tr
  reads : readFrom (K := kind) Fd.client tr <+: r.header ++ payload

/-- Of what was read from the target, `unpadded` has not been through the writer yet; of what the
    writer has put out, `rest` is still to be sent. The writer is one that `B` holds of. -/
structure Sends (B : VisionWriter → Prop) (unpadded rest : Bytes) (w : World kind.object) : Prop where
  started : w.mem.targetTaskStarted = true
  writer : B w.mem.visionWriter
  uuid : w.mem.visionWriter.uuid = r.req.uuid
  bytes : ∃ out read, w.mem.visionWriter.Written out read ∧
    readFrom (K := kind) Fd.target w.trace = read ++ unpadded ∧
    wroteTo (K := kind) Fd.client w.trace ++ rest = [0, 0] ++ out

/-- Any writer. -/
def AnyWriter (_ : VisionWriter) : Prop := True

/-- Nothing that the flow towards the client depends on has changed. -/
structure KeepsWriter (w w' : World kind.object) : Prop extends Tunnel.KeepsDown w w' where
  writer : w'.mem.visionWriter = w.mem.visionWriter

/-- What the target task finds. -/
structure Relaying (w : World kind.object) : Prop where
  command : w.mem.command = .tcp
  encryption : w.mem.useEncryption = false
  vision : w.mem.useVision = true
  sends : Sends r AnyWriter [] [] w

/-- Until the response: nothing was written to the client, and nothing read from the target. -/
structure Waiting (w : World kind.object) : Prop where
  started : w.mem.targetTaskStarted = false
  command : w.mem.command = .tcp
  encryption : w.mem.useEncryption = false
  toClient : wroteTo (K := kind) Fd.client w.trace = []
  fromTarget : readFrom (K := kind) Fd.target w.trace = []

/-- Vision is set up, and `rest` is what is missing from the response. -/
structure Responding (rest : Bytes) (w : World kind.object) : Prop where
  started : w.mem.targetTaskStarted = false
  command : w.mem.command = .tcp
  encryption : w.mem.useEncryption = false
  vision : w.mem.useVision = true
  writer : w.mem.visionWriter = .new r.req.uuid
  toClient : wroteTo (K := kind) Fd.client w.trace ++ rest = [0, 0]
  fromTarget : readFrom (K := kind) Fd.target w.trace = []

/-- Before it reads from the target, and at its end, `targetTask` has sent everything it read. -/
def contract : Contract kind.object where
  env := Env r payload
  guar
    | .clientTask, w, w' => w.mem.targetTaskStarted = true → KeepsWriter w w'
    | .targetTask, w, w' => w.mem.targetTaskStarted = true ∧ w'.mem.targetTaskStarted = true
  parked t o w := t = Task.targetTask → (∃ o' : NetOp Fd, o = .inl o' ∧ o'.Reads .target) →
    Sends r AnyWriter [] [] w
  pre
    | .clientTask, w => Tunnel.Fresh w
    | .targetTask, w => Relaying r w
  post t w := t = Task.targetTask → Sends r AnyWriter [] [] w

variable {r payload} {w w' : World kind.object} {B : VisionWriter → Prop} {unpadded rest : Bytes}

theorem Sends.congr (h : Sends r B unpadded rest w) (hkeeps : KeepsWriter w w') :
    Sends r B unpadded rest w' where
  started := hkeeps.started.trans h.started
  writer := hkeeps.writer ▸ h.writer
  uuid := hkeeps.writer ▸ h.uuid
  bytes := by
    simpa only [readFrom, chunksFrom, wroteTo, hkeeps.answers, hkeeps.writes, hkeeps.writer]
      using h.bytes

theorem Sends.mono {B' : VisionWriter → Prop} (h : Sends r B unpadded rest w)
    (hB : B w.mem.visionWriter → B' w.mem.visionWriter) : Sends r B' unpadded rest w :=
  ⟨h.started, hB h.writer, h.uuid, h.bytes⟩

theorem rely_client (h : (contract r payload).rely Task.clientTask w w') :
    w.mem.targetTaskStarted = true ∧ w'.mem.targetTaskStarted = true := by
  obtain ⟨u, hu, hg, -⟩ := h
  cases u with
  | clientTask => exact absurd rfl hu
  | targetTask => exact hg

theorem rely_target (h : (contract r payload).rely Task.targetTask w w')
    (hs : w.mem.targetTaskStarted = true) : KeepsWriter w w' := by
  obtain ⟨u, hu, hg, -⟩ := h
  cases u with
  | clientTask => exact hg hs
  | targetTask => exact absurd rfl hu

theorem stable : (contract r payload).Stable where
  env_prefix tr tr' h := by
    refine ⟨fun hfailed => h.taken ((writeFailed_append _ _ _).2 (.inl hfailed)), ?_⟩
    exact (readFrom_mono _ (List.prefix_append tr tr')).trans h.reads
  parked t o w w' h hr ht ho := by
    subst ht
    have hsends := h rfl ho
    exact hsends.congr (rely_target hr hsends.started)
  post t w w' h hr ht := by
    subst ht
    have hsends := h rfl
    exact hsends.congr (rely_target hr hsends.started)

/-! ## The target task -/

theorem guar_target (hw : w.mem.targetTaskStarted = true) (hw' : w'.mem.targetTaskStarted = true) :
    (contract r payload).guar Task.targetTask w w' := ⟨hw, hw'⟩

/-- With everything sent the target task may suspend on anything, else on everything but a read. -/
theorem stays_sends {S : NetOp Fd → Prop}
    (hS : ∀ o : NetOp Fd, S o → o.Reads .target → unpadded = [] ∧ rest = []) :
    Stays (contract r payload) Task.targetTask S (Sends r B unpadded rest) := by
  refine ⟨fun w w' hw hr => hw.congr (rely_target hr hw.started), ?_⟩
  rintro o w ho hw - ⟨o', heq, hreads⟩
  obtain rfl : o = o' := Sum.inl.inj heq
  obtain ⟨rfl, rfl⟩ := hS o ho hreads
  exact hw.mono fun _ => trivial

theorem Sends.read (h : Sends r B [] rest w) {e : Event kind.object} {rr : RecvResult}
    (he : IsRead Fd.target rr e) : Sends r B rr.data rest (w.push e) where
  started := h.started
  writer := h.writer
  uuid := h.uuid
  bytes := by
    obtain ⟨out, read, hwritten, hread, hwrote⟩ := h.bytes
    refine ⟨out, read, hwritten, ?_, ?_⟩
    · rw [List.append_nil] at hread
      simp [readFrom_single he.heard_self, hread]
    · simpa [wroteTo_other (he.wrote_none _)] using hwrote

theorem Sends.write {out : Bytes} (h : Sends r B unpadded (out ++ rest) w) {e : Event kind.object}
    {failed : Bool} (he : IsWrite Fd.client out failed e) : Sends r B unpadded rest (w.push e) where
  started := h.started
  writer := h.writer
  uuid := h.uuid
  bytes := by
    obtain ⟨all, read, hwritten, hread, hwrote⟩ := h.bytes
    refine ⟨all, read, hwritten, ?_, ?_⟩
    · simpa [readFrom_other (he.heard_none _)] using hread
    · simpa [wroteTo_single he.wrote_self] using hwrote

theorem Sends.quiet (h : Sends r B unpadded rest w) {e : Event kind.object} (he : IsQuiet e) :
    Sends r B unpadded rest (w.push e) where
  started := h.started
  writer := h.writer
  uuid := h.uuid
  bytes := by
    simpa [readFrom_other (he.heard_none _), wroteTo_other (he.wrote_none _)] using h.bytes

/-- The data goes through the writer. -/
theorem Sends.process {data : Bytes} (h : Sends r B data [] w) (hne : data ≠ [])
    (hlen : data.length < 65536) (draws : Draws) :
    Sends r AnyWriter [] (w.mem.visionWriter.process draws w.mem.visionCtx data).1
      (w.call fun s => ({ s with
        visionWriter := (s.visionWriter.process draws s.visionCtx data).2.1
        visionCtx := (s.visionWriter.process draws s.visionCtx data).2.2 }, [])) where
  started := h.started
  writer := trivial
  uuid := (VisionWriter.process_uuid draws _ _ data).trans h.uuid
  bytes := by
    obtain ⟨out, read, hwritten, hread, hwrote⟩ := h.bytes
    refine ⟨_, _, hwritten.process draws w.mem.visionCtx data hne hlen, ?_, ?_⟩
    · rw [readFrom, chunksFrom, answers_call, List.append_nil]
      exact hread
    · rw [List.append_nil] at hwrote
      rw [wroteTo, writes_call, ← wroteTo, hwrote, List.append_assoc]

/-- Once the writer copies, the data is sent as it is. -/
theorem Sends.copy {data : Bytes} (h : Sends r (fun v => v.directCopy = true) data [] w) :
    Sends r (fun v => v.directCopy = true) [] data w where
  started := h.started
  writer := h.writer
  uuid := h.uuid
  bytes := by
    obtain ⟨out, read, hwritten, hread, hwrote⟩ := h.bytes
    have hpadding := hwritten.isPadding_of_directCopy h.writer
    refine ⟨_, _, hwritten.copy hpadding data, by simpa using hread, ?_⟩
    rw [List.append_nil] at hwrote
    rw [hwrote, List.append_assoc]

variable (cfg : Config)

/-- What the loops find after a read. -/
theorem wp_read (hw : Sends r B [] [] w) :
    wp (contract r payload) Task.targetTask (targetStream.read (K := kind)) (Returns fun rr w' =>
      if rr.eof then Sends r B [] [] w' else if rr.error then Sends r B [] [] w'
      else rr.data.length < 65536 ∧ Sends r B rr.data [] w') w := by
  refine NetStream.wp_read _ _ (stays_sends fun _ _ _ => ⟨rfl, rfl⟩) hw ?_
  intro w e rr hw he hlen _
  have hnext := hw.read he
  refine ⟨guar_target hw.started hnext.started, ?_⟩
  show if rr.eof = true then _ else if rr.error = true then _ else _
  cases hok : rr.ok with
  | true =>
      obtain ⟨heof, herr⟩ : rr.eof = false ∧ rr.error = false := by simpa [rr.ok_eq] using hok
      simp only [heof, herr, Bool.false_eq_true, if_false]
      exact ⟨lt_of_le_of_lt hlen (by decide), hnext⟩
  | false =>
      -- an end of stream or a failure brings no data
      rw [RecvResult.data_eq_nil_of_not_ok hok] at hnext
      split
      · exact hnext
      · split
        · exact hnext
        · next heof herr => simp [rr.ok_eq, heof, herr] at hok

theorem write_step {out : Bytes} {e : Event kind.object} {failed : Bool}
    (hw : Sends r B [] (out ++ rest) w) (he : IsWrite cfg.clientStream.fd out failed e)
    (henv : Env r payload (w.push e).trace) :
    (contract r payload).guar Task.targetTask w (w.push e) ∧
      if failed then False else Sends r B [] rest (w.push e) := by
  rw [clientStream_fd] at he
  have hnext := hw.write he
  cases failed with
  | false => exact ⟨guar_target hw.started hnext.started, hnext⟩
  | true =>
      refine absurd ?_ henv.taken
      exact (writeFailed_append _ _ _).2 (.inr ((writeFailed_single he.wrote_self).2 rfl))

theorem stays_writes (rest : Bytes) : Stays (contract r payload) Task.targetTask
    (NetOp.Writes cfg.clientStream.fd) (Sends r B [] rest) :=
  stays_sends fun _ ho hr => absurd ho hr.not_writes

theorem wp_shutdownWrite (hw : Sends r B [] [] w) :
    wp (contract r payload) Task.targetTask (cfg.clientStream.shutdownWrite (K := kind))
      (Returns fun _ => Sends r B [] []) w := by
  refine NetStream.wp_shutdownWrite _ (stays_sends fun _ _ _ => ⟨rfl, rfl⟩) hw ?_
  intro w o answer n hw ho _
  have hquiet : IsQuiet (.io (O := kind.object) (.inl o) answer) :=
    isQuiet_net (fun _ => ho.not_reads) (fun _ => ho.not_writes) answer
  have hnext := hw.quiet hquiet
  exact ⟨guar_target hw.started hnext.started, hnext⟩

/-- The copy loop, once the writer copies. -/
theorem wp_copy (hw : Sends r (fun v => v.directCopy = true) [] [] w) :
    wp (contract r payload) Task.targetTask
      (copyStream (K := kind) cfg.clientStream targetStream Mem.closed)
      (Returns fun _ => Sends r AnyWriter [] []) w := by
  have hany : ∀ {w : World kind.object}, Sends r (fun v => v.directCopy = true) [] [] w →
      Sends r AnyWriter [] [] w := fun hw => hw.mono fun _ => trivial
  refine Cppvless.wp_copyStream (P := fun rest => Sends r (fun v => v.directCopy = true) [] rest)
    (E := Sends r (fun v => v.directCopy = true) [] [])
    (R := Sends r (fun v => v.directCopy = true) [] []) ?_ ?_ ?_ ?_ ?_ hw
  · exact fun w hw _ => hany hw
  · intro w hw
    refine wp_returns (wp_read hw) ?_
    intro rr w' hw'
    show if rr.eof = true then _ else if rr.error = true then _ else _
    cases heof : rr.eof with
    | true => simpa [heof] using hw'
    | false =>
        cases herr : rr.error with
        | true => simpa [heof, herr] using hw'
        | false =>
            simp only [heof, herr, Bool.false_eq_true, if_false] at hw' ⊢
            exact hw'.2.copy
  · exact fun w hw => wp_returns (wp_shutdownWrite cfg hw) fun _ _ hw => hany hw
  · exact fun w hw => wp_returns (wp_shutdownWrite cfg hw) fun _ _ hw => hany hw
  · intro data w hdata hw
    refine wp_returns (NetStream.wp_writeFull _ (F := fun _ => False) (stays_writes cfg)
      (fun w e out rest failed hw he henv => write_step cfg hw he henv) hdata hw) ?_
    rintro n w' (⟨hn, hw' | hw'⟩ | ⟨-, hw'⟩)
    · show if n ≤ 0 then _ else _
      rw [if_neg (by omega)]
      exact hw'
    · exact hw'.elim
    · exact hw'.elim

theorem wp_padVision {data : Bytes} (hne : data ≠ []) (hlen : data.length < 65536)
    (hw : Sends r AnyWriter data [] w) :
    wp (contract r payload) Task.targetTask (padVision data)
      (Returns fun out w' => ∃ rest, out = some rest ∧ Sends r AnyWriter [] rest w') w := by
  refine wp_get_seq (O := kind.object) ?_
  cases hdirect : w.mem.visionWriter.directCopy with
  | false =>
      refine wp_bind (wp_call (O := kind.object) rfl fun draws _ => ?_)
      have hquiet := isQuiet_ext (K := kind) ExtOp.draws draws
      have hw' := hw.quiet hquiet
      refine ⟨guar_target hw.started hw'.started, ?_⟩
      have hnext := hw'.process hne hlen draws
      exact wp_update_seq (O := kind.object) fun _ =>
        ⟨guar_target hw'.started hnext.started, _, rfl, hnext⟩
  | true =>
      have hcopy := Sends.copy (hw.mono fun _ => hdirect)
      exact ⟨data, rfl, hcopy.mono fun _ => trivial⟩

theorem wp_relayTargetToClient (hw : Relaying r w) :
    wp (contract r payload) Task.targetTask (relayTargetToClient cfg)
      (Returns fun _ => Sends r AnyWriter [] []) w := by
  refine wp_get_seq (O := kind.object) ?_
  rw [if_neg (by simp [hw.command]), if_neg (by simp [hw.encryption]), if_pos hw.vision]
  refine wp_then (R := fun _ => Sends r AnyWriter [] []) ?_ fun _ _ hw => hw
  refine wp_relayTransformed (P := fun rest => Sends r AnyWriter [] rest)
    (D := fun data w => data.length < 65536 ∧ Sends r AnyWriter data [] w)
    (E := Sends r AnyWriter [] []) (R := Sends r AnyWriter [] []) ?_ ?_ ?_ ?_ ?_ ?_ ?_ hw.sends
  · exact fun w hw _ => hw
  · exact fun w hw => wp_read hw
  · exact fun w hw => wp_returns (wp_shutdownWrite cfg hw) fun _ _ hw => hw
  · exact fun w hw => wp_returns (wp_shutdownWrite cfg hw) fun _ _ hw => hw
  · intro data w hdata ⟨hlen, hw⟩
    refine wp_returns (wp_padVision hdata hlen hw) ?_
    rintro _ w' ⟨rest, rfl, hw'⟩
    refine ⟨fun out heq => ?_, nofun, nofun⟩
    obtain rfl : rest = out := by simpa using heq
    exact hw'
  · intro data w hw
    refine wp_returns (NetStream.wp_writeNonempty _ (F := fun _ => False) (stays_writes cfg)
      (fun w e out rest failed hw he henv => write_step cfg hw he henv) hw) ?_
    intro written w' hw'
    show if written = true then _ else _
    cases written with
    | true => exact hw'.resolve_right id
    | false => exact hw'.elim
  · exact fun w hw hdirect => wp_copy cfg (hw.mono fun _ => hdirect)

theorem Sends.call {f : Mem → Mem × List (Syscall Fd)} (h : Sends r B unpadded rest w)
    (hf : ∃ closed targetReadDone, (f w.mem).1 = { w.mem with closed, targetReadDone }) :
    Sends r B unpadded rest (w.call f) := by
  obtain ⟨closed, targetReadDone, hf⟩ := hf
  refine h.congr ⟨⟨writes_call _ _ _, answers_call _ _ _, ?_⟩, ?_⟩
  · rw [World.call_mem, hf]
  · rw [World.call_mem, hf]

theorem wp_targetTask (hw : Relaying r w) :
    wp (contract r payload) Task.targetTask (targetTask cfg)
      (fun _ => (contract r payload).post Task.targetTask) w := by
  refine wp_targetTask_of (F := Sends r AnyWriter [] []) (G := Sends r AnyWriter [] []) ?_ ?_ ?_
  · exact wp_returns (wp_relayTargetToClient cfg hw) fun _ _ hw => hw
  · intro w hw
    have hnext := hw.call (f := fun s => ({ s with targetReadDone := true }, []))
      ⟨w.mem.closed, true, rfl⟩
    exact ⟨guar_target hw.started hnext.started, hnext⟩
  · intro w hw
    have hnext := hw.call (f := finishTargetTask) <| by
      cases hc : w.mem.clientReadDone with
      | true => exact ⟨true, true, by simp [finishTargetTask, hc]⟩
      | false => exact ⟨w.mem.closed, true, by simp [finishTargetTask, hc]⟩
    exact ⟨guar_target hw.started hnext.started, fun _ => hnext⟩

/-! ## The client task, until the target task runs -/

theorem guar_alone (hs : w.mem.targetTaskStarted = false) :
    (contract r payload).guar Task.clientTask w w' := fun h => absurd h (by simp [hs])

theorem not_rely (hs : w.mem.targetTaskStarted = false) :
    ¬ (contract r payload).rely Task.clientTask w w' := fun hr =>
  absurd (rely_client hr).1 (by simp [hs])

theorem handshakes : Handshake.Handshakes (contract r payload) Waiting where
  alone w w' hw := not_rely hw.started
  parked o w _ _ ht := absurd ht (by simp)
  guar w w' hw _ _ := guar_alone hw.started
  push w e hw hheard hwrote _ _ := by
    refine ⟨hw.started, hw.command, hw.encryption, ?_, ?_⟩
    · simp [wroteTo_other (hwrote _), hw.toClient]
    · simp [readFrom_other (hheard Fd.target (by simp)), hw.fromTarget]
  modify w f hw hf := by
    obtain ⟨stream, remaining, hf⟩ := hf w.mem
    refine ⟨?_, ?_, ?_, ?_, ?_⟩
    · simpa only [World.call_mem, hf] using hw.started
    · simpa only [World.call_mem, hf] using hw.command
    · simpa only [World.call_mem, hf] using hw.encryption
    · rw [wroteTo, writes_call]
      exact hw.toClient
    · rw [readFrom, chunksFrom, answers_call]
      exact hw.fromTarget

/-- Setting Vision up makes a new writer, unless the seed for it throws. -/
theorem wp_setupVision (hw : Waiting w) :
    wp (contract r payload) Task.clientTask (setupVision r.req)
      (Ends (fun _ => Responding r [0, 0]) fun _ => True) w := by
  rw [setupVision, if_pos r.flow]
  refine wp_member_seq (O := kind.object) fun _ => ⟨guar_alone hw.started, ?_⟩
  refine wp_bind (wp_call (O := kind.object) rfl fun seed _ => ?_)
  refine ⟨guar_alone hw.started, ?_⟩
  cases seed with
  | error e => exact trivial
  | ok _ =>
      refine wp_member_seq (O := kind.object) fun _ => ⟨guar_alone hw.started, ?_⟩
      refine ⟨hw.started, hw.command, hw.encryption, rfl, rfl, ?_, ?_⟩
      · have hquiet := isQuiet_ext (K := kind) ExtOp.randomDevice (.ok ())
        simp [hw.toClient, wroteTo_other (hquiet.wrote_none _)]
      · have hquiet := isQuiet_ext (K := kind) ExtOp.randomDevice (.ok ())
        simp [hw.fromTarget, readFrom_other (hquiet.heard_none _)]

theorem Responding.other (h : Responding r rest w) {e : Event kind.object} (he : IsQuiet e) :
    Responding r rest (w.push e) where
  started := h.started
  command := h.command
  encryption := h.encryption
  vision := h.vision
  writer := h.writer
  toClient := by simpa [wroteTo_other (he.wrote_none _)] using h.toClient
  fromTarget := by simpa [readFrom_other (he.heard_none _)] using h.fromTarget

theorem stays_responding (S : NetOp Fd → Prop) (rest : Bytes) :
    Stays (contract r payload) Task.clientTask S (Responding r rest) :=
  ⟨fun _ _ hw hr => absurd hr (not_rely hw.started), fun _ _ _ _ => nofun⟩

theorem wp_sendResponseAndKey (hw : Responding r [0, 0] w) :
    wp (contract r payload) Task.clientTask (sendResponseAndKey cfg 0)
      (Returns fun sent w' => sent = true → Responding r [] w') w := by
  refine wp_then (NetStream.wp_writeFull _ (P := Responding r) (F := fun _ => False)
    (stays_responding _) (fun w e out rest failed hw he henv => ?_) (List.cons_ne_nil 0 [0]) hw) ?_
  · rw [clientStream_fd] at he
    refine ⟨guar_alone hw.started, ?_⟩
    cases failed with
    | true =>
        refine absurd ?_ henv.taken
        exact (writeFailed_append _ _ _).2 (.inr ((writeFailed_single he.wrote_self).2 rfl))
    | false =>
        refine ⟨hw.started, hw.command, hw.encryption, hw.vision, hw.writer, ?_, ?_⟩
        · simpa [wroteTo_single he.wrote_self] using hw.toClient
        · simpa [readFrom_other (he.heard_none _)] using hw.fromTarget
  · rintro n w' (⟨hn, hw' | hw'⟩ | ⟨-, hw'⟩)
    · rw [if_neg (by omega)]
      refine wp_get_seq (O := kind.object) ?_
      rw [if_neg (by simp [hw'.encryption])]
      exact fun _ => hw'
    · exact hw'.elim
    · exact hw'.elim

/-- Connecting moves no byte. -/
theorem frame_connects :
    Frame (contract r payload) Task.clientTask Connects (Responding r []) where
  rely _ _ hw hr := absurd hr (not_rely hw.started)
  parked _ _ _ _ _ ht := absurd ht (by simp)
  member f w hf hw _ := by
    refine ⟨guar_alone hw.started, ?_⟩
    have hmem : (w.call f).mem = w.mem ∨
        (w.call f).mem = { w.mem with targetFd := some .target } := (hf w.mem).1
    have hwrote : wroteTo (K := kind) Fd.client (w.call f).trace ++ [] = [0, 0] := by
      rw [wroteTo, writes_call]
      exact hw.toClient
    have hread : readFrom (K := kind) Fd.target (w.call f).trace = [] := by
      rw [readFrom, chunksFrom, answers_call]
      exact hw.fromTarget
    rcases hmem with hmem | hmem
    · exact ⟨hmem ▸ hw.started, hmem ▸ hw.command, hmem ▸ hw.encryption, hmem ▸ hw.vision,
        hmem ▸ hw.writer, hwrote, hread⟩
    · exact ⟨hmem ▸ hw.started, hmem ▸ hw.command, hmem ▸ hw.encryption, hmem ▸ hw.vision,
        hmem ▸ hw.writer, hwrote, hread⟩
  io o answer w ho hw _ := by
    have hquiet : IsQuiet (.io (O := kind.object) o answer) := by
      cases o with
      | inl o => exact isQuiet_net ho.1 ho.2.1 answer
      | inr o => exact isQuiet_ext (K := kind) o answer
    exact ⟨guar_alone hw.started, hw.other hquiet⟩
  spawn _ _ h := h.elim

theorem wp_startTargetTask (hw : Responding r [] w) :
    wp (contract r payload) Task.clientTask startTargetTask
      (Returns fun _ w' => w'.mem.targetTaskStarted = true) w := by
  refine wp_member_seq (O := kind.object) fun _ => ⟨guar_alone hw.started, wp_spawn fun _ => ?_⟩
  have hquiet := isQuiet_spawned (K := kind) Task.targetTask
  refine ⟨fun _ => ⟨Tunnel.keepsDown_push (hquiet.wrote_none _) (hquiet.heard_none _), rfl⟩,
    ⟨hw.command, hw.encryption, hw.vision, ?_⟩, ?_⟩
  · -- nothing has been read, and the writer is new
    refine ⟨rfl, trivial, congrArg VisionWriter.uuid hw.writer, [], [], ?_, ?_, ?_⟩
    · exact hw.writer ▸ VisionWriter.new_written r.req.uuid
    · simpa [readFrom_other (hquiet.heard_none _)] using hw.fromTarget
    · simpa [wroteTo_other (hquiet.wrote_none _)] using hw.toClient
  · intro w₁ hl
    induction hl with
    | refl => rfl
    | tail _ hr _ => exact (rely_client hr).2

/-- While both relay, `clientTask` stays away from the writer. -/
theorem frame_clientSide : Frame (contract r payload) Task.clientTask ClientSide
    fun w => w.mem.targetTaskStarted = true where
  rely _ _ _ hr := (rely_client hr).2
  parked _ _ _ _ _ ht := absurd ht (by simp)
  member f w hf hw _ := by
    obtain ⟨visionReader, visionCtx, handshakeRemaining, hf⟩ := hf w.mem
    have hstarted : (w.call f).mem.targetTaskStarted = w.mem.targetTaskStarted := by
      rw [World.call_mem, hf]
    refine ⟨fun _ => ⟨⟨writes_call _ _ _, answers_call _ _ _, hstarted⟩, ?_⟩, hstarted.trans hw⟩
    rw [World.call_mem, hf]
  io o answer w ho hw _ := by
    refine ⟨fun _ => ⟨?_, rfl⟩, hw⟩
    cases o with
    | inl o =>
        obtain ⟨hread, hwrite, -⟩ := ClientSide.apart ho
        exact Tunnel.keepsDown_push (wrote_eq_none hwrite answer) (heard_eq_none hread answer)
    | inr o =>
        have hquiet := isQuiet_ext (K := kind) o answer
        exact Tunnel.keepsDown_push (hquiet.wrote_none _) (hquiet.heard_none _)
  spawn _ _ h := h.elim

theorem wp_runTcpSession (hw : Waiting w) :
    wp (contract r payload) Task.clientTask (runTcpSession cfg r.req) (fun _ _ => True) w := by
  have hencryption : setupEncryption cfg r.req = pure true := by
    rw [setupEncryption, if_pos r.wf.encryption_eq]
  rw [runTcpSession, hencryption, r.wf.version_eq]
  refine wp_seq (wp_setupVision hw) ?_ fun _ _ _ => trivial
  intro setUp w hw
  cases setUp with
  | false => exact trivial
  | true =>
      refine wp_pure_seq (O := kind.object) (wp_then (wp_sendResponseAndKey cfg hw) ?_)
      intro sent w hw
      cases sent with
      | false => exact trivial
      | true =>
          refine wp_seq (wp_of_uses frame_connects (only_connectTarget r.req) (hw rfl)) ?_
            fun _ _ _ => trivial
          intro connected w hw
          cases connected with
          | false => exact trivial
          | true =>
              refine wp_then (wp_startTargetTask hw) ?_
              intro _ w hw
              refine wp_seq (wp_of_uses frame_clientSide only_forwardHandshakeRemaining hw) ?_
                fun _ _ _ => trivial
              intro forwarded w hw
              cases forwarded with
              | false => exact trivial
              | true =>
                  exact wp_mono (wp_of_uses frame_clientSide (only_relayClientToTarget cfg) hw)
                    fun _ _ _ => trivial

theorem wp_clientTask (r : VisionRequest cfg.validator) (hw : Tunnel.Fresh w)
    (henv : Env r payload w.trace) :
    wp (contract r payload) Task.clientTask (clientTask cfg)
      (fun _ => (contract r payload).post Task.clientTask) w := by
  have hwaiting : Waiting w := by
    obtain ⟨hmem, htrace⟩ := hw
    refine ⟨by rw [hmem], by rw [hmem], by rw [hmem], ?_, ?_⟩
    · rw [htrace]
      rfl
    · rw [htrace]
      rfl
  refine Handshake.wp_clientTask cfg handshakes (fun _ h => h.reads) r.wf henv hw.mem hw.trace hwaiting
    (D := fun _ => True) (fun _ _ _ => trivial) ?_ ?_
  · intro w hw _ _
    refine ⟨guar_alone hw.started, ?_⟩
    rw [dispatch, r.command]
    refine wp_runTcpSession cfg ⟨hw.started, rfl, hw.encryption, ?_, ?_⟩
    · rw [wroteTo, writes_call]
      exact hw.toClient
    · rw [readFrom, chunksFrom, answers_call]
      exact hw.fromTarget
  · intro w _
    refine ⟨fun _ => ⟨⟨writes_call _ _ _, answers_call _ _ _, ?_⟩, ?_⟩, fun h => absurd h (by simp)⟩
    · simp only [World.call_mem, finishClientTask]
      split
      · rfl
      · split <;> rfl
    · simp only [World.call_mem, finishClientTask]
      split
      · rfl
      · split <;> rfl

theorem meets (cfg : Config) (r : VisionRequest cfg.validator) (payload : Bytes) (t : Task)
    (w : World kind.object) (hpre : (contract r payload).pre t w) (henv : Env r payload w.trace) :
    wp (contract r payload) t (body cfg t) (fun _ => (contract r payload).post t) w := by
  cases t with
  | clientTask => exact wp_clientTask cfg r hpre henv
  | targetTask => exact wp_targetTask cfg hpre

end VisionDownlink

/-- **Unpadding undoes the padding of a Vision session.** Let the client ask for Vision and send
    whatever it likes behind its request, and let no write to it fail. Whenever `targetTask` waits
    for the target or has ended, the client has got the response and a stream that a `VisionReader` of
    the same UUID turns into exactly what was read from the target. That holds however the stream is
    cut, as long as the first piece has 21 bytes, and whatever happens to the context of the
    reader. -/
theorem vision_downlink (cfg : Config) (r : VisionRequest cfg.validator) (payload : Bytes)
    {p : Pool kind.object} (hp : Reachable cfg p)
    (htaken : ¬ WriteFailed (K := kind) Fd.client p.world.trace)
    (hclient : readFrom (K := kind) Fd.client p.world.trace <+: r.header ++ payload)
    (htarget : p.Finished Task.targetTask ∨
      ∃ n, p.awaits Task.targetTask = some (.inl (.recv Fd.target n))) :
    ∃ out, wroteTo (K := kind) Fd.client p.world.trace = [0, 0] ++ out ∧
      ∀ calls : List (VisionContext × Bytes), calls.flatMap Prod.snd = out →
        (∀ call ∈ calls.head?, 21 ≤ call.2.length) →
          (VisionReader.new r.req.uuid).processAll calls =
            readFrom (K := kind) Fd.target p.world.trace := by
  have henv : VisionDownlink.Env r payload p.world.trace := ⟨htaken, hclient⟩
  have hfresh : (VisionDownlink.contract r payload).pre Task.clientTask ⟨{}, []⟩ := ⟨rfl, rfl⟩
  have hsound := Contract.sound VisionDownlink.stable (VisionDownlink.meets cfg r payload) hfresh
    hp henv
  have hsends : VisionDownlink.Sends r VisionDownlink.AnyWriter [] [] p.world := by
    rcases htarget with hfinished | ⟨n, hawaits⟩
    · exact hsound.post hfinished rfl
    · obtain ⟨k, hframe⟩ := Pool.frames_of_awaits hawaits
      exact hsound.parked hframe rfl rfl ⟨_, rfl, rfl⟩
  obtain ⟨out, read, hwritten, hread, hwrote⟩ := hsends.bytes
  rw [List.append_nil] at hread hwrote
  refine ⟨out, hwrote, fun calls hcut hlen => ?_⟩
  rw [hread]
  exact hwritten.processAll_eq hsends.uuid calls hcut hlen

/-- A request for 127.0.0.1:80 with Vision, of the user of `plainServer`. -/
def visionRequest : Request :=
  { plainTcpRequest with flow := flowVision }

def visionHeader : Bytes :=
  0 :: (List.Vector.replicate 16 0 : Uuid).toList ++ (18 :: 10 :: 16 :: flowVision) ++
    [1, 0, 80, 1, 127, 0, 0, 1]

theorem visionHeader_header : Header plainServer.validator visionHeader visionRequest := by
  have haddons : AddonsBytes (18 :: 10 :: 16 :: flowVision) flowVision [] := by
    have htag : Varint [10] 10 := ⟨10, .last 10 (by decide), by decide, by decide⟩
    have hlen : Varint [16] 16 := ⟨16, .last 16 (by decide), by decide, by decide⟩
    have hvalue : flowVision.length = (16 : UInt64).toNat := by decide
    have hfield := Fields.lengthDelimited htag (by decide) hlen hvalue .nil
    exact .mk 18 _ _ (by decide) hfield
  have haddress : AddressBytes [1, 127, 0, 0, 1] (.ipv4 ⟨[127, 0, 0, 1], rfl⟩) :=
    .ipv4 ⟨[127, 0, 0, 1], rfl⟩
  exact .mk _ _ _ _ _ .tcp _ _ (by decide) haddons (.tcp 0 80 _ _ haddress)

def visionTcp : VisionRequest plainServer.validator :=
  ⟨visionHeader, visionRequest, visionHeader_header, rfl, rfl⟩

/-- A run of two reads of the target. -/
def visionRun : Pool kind.object :=
  sampleRun plainServer [visionHeader] [[4, 5], [6]]
    [.clientTask, .clientTask, .clientTask, .targetTask, .targetTask, .targetTask, .targetTask]

/-- What the client gets in it unpads to the three bytes. -/
theorem vision_downlink_twoReads :
    ∃ out, wroteTo (K := kind) Fd.client visionRun.world.trace = [0, 0] ++ out ∧
      ∀ calls : List (VisionContext × Bytes), calls.flatMap Prod.snd = out →
        (∀ call ∈ calls.head?, 21 ≤ call.2.length) →
          (VisionReader.new visionTcp.req.uuid).processAll calls = [4, 5, 6] := by
  have hread : readFrom (K := kind) Fd.target visionRun.world.trace = [4, 5, 6] := by
    decide +kernel
  rw [← hread]
  exact vision_downlink plainServer visionTcp [] (sampleRun_reachable plainServer _ _ _)
    (by decide +kernel) (by decide +kernel) (.inr ⟨8192, by decide +kernel⟩)

end VlessConnection

end Cppvless
