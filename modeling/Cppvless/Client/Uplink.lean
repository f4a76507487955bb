import Cppvless.Client.Tunnel
import Cppvless.Net.Channel

set_option autoImplicit false

/-! # What a SOCKS5 session sends to the server

The counterpart of the conversation with the application. A session is silent towards the server until
it has read a CONNECT request; from then on the server gets the beginning of the encoded request and of
what was read from the application behind the piece that completes its own request. What that piece holds
beyond the request is lost, and nothing else is. -/

namespace Cppvless

open Coroutine

namespace Socks5Connection

/-- The application has opened a CONNECT session with `g ++ r`, whose request is `header` towards the
    server. `lost` came in the piece that holds the end of `r`. -/
structure Opened (cfg : VlessClientConfig) (req : Socks5.Request) (g r lost header : Bytes)
    (tr : List (Event kind.object)) : Prop where
  read : Tunnel.Read req lost g r tr
  connect : req.cmd = .connect
  encodes : Encoder.encodeRequest (cfg.request (toVlessRequest req .tcp)) = .ok header

/-- The server was sent the beginning of `header ++ body`, `body` being what was read from the
    application since. -/
def Sends (cfg : VlessClientConfig) (tr : List (Event kind.object)) : Prop :=
  wroteTo (K := kind) Fd.remote tr = [] ∨ ∃ req g r lost header body,
    Opened cfg req g r lost header tr ∧
      readFrom (K := kind) Fd.app tr = g ++ r ++ lost ++ body ∧
      wroteTo (K := kind) Fd.remote tr <+: header ++ body

variable {cfg : VlessClientConfig} {w w' w₀ : World kind.object} {tr tr' : List (Event kind.object)}
  {req : Socks5.Request} {g r lost header : Bytes}

theorem Opened.mono (h : Opened cfg req g r lost header tr)
    (hchunks : chunksFrom (K := kind) Fd.app tr <+: chunksFrom (K := kind) Fd.app tr') :
    Opened cfg req g r lost header tr' := by
  obtain ⟨⟨hg, hr, chunks, hfirst, hread⟩, hcmd, hencode⟩ := h
  exact ⟨⟨hg, hr, chunks, hfirst.trans hchunks, hread⟩, hcmd, hencode⟩

/-- Whatever is read, and nothing written to the server. -/
theorem Sends.mono (h : Sends cfg tr)
    (hchunks : chunksFrom (K := kind) Fd.app tr <+: chunksFrom (K := kind) Fd.app tr')
    (hwrites : writes (K := kind) Fd.remote tr' = writes (K := kind) Fd.remote tr) :
    Sends cfg tr' := by
  have hsame : wroteTo (K := kind) Fd.remote tr' = wroteTo (K := kind) Fd.remote tr := by
    rw [wroteTo, hwrites, ← wroteTo]
  rcases h with hnil | ⟨req, g, r, lost, header, body, hopened, hread, hwrote⟩
  · exact .inl (hsame.trans hnil)
  · have hopened' := hopened.mono hchunks
    obtain ⟨more, hmore⟩ := hchunks
    refine .inr ⟨req, g, r, lost, header, body ++ more.flatten, hopened', ?_, ?_⟩
    · rw [readFrom, ← hmore, List.flatten_append, ← readFrom, hread, List.append_assoc _ body]
    · rw [hsame, ← List.append_assoc]
      exact hwrote.trans (List.prefix_append _ _)

/-- The flow to the server behind the opening. -/
theorem Opened.sends {pending : Bytes} (h : Opened cfg req g r lost header tr)
    (hcarries : (Tunnel.up (g ++ r ++ lost) header).Carries pending tr) : Sends cfg tr := by
  obtain ⟨body, hread, hwrote⟩ := hcarries.written
  exact .inr ⟨req, g, r, lost, header, body, h, hread, hwrote⟩

namespace Uplink

/-- `clientTask` keeps to what may be sent, and `remoteTask` out of the way. -/
def contract (cfg : VlessClientConfig) : Contract kind.object where
  env tr := Sticky (K := kind) Fd.remote tr
  guar
    | .clientTask, w, w' => (Sends cfg w.trace → Sends cfg w'.trace) ∧
        (w.mem.remoteTaskStarted = true →
          w'.mem.remoteTaskStarted = true ∧ w'.mem.remoteStream = w.mem.remoteStream)
    | .remoteTask, w, w' => w.mem.remoteTaskStarted = true ∧ Tunnel.KeepsUp w w'
  parked _ _ _ := True
  pre
    | .clientTask, w => w.mem = {} ∧ w.trace = []
    | .remoteTask, w => w.mem.remoteTaskStarted = true ∧ w.mem.remoteStream.fd = .remote
  post _ _ := True

theorem stable : (contract cfg).Stable :=
  ⟨fun _ _ h => h.of_append, fun _ _ _ _ _ _ => trivial, fun _ _ _ _ _ => trivial⟩

theorem rely_client (h : (contract cfg).rely Task.clientTask w w') :
    w.mem.remoteTaskStarted = true ∧ Tunnel.KeepsUp w w' := by
  obtain ⟨u, hu, hg, -⟩ := h
  cases u with
  | clientTask => exact absurd rfl hu
  | remoteTask => exact hg

theorem guar_keeps (htrace : w.trace <+: w'.trace)
    (hwrites : writes (K := kind) Fd.remote w'.trace = writes (K := kind) Fd.remote w.trace)
    (hs : w.mem.remoteTaskStarted = true →
      w'.mem.remoteTaskStarted = true ∧ w'.mem.remoteStream = w.mem.remoteStream) :
    (contract cfg).guar Task.clientTask w w' :=
  ⟨fun h => h.mono (chunksFrom_mono (K := kind) _ htrace) hwrites, hs⟩

theorem guar_alone (hs : w.mem.remoteTaskStarted = false) (hsends : Sends cfg w'.trace) :
    (contract cfg).guar Task.clientTask w w' :=
  ⟨fun _ => hsends, fun h => absurd (hs.symm.trans h) (by simp)⟩

/-! ## Frames -/

/-- What does not touch the stream to the server, nor the flag that says there is a `remoteTask`. -/
def Silent : ObjOp kind.object → Prop
  | .get => True
  | .member f => ∀ s, (f s).1.remoteTaskStarted = s.remoteTaskStarted
  | .io (.inl o) => ¬ o.Writes Fd.remote
  | .io (.inr _) => True
  | .spawn _ => False

/-- `clientTask` is alone and silent towards the server. -/
theorem frame_silent : Frame (contract cfg) Task.clientTask Silent
    fun w => w.mem.remoteTaskStarted = false where
  rely _ _ hw hr := absurd (rely_client hr).1 (by simp [hw])
  parked _ _ _ _ _ := trivial
  member f w hf hw _ := by
    refine ⟨guar_keeps (List.prefix_append _ _) (writes_call _ _ _) fun h => ?_, (hf w.mem).trans hw⟩
    exact absurd (hw.symm.trans h) (by simp)
  io o answer w ho hw _ := by
    have hwrote : wrote (K := kind) Fd.remote (.io (O := kind.object) o answer) = none := by
      cases o with
      | inl o =>
          have hnot : ¬ o.Writes Fd.remote := ho
          exact wrote_eq_none (K := kind) hnot answer
      | inr o => rfl
    refine ⟨guar_keeps (List.prefix_append _ _) ?_ fun h => absurd (hw.symm.trans h) (by simp), hw⟩
    simp [Cppvless.writes, hwrote]
  spawn _ _ h := h.elim

/-- What only concerns the application's side, without reading. -/
def Aside : ObjOp kind.object → Prop
  | .get => True
  | .member f => ∀ s, (f s).1.remoteTaskStarted = s.remoteTaskStarted ∧ (f s).1.stream = s.stream
  | .io (.inl o) => ¬ o.Writes Fd.remote ∧ ¬ o.Reads Fd.remote ∧ ¬ o.Reads Fd.app
  | .io (.inr _) => True
  | .spawn _ => False

/-- Nothing was read, and nothing was written to the server. -/
structure Same (w w' : World kind.object) : Prop where
  started : w'.mem.remoteTaskStarted = w.mem.remoteTaskStarted
  stream : w'.mem.stream = w.mem.stream
  app : answers (K := kind) Fd.app w'.trace = answers (K := kind) Fd.app w.trace
  remote : answers (K := kind) Fd.remote w'.trace = answers (K := kind) Fd.remote w.trace
  writes : Cppvless.writes (K := kind) Fd.remote w'.trace =
    Cppvless.writes (K := kind) Fd.remote w.trace

theorem frame_aside {F : World kind.object → Prop} (hF : ∀ w w', F w → Same w w' → F w')
    (halone : ∀ w, F w → w.mem.remoteTaskStarted = false) :
    Frame (contract cfg) Task.clientTask Aside F where
  rely w _ hw hr := absurd (rely_client hr).1 (by simp [halone w hw])
  parked _ _ _ _ _ := trivial
  member f w hf hw _ := by
    refine ⟨guar_keeps (List.prefix_append _ _) (writes_call _ _ _) fun h => ?_, hF _ _ hw ?_⟩
    · exact absurd ((halone w hw).symm.trans h) (by simp)
    · exact ⟨(hf w.mem).1, (hf w.mem).2, answers_call _ _ _, answers_call _ _ _, writes_call _ _ _⟩
  io o answer w ho hw _ := by
    have hsame : Same w (w.answer o answer) := by
      cases o with
      | inl o =>
          refine ⟨rfl, rfl, ?_, ?_, ?_⟩
          · simp [answers, heard_eq_none (K := kind) ho.2.2 answer]
          · simp [answers, heard_eq_none (K := kind) ho.2.1 answer]
          · simp [Cppvless.writes, wrote_eq_none (K := kind) ho.1 answer]
      | inr o =>
          have hquiet := isQuiet_ext (K := kind) o answer
          refine ⟨rfl, rfl, ?_, ?_, ?_⟩
          · simp [answers, hquiet.heard_none]
          · simp [answers, hquiet.heard_none]
          · simp [Cppvless.writes, hquiet.wrote_none]
    refine ⟨guar_keeps (List.prefix_append _ _) hsame.writes fun h => ?_, hF _ _ hw hsame⟩
    exact absurd ((halone w hw).symm.trans h) (by simp)
  spawn _ _ h := h.elim

theorem aside_writes (o : NetOp Fd) (ho : o.Writes .app) : Aside (.io (.inl o)) := by
  refine ⟨fun h => ?_, fun h => h.not_writes ho, fun h => h.not_writes ho⟩
  exact absurd (ho.unique h) (by simp)

theorem silent_writes (o : NetOp Fd) (ho : o.Writes .app) : Silent (.io (.inl o)) :=
  (aside_writes o ho).1

/-! ## Before the relay -/

/-- Nothing has passed between the session and the server. -/
structure Unsent (w : World kind.object) : Prop where
  started : w.mem.remoteTaskStarted = false
  answers : answers (K := kind) Fd.remote w.trace = []
  writes : writes (K := kind) Fd.remote w.trace = []

theorem Unsent.sends (h : Unsent w) : Sends cfg w.trace := by
  refine .inl ?_
  rw [wroteTo, h.writes]
  rfl

theorem listens : Listens (contract cfg) Unsent where
  alone w w' hw hr := absurd (rely_client hr).1 (by simp [hw.started])
  parked _ _ _ _ := trivial
  guar w w' hw hw' := guar_alone hw.started hw'.sends
  push w e hw hheard hwrote := by
    refine ⟨hw.started, ?_, ?_⟩
    · rw [World.push_trace, answers_append, hw.answers, answers_other (hheard .remote nofun)]
      rfl
    · rw [World.push_trace, writes_append, hw.writes]
      simp [Cppvless.writes, hwrote Fd.remote]
  modify w stream hw := by
    refine ⟨hw.started, ?_, ?_⟩
    · rw [answers_call]
      exact hw.answers
    · rw [writes_call]
      exact hw.writes

theorem Same.listening {consumed : Bytes} (h : Same w w') (hw : Listening Unsent consumed w) :
    Listening Unsent consumed w' where
  kept := ⟨h.started.trans hw.kept.started, h.remote.trans hw.kept.answers,
    h.writes.trans hw.kept.writes⟩
  noEof := by
    rw [EofOn, h.app]
    exact hw.noEof
  bytes := by
    rw [h.stream, readFrom, chunksFrom, h.app]
    exact hw.bytes
  within := by
    rw [h.stream, chunksFrom, h.app]
    exact hw.within

/-- What is done while the session listens. -/
theorem wp_listening {α : Type} {c : Code α} {consumed : Bytes} (hc : Only Aside c)
    (hw : Listening Unsent consumed w) :
    wp (contract cfg) Task.clientTask c (fun _ => Listening Unsent consumed) w :=
  wp_of_uses (frame_aside (fun _ _ hw h => h.listening hw) fun _ hw => hw.kept.started) hc hw

/-- The opening of a session was read. -/
def Asked (req : Socks5.Request) (w : World kind.object) : Prop :=
  ∃ g r, Socks5.GreetingBytes g true ∧ Socks5.RequestBytes r req ∧ Listening Unsent (g ++ r) w

/-- The session ends without having sent anything. -/
theorem wp_silent {α : Type} {c : Code α} (hc : Only Silent c)
    (hw : w.mem.remoteTaskStarted = false) :
    wp (contract cfg) Task.clientTask c (fun _ w' => w'.mem.remoteTaskStarted = false) w :=
  wp_of_uses frame_silent hc hw

/-! ## The handshake with the server -/

/-- Since the request was read there was traffic with the server only, which has got the beginning of
    the request. -/
structure Begins (cfg : VlessClientConfig) (req : Socks5.Request) (w₀ w : World kind.object) :
    Prop where
  since : Tunnel.Since .remote w₀ w
  beginning : VlessClient.Beginning cfg (toVlessRequest req .tcp) (wroteTo (K := kind) Fd.remote w.trace)

theorem Begins.sends (hw₀ : Asked req w₀) (hcmd : req.cmd = .connect) (h : Begins cfg req w₀ w) :
    Sends cfg w.trace := by
  obtain ⟨g, r, hg, hr, hlistening⟩ := hw₀
  rcases h.beginning with hnil | ⟨header, hencode, hwrote⟩
  · exact .inl hnil
  · have hanswers := h.since.answers .app nofun
    have hbytes : readFrom (K := kind) Fd.app w.trace = g ++ r ++ w₀.mem.stream.unread := by
      rw [readFrom, chunksFrom, hanswers]
      exact hlistening.bytes
    refine .inr ⟨req, g, r, w₀.mem.stream.unread, header, [],
      ⟨⟨hg, hr, _, List.prefix_rfl, hbytes, ?_⟩, hcmd, hencode⟩, ?_, ?_⟩
    · rw [chunksFrom, hanswers]
      exact hlistening.within
    · rw [List.append_nil]
      exact hbytes
    · rw [List.append_nil]
      exact hwrote

theorem opens (hw₀ : Asked req w₀) (hcmd : req.cmd = .connect) :
    VlessClient.Opens (contract cfg) Task.clientTask Fd.remote
      (VlessClient.Beginning cfg (toVlessRequest req .tcp)) (Begins cfg req w₀) where
  alone w w' hw hr := by
    obtain ⟨_, _, -, -, hlistening⟩ := hw₀
    exact absurd (rely_client hr).1 (by simp [hw.since.mem, hlistening.kept.started])
  parked _ _ _ := trivial
  guar w w' hw hw' := by
    refine guar_alone ?_ (hw'.sends hw₀ hcmd)
    obtain ⟨_, _, -, -, hlistening⟩ := hw₀
    rw [hw.since.mem, hlistening.kept.started]
  push w e hw hheard hwrote hbegins := ⟨hw.since.push hheard hwrote, hbegins⟩
  close w hw := by
    refine ⟨⟨hw.since.mem, hw.since.trace.trans (List.prefix_append _ _), fun fd hfd => ?_,
      fun fd hfd => ?_⟩, ?_⟩
    · rw [writes_call, hw.since.writes fd hfd]
    · rw [answers_call, hw.since.answers fd hfd]
    · rw [wroteTo, writes_call]
      exact hw.beginning

/-- The server has got its request, and what follows the opening is to be sent behind it. -/
def Linked (cfg : VlessClientConfig) (w : World kind.object) : Prop :=
  ∃ req g r lost header, Opened cfg req g r lost header w.trace ∧
    (Tunnel.up (g ++ r ++ lost) header).Carries [] w.trace

theorem linked_of_exchanged (hw₀ : Asked req w₀) (hcmd : req.cmd = .connect)
    (hw : Begins cfg req w₀ w) {remaining : Bytes}
    (hexchanged : VlessClient.Exchanged (K := kind) Fd.remote cfg (toVlessRequest req .tcp) remaining
      w.trace) : Linked cfg w := by
  obtain ⟨header, hencode, hwrote⟩ := hexchanged.sent
  obtain ⟨g, r, hg, hr, hlistening⟩ := hw₀
  have hanswers := hw.since.answers .app nofun
  have hbytes : readFrom (K := kind) Fd.app w.trace = g ++ r ++ w₀.mem.stream.unread := by
    rw [readFrom, chunksFrom, hanswers]
    exact hlistening.bytes
  refine ⟨req, g, r, w₀.mem.stream.unread, header,
    ⟨⟨hg, hr, _, List.prefix_rfl, hbytes, ?_⟩, hcmd, hencode⟩, ?_⟩
  · rw [chunksFrom, hanswers]
    exact hlistening.within
  · rw [← List.append_nil header] at hwrote
    refine Wrote.carries (K := kind) (f := Tunnel.up _ header) hwrote ?_
    rw [List.append_nil]
    exact hbytes

theorem Same.linked (h : Same w w') (hw : Linked cfg w) : Linked cfg w' := by
  obtain ⟨req, g, r, lost, header, hopened, hcarries⟩ := hw
  refine ⟨req, g, r, lost, header, hopened.mono ?_, hcarries.congr h.app h.writes⟩
  simp [chunksFrom, h.app]

/-! ## The relay -/

theorem client_copies (req : Socks5.Request) (g r lost header : Bytes) :
    FlowCopies (contract cfg) Task.clientTask (Tunnel.up (g ++ r ++ lost) header)
      (fun w => w.mem.remoteTaskStarted = true ∧ Opened cfg req g r lost header w.trace)
      fun w => w.mem.remoteTaskStarted = true ∧ Opened cfg req g r lost header w.trace := by
  have hstays : ∀ (S : NetOp Fd → Prop) pending, Stays (contract cfg) Task.clientTask S fun w =>
      (Tunnel.up (g ++ r ++ lost) header).Carries pending w.trace ∧
        w.mem.remoteTaskStarted = true ∧ Opened cfg req g r lost header w.trace := by
    refine fun S pending => ⟨fun w w' hw hr => ?_, fun _ _ _ _ => trivial⟩
    have hkeeps := (rely_client hr).2
    refine ⟨hw.1.congr hkeeps.answers hkeeps.writes, hkeeps.started.trans hw.2.1, hw.2.2.mono ?_⟩
    simp [chunksFrom, hkeeps.answers]
  have hpush : ∀ {w : World kind.object} {e : Event kind.object} {pending : Bytes},
      w.mem.remoteTaskStarted = true ∧ Opened cfg req g r lost header w.trace →
      (Tunnel.up (g ++ r ++ lost) header).Carries pending (w.push e).trace →
      (contract cfg).guar Task.clientTask w (w.push e) ∧ (w.push e).mem.remoteTaskStarted = true ∧
        Opened cfg req g r lost header (w.push e).trace := by
    intro w e pending hw hcarries
    have hopened : Opened cfg req g r lost header (w.push e).trace :=
      hw.2.mono (chunksFrom_mono (K := kind) _ (List.prefix_append _ _))
    exact ⟨⟨fun _ => hopened.sends hcarries, fun hs => ⟨hs, rfl⟩⟩, hw.1, hopened⟩
  refine ⟨⟨fun tr h => h, hstays _, fun w e out failed pending hw _ hcarries _ => hpush hw hcarries⟩,
    fun _ hw => hw, hstays _ [], fun w e rr hw _ hcarries _ => ?_, hstays _ [],
    fun w o answer hw _ hcarries _ => hpush hw hcarries⟩
  obtain ⟨hguar, hnext⟩ := hpush hw hcarries
  exact ⟨hguar, by split <;> exact hnext⟩

theorem wp_relayTcp {stream : NetStream Fd} (hstream : stream.fd = .remote)
    (hs : w.mem.remoteTaskStarted = false) (hw : Linked cfg w) :
    wp (contract cfg) Task.clientTask (relayTcp stream) (fun _ _ => True) w := by
  obtain ⟨req, g, r, lost, header, hopened, hcarries⟩ := hw
  set w₁ := w.call fun s => ({ s with remoteTaskStarted := true, remoteStream := stream }, [])
    with hw₁
  have htrace : w₁.trace = w.trace := by simp [hw₁]
  have hsends : ∀ {w' : World kind.object}, w.trace <+: w'.trace →
      Cppvless.writes (K := kind) Fd.remote w'.trace = Cppvless.writes (K := kind) Fd.remote w.trace →
      Sends cfg w'.trace := fun h h' => (hopened.sends hcarries).mono (chunksFrom_mono (K := kind) _ h) h'
  have hquiet := isQuiet_spawned (K := kind) Task.remoteTask
  have hwrites : writes (K := kind) Fd.remote (w₁.start .remoteTask).trace =
      writes (K := kind) Fd.remote w.trace := by
    simp [Cppvless.writes, htrace, hquiet.wrote_none]
  have hanswers : answers (K := kind) Fd.app (w₁.start .remoteTask).trace =
      answers (K := kind) Fd.app w.trace := by
    simp [answers, htrace, hquiet.heard_none]
  have hmore : w.trace <+: (w₁.start .remoteTask).trace := by
    rw [World.start_trace, htrace]
    exact List.prefix_append _ _
  have hstart : wp (contract cfg) Task.clientTask (startRemoteTask stream) (Returns fun _ w' =>
      (Tunnel.up (g ++ r ++ lost) header).Carries [] w'.trace ∧ w'.mem.remoteTaskStarted = true ∧
        Opened cfg req g r lost header w'.trace) w := by
    refine wp_bind (wp_member fun _ => ⟨guar_alone hs ?_, wp_spawn fun _ => ?_⟩)
    · exact hsends (List.prefix_append _ _) (writes_call _ _ _)
    · refine ⟨⟨fun _ => hsends hmore hwrites, fun _ => ⟨rfl, rfl⟩⟩, ⟨rfl, hstream⟩, fun w₂ hl => ?_⟩
      refine (client_copies req g r lost header).reads.later ⟨?_, rfl, ?_⟩ hl
      · exact hcarries.congr hanswers hwrites
      · exact hopened.mono (chunksFrom_mono (K := kind) _ hmore)
  refine wp_then hstart fun _ w hw => ?_
  exact wp_then ((client_copies req g r lost header).wp_copyStream hstream rfl _ hw)
    fun _ _ _ => trivial

/-- From the success of the handshake on. -/
theorem wp_connected {stream : NetStream Fd} {remaining : Bytes} (hstream : stream.fd = .remote)
    (hs : w.mem.remoteTaskStarted = false) (hw : Linked cfg w) :
    wp (contract cfg) Task.clientTask (do
      if !(← sendSocksReply .success anyAddress 0) then
        return ()
      else if !(← appStream.writeNonempty (K := kind) remaining) then
        return ()
      else
        relayTcp stream) (fun _ _ => True) w := by
  have hframe : Frame (contract cfg) Task.clientTask Aside fun w =>
      w.mem.remoteTaskStarted = false ∧ Linked cfg w :=
    frame_aside (fun _ _ hw h => ⟨h.started.trans hw.1, h.linked hw.2⟩) fun _ hw => hw.1
  refine wp_seq (wp_of_uses hframe (only_sendSocksReply aside_writes _ _ _) ⟨hs, hw⟩) ?_
    fun _ _ _ => trivial
  intro sent w hw
  split
  · trivial
  · have hforward : Only Aside (appStream.writeNonempty (K := kind) remaining) :=
      NetStream.only_writeNonempty _ _ aside_writes
    refine wp_seq (wp_of_uses hframe hforward hw) ?_ fun _ _ _ => trivial
    intro forwarded w hw
    split
    · trivial
    · exact wp_relayTcp hstream hw.1 hw.2

theorem wp_runTcpSession (hw : Asked req w) (hcmd : req.cmd = .connect) :
    wp (contract cfg) Task.clientTask (runTcpSession cfg req) (fun _ _ => True) w := by
  have hunsent : Unsent w := by
    obtain ⟨_, _, -, -, hlistening⟩ := hw
    exact hlistening.kept
  have hnone : wroteTo (K := kind) Fd.remote w.trace = [] := by
    rw [wroteTo, hunsent.writes]
    rfl
  have hsending : VlessClient.Sending (K := kind) Fd.remote (Begins cfg req w) [] [] w := by
    refine ⟨⟨.refl _ w, .inl hnone⟩, ?_, by simp [hnone]⟩
    simp [chunksFrom, hunsent.answers]
  have hstarted : ∀ {w'}, Begins cfg req w w' → w'.mem.remoteTaskStarted = false := by
    intro w' h
    rw [h.since.mem, hunsent.started]
  refine wp_seq (VlessClient.wp_vlessConnectAndHandshake (K := kind) cfg (toVlessRequest req .tcp)
    (opens hw hcmd) hsending) ?_ fun _ _ _ => trivial
  rintro res w' ⟨hbegins, hexchanged⟩
  cases res with
  | none =>
      refine wp_mono (wp_silent (.bind (only_sendSocksReply silent_writes _ _ _) fun _ => trivial)
        (hstarted hbegins)) fun _ _ _ => trivial
  | some res =>
      obtain ⟨stream, remaining⟩ := res
      obtain ⟨hstream, hexchanged⟩ := hexchanged stream remaining rfl
      have hlinked := linked_of_exchanged hw hcmd hbegins hexchanged
      have hsame : Same w' (w'.call fun s => ({ s with remoteFd := some .remote }, [])) :=
        ⟨rfl, rfl, answers_call _ _ _, answers_call _ _ _, writes_call _ _ _⟩
      refine wp_member_seq fun _ => ⟨guar_keeps (List.prefix_append _ _) hsame.writes
        fun h => absurd ((hstarted hbegins).symm.trans h) (by simp), ?_⟩
      have hs := hsame.started.trans (hstarted hbegins)
      exact wp_mono (wp_connected hstream hs (hsame.linked hlinked)) fun _ _ _ => trivial

/-! ## The session -/

theorem silent_finish : Silent (.member finishClientTask) :=
  fun s => (Tunnel.finishClientTask_keeps s).1

theorem finishClientTask_stream (s : Mem) :
    (finishClientTask s).1.remoteStream = s.remoteStream := by
  unfold finishClientTask
  dsimp only
  split
  · rfl
  · split
    · rfl
    · rfl

theorem silent_runUdpAssociate : Only Silent runUdpAssociate := by
  have hreply : ∀ reply bind port, Only Silent (sendSocksReply reply bind port) :=
    only_sendSocksReply silent_writes
  have hclose : Silent (.member fun s => (s, [.close .udp])) := fun _ => rfl
  refine .bind (.await id) fun opened => .ite (fun _ => ?_) fun _ => ?_
  · exact .bind (hreply _ _ _) fun _ => trivial
  · refine .bind (.await trivial) fun bound => .ite (fun _ => ?_) fun _ => ?_
    · exact .bind (.await hclose) fun _ => .bind (hreply _ _ _) fun _ => trivial
    · refine .bind (.await trivial) fun port => .bind (hreply _ _ _) fun sent => ?_
      refine .ite (fun _ => .await hclose) fun _ => .bind (.await trivial) fun _ => ?_
      exact .bind (only_awaitControlClose trivial fun _ => id) fun _ => .await trivial

theorem wp_dispatch (hw : Asked req w) :
    wp (contract cfg) Task.clientTask (dispatch cfg req) (fun _ _ => True) w := by
  have hstarted : w.mem.remoteTaskStarted = false := by
    obtain ⟨_, _, -, -, hlistening⟩ := hw
    exact hlistening.kept.started
  have hquiet : ∀ {c : Code Unit}, Only Silent c →
      wp (contract cfg) Task.clientTask c (fun _ _ => True) w :=
    fun hc => wp_mono (wp_silent hc hstarted) fun _ _ _ => trivial
  unfold dispatch
  split
  · next hcmd => exact wp_runTcpSession hw hcmd
  · exact hquiet silent_runUdpAssociate
  · exact hquiet (.bind (only_sendSocksReply silent_writes _ _ _) fun _ => trivial)

theorem wp_runSession (hw : w.mem = {} ∧ w.trace = []) :
    wp (contract cfg) Task.clientTask (runSession cfg) (fun _ _ => True) w := by
  obtain ⟨hmem, htrace⟩ := hw
  have hstart : Listening Unsent [] w := by
    refine ⟨⟨by rw [hmem], ?_, ?_⟩, ?_, ?_, .inl ?_⟩
    · rw [htrace]
      rfl
    · rw [htrace]
      rfl
    · simp [htrace, EofOn, answers]
    · rw [htrace, hmem]
      rfl
    · rw [hmem]
      rfl
  have hfinish : ∀ {w}, w.mem.remoteTaskStarted = false → wp (contract cfg) Task.clientTask (do
      member finishClientTask
      return true) (fun _ _ => True) w :=
    fun hs => wp_mono (wp_silent (.bind (.await silent_finish) fun _ => trivial) hs)
      fun _ _ _ => trivial
  unfold runSession
  refine wp_seq (wp_onStream Socks5.Parser.readGreeting_strict Socks5.Parser.readGreeting_accepts
    listens hstart) ?_ fun _ _ _ => trivial
  rintro noAuth w ⟨g, hg, hw⟩
  rw [List.nil_append] at hw
  split
  · refine wp_seq (wp_listening (only_writeApp aside_writes _) hw) ?_ fun _ _ _ => trivial
    exact fun _ w hw => hfinish hw.kept.started
  · next hno =>
      obtain rfl : noAuth = true := by simpa using hno
      refine wp_seq (wp_listening (only_writeApp aside_writes _) hw) ?_ fun _ _ _ => trivial
      intro n w hw
      split
      · exact hfinish hw.kept.started
      · refine wp_seq (wp_onStream Socks5.Parser.readRequest_strict
          Socks5.Parser.readRequest_accepts listens hw) ?_ fun _ _ _ => trivial
        rintro req w ⟨r, hr, hw⟩
        exact wp_seq (wp_dispatch ⟨g, r, hg, hr, hw⟩) (fun _ _ _ => trivial) fun _ _ _ => trivial

theorem wp_clientTask (hw : w.mem = {} ∧ w.trace = []) :
    wp (contract cfg) Task.clientTask (clientTask cfg) (fun _ _ => True) w := by
  refine wp_seq (R := fun _ _ => True) (wp_tryCatch (wp_mono (wp_runSession hw) ?_)) ?_
    fun _ _ _ => trivial
  · intro r w _
    cases r with
    | ok _ => trivial
    | error _ => trivial
  · intro returned w _
    split
    · trivial
    · refine wp_member fun _ => ⟨guar_keeps (List.prefix_append _ _) (writes_call _ _ _) fun hs => ?_,
        trivial⟩
      exact ⟨((Tunnel.finishClientTask_keeps w.mem).1).trans hs, finishClientTask_stream w.mem⟩

/-- What `remoteTask` does: it reads the server and writes to the application. -/
def RemoteSide : ObjOp kind.object → Prop
  | .get => True
  | .member f => ∀ s, (f s).1.remoteTaskStarted = s.remoteTaskStarted
  | .io (.inl o) => ¬ o.Writes Fd.remote ∧ ¬ o.Reads Fd.app
  | .io (.inr _) => False
  | .spawn _ => False

theorem frame_remoteSide : Frame (contract cfg) Task.remoteTask RemoteSide
    fun w => w.mem.remoteTaskStarted = true where
  rely w w' hw hr := by
    obtain ⟨u, hu, hg, -⟩ := hr
    cases u with
    | clientTask => exact (hg.2 hw).1
    | remoteTask => exact absurd rfl hu
  parked _ _ _ _ _ := trivial
  member f w hf hw _ :=
    ⟨⟨hw, writes_call _ _ _, answers_call _ _ _, hf w.mem⟩, (hf w.mem).trans hw⟩
  io o answer w ho hw _ := by
    cases o with
    | inl o =>
        refine ⟨⟨hw, ?_, ?_, rfl⟩, hw⟩
        · simp [Cppvless.writes, wrote_eq_none (K := kind) ho.1 answer]
        · simp [answers, heard_eq_none (K := kind) ho.2 answer]
    | inr o => exact ho.elim
  spawn _ _ h := h.elim

theorem wp_remoteTask (hs : w.mem.remoteTaskStarted = true) (hstream : w.mem.remoteStream.fd = .remote) :
    wp (contract cfg) Task.remoteTask remoteTask (fun _ _ => True) w := by
  have hrelays : Relays (K := kind) RemoteSide w.mem.remoteStream.fd appStream.fd := by
    rw [hstream]
    refine ⟨trivial, fun o ho => ⟨ho.not_writes, fun h => ?_⟩, fun o ho => ⟨fun h => ?_, fun h => ?_⟩,
      fun o ho => ⟨ho.not_writes, ho.not_reads⟩⟩
    · exact absurd (ho.unique h) (by simp)
    · exact absurd (ho.unique h) (by simp [appStream, NetStream.fd])
    · exact h.not_writes ho
  have hrelay : wp (contract cfg) Task.remoteTask relayRemoteToApp
      (fun _ w' => w'.mem.remoteTaskStarted = true) w := by
    refine wp_get_seq (O := kind.object) ?_
    exact wp_seq (wp_of_uses frame_remoteSide (only_copyStream _ hrelays) hs) (fun _ _ hw => hw)
      fun _ _ hw => hw
  refine wp_seq (R := fun _ w' => w'.mem.remoteTaskStarted = true)
    (wp_tryCatch (wp_mono hrelay ?_)) ?_ fun _ _ _ => trivial
  · intro r w hw
    cases r with
    | ok _ => exact hw
    | error _ => exact hw
  · intro _ w hw
    have hfinish : RemoteSide (.member finishRemoteTask) :=
      fun s => (Tunnel.finishRemoteTask_keeps s).1
    exact wp_mono (wp_of_uses frame_remoteSide (.await hfinish) hw) fun _ _ _ => trivial

theorem meets (cfg : VlessClientConfig) (t : Task) (w : World kind.object)
    (hpre : (contract cfg).pre t w) (_ : (contract cfg).env w.trace) :
    wp (contract cfg) t (body cfg t) (fun _ => (contract cfg).post t) w := by
  cases t with
  | clientTask => exact wp_clientTask hpre
  | remoteTask => exact wp_remoteTask hpre.1 hpre.2

/-- The same wherever the server may have been written to. -/
theorem sends_of_written (cfg : VlessClientConfig) {p : Pool kind.object} (hp : Reachable cfg p)
    (hw : Written (K := kind) Fd.remote p w) (hsticky : Sticky (K := kind) Fd.remote w.trace) :
    Sends cfg w.trace := by
  have hfresh : (contract cfg).pre Task.clientTask ⟨{}, []⟩ := ⟨rfl, rfl⟩
  refine hw.invariant stable (meets cfg) hfresh (fun w => Sends cfg w.trace) (.inl rfl) ?_ hp hsticky
  intro t w w' hguar _ hw
  cases t with
  | clientTask => exact hguar.1 hw
  | remoteTask =>
      refine hw.mono ?_ hguar.2.writes
      simp [chunksFrom, hguar.2.answers]

end Uplink

/-- **What the server is sent** is at all times nothing, or the beginning of the request for what the
    application asked and of what was read from the application behind the piece that completes its own
    request, if no write to the server succeeds after a failed one. -/
theorem uplink_shape (cfg : VlessClientConfig) {p : Pool kind.object} (hp : Reachable cfg p)
    (hsticky : Sticky (K := kind) Fd.remote p.world.trace) : Sends cfg p.world.trace :=
  Uplink.sends_of_written cfg hp .recorded hsticky

/-- The byte 42 comes with the request and is lost, the byte 43 follows the encoded request. -/
theorem uplink_shape_early :
    (wroteTo (K := kind) Fd.remote (sampleRun [[5, 1, 0], plainConnect ++ [42], [43]] [[0, 0]]
        (List.replicate 11 .clientTask)).world.trace).getLast? = some 43 ∧
      Sends plainClient (sampleRun [[5, 1, 0], plainConnect ++ [42], [43]] [[0, 0]]
        (List.replicate 11 .clientTask)).world.trace :=
  ⟨by decide +kernel, uplink_shape plainClient (sampleRun_reachable _ _ _) (by decide +kernel)⟩

end Socks5Connection

end Cppvless
