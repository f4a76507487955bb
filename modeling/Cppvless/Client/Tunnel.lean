import Cppvless.Client.Handshake
import Cppvless.Net.Script

set_option autoImplicit false

/-! # A SOCKS5 session as the application and the server see it

Towards the application a session holds a `Conversation`: the answer to the greeting, one reply, and
after a successful one to CONNECT what the server sends behind its response header. `clientTask` writes
all of it until it starts `remoteTask`, which carries the rest. Towards the server the session sends the
encoded request and then what it reads from the application itself; what the handshake read into
`stream_` beyond the request stays there. -/

namespace Cppvless

open Coroutine

namespace Socks5Connection

/-- The application has sent a greeting without authentication and a request. -/
def Requested (req : Socks5.Request) (tr : List (Event kind.object)) : Prop :=
  ∃ g r rest, Socks5.GreetingBytes g true ∧ Socks5.RequestBytes r req ∧
    readFrom (K := kind) Fd.app tr = g ++ r ++ rest

/-- What a session may say to the application. -/
inductive Conversation (w : World kind.object) : Bytes → Prop
  | refused : Conversation w [5, 0xFF]
  | denied (reply : Socks5.Reply) (bind : Address) (port : UInt16) (answer : Bytes)
      (hreply : reply ≠ .success) (hencode : Socks5.Parser.encodeReply reply bind port = .ok answer) :
      Conversation w ([5, 0] ++ answer)
  | associated (req : Socks5.Request) (bind : Address) (port : UInt16) (answer : Bytes)
      (hencode : Socks5.Parser.encodeReply .success bind port = .ok answer)
      (hreq : Requested req w.trace) (hcmd : req.cmd = .udpAssociate)
      (hbound : Event.io (O := kind.object) (.inr .bindUdp) true ∈ w.trace) :
      Conversation w ([5, 0] ++ answer)
  /-- `data` is what was read from the server so far, after the header of its response. -/
  | connected (req : Socks5.Request) (bind : Address) (port : UInt16) (answer header data : Bytes)
      (hencode : Socks5.Parser.encodeReply .success bind port = .ok answer)
      (hreq : Requested req w.trace) (hcmd : req.cmd = .connect)
      (hfd : w.mem.remoteFd = some .remote) (hheader : Encoder.ResponseBytes header)
      (hread : readFrom (K := kind) Fd.remote w.trace = header ++ data) :
      Conversation w ([5, 0] ++ answer ++ data)

variable {w w' : World kind.object}

theorem Requested.mono {req : Socks5.Request} {tr tr' : List (Event kind.object)} (h : Requested req tr)
    (htr : tr <+: tr') : Requested req tr' := by
  obtain ⟨g, r, rest, hg, hr, hread⟩ := h
  obtain ⟨more, hmore⟩ := readFrom_mono (K := kind) Fd.app htr
  refine ⟨g, r, rest ++ more, hg, hr, ?_⟩
  rw [← hmore, hread, List.append_assoc]

theorem Conversation.mono {line : Bytes} (h : Conversation w line) (htrace : w.trace <+: w'.trace)
    (hfd : w'.mem.remoteFd = w.mem.remoteFd)
    (hanswers : answers (K := kind) Fd.remote w'.trace = answers (K := kind) Fd.remote w.trace) :
    Conversation w' line := by
  cases h with
  | refused => exact .refused
  | denied reply bind port answer hreply hencode => exact .denied reply bind port answer hreply hencode
  | associated req bind port answer hencode hreq hcmd hbound =>
      exact .associated req bind port answer hencode (hreq.mono htrace) hcmd (htrace.subset hbound)
  | connected req bind port answer header data hencode hreq hcmd hremote hheader hread =>
      refine .connected req bind port answer header data hencode (hreq.mono htrace) hcmd
        (hfd.trans hremote) hheader ?_
      rw [readFrom, chunksFrom, hanswers]
      exact hread

namespace Tunnel

/-- Towards the server: the header of the request, and what is read from the application after the
    first `skip`. -/
def up (skip header : Bytes) : Flow Fd := ⟨.app, .remote, skip, header⟩

/-- Towards the application: what was said until the relay, and what the server sends after the header
    of its response. -/
def down (header lead : Bytes) : Flow Fd := ⟨.remote, .app, header, lead⟩

/-- What was written to the application is the beginning of a conversation. -/
def Speaks (w : World kind.object) : Prop :=
  ∃ line, Conversation w line ∧ wroteTo (K := kind) Fd.app w.trace <+: line

/-- If the application's stream, a CONNECT request and `data`, has ended and nothing failed, the server
    has got `data` exactly if no piece of the stream holds both the end of the request and data. -/
def Forwarded (cfg : VlessClientConfig) (tr : List (Event kind.object)) : Prop :=
  ∀ g r req data, Socks5.GreetingBytes g true → Socks5.RequestBytes r req → req.cmd = .connect →
    readFrom (K := kind) Fd.app tr = g ++ r ++ data → EofOn (K := kind) Fd.app tr →
    ¬ WriteFailed (K := kind) Fd.remote tr →
    ((∃ header, Encoder.encodeRequest (cfg.request (toVlessRequest req .tcp)) = .ok header ∧
        wroteTo (K := kind) Fd.remote tr = header ++ data) ↔
      ∃ front, front <+: chunksFrom (K := kind) Fd.app tr ∧ front.flatten = g ++ r)

/-- A request was read from the pieces, and `lost` with it. -/
structure Read (req : Socks5.Request) (lost : Bytes) (g r : Bytes) (tr : List (Event kind.object)) :
    Prop where
  greeting : Socks5.GreetingBytes g true
  request : Socks5.RequestBytes r req
  pieces : ∃ chunks, chunks <+: chunksFrom (K := kind) Fd.app tr ∧ chunks.flatten = g ++ r ++ lost ∧
    UringBufferedStream.Within chunks lost

/-- The server has accepted the request for the application: `lead` is what the application is told,
    `header` the header of the server's response. -/
structure Granted (header lead : Bytes) (w : World kind.object) : Prop where
  reply : ∃ bind port answer, Socks5.Parser.encodeReply .success bind port = .ok answer ∧
    lead = [5, 0] ++ answer
  requested : ∃ req, Requested req w.trace ∧ req.cmd = .connect
  remoteFd : w.mem.remoteFd = some .remote
  header : Encoder.ResponseBytes header

/-- Nothing that the conversation depends on has changed, but for what was read from the
    application. -/
structure KeepsDown (w w' : World kind.object) : Prop where
  trace : w.trace <+: w'.trace
  writes : writes (K := kind) Fd.app w'.trace = writes (K := kind) Fd.app w.trace
  answers : answers (K := kind) Fd.remote w'.trace = answers (K := kind) Fd.remote w.trace
  started : w'.mem.remoteTaskStarted = w.mem.remoteTaskStarted
  remoteFd : w'.mem.remoteFd = w.mem.remoteFd

/-- Nothing that the flow towards the server depends on has changed. -/
structure KeepsUp (w w' : World kind.object) : Prop where
  writes : writes (K := kind) Fd.remote w'.trace = writes (K := kind) Fd.remote w.trace
  answers : answers (K := kind) Fd.app w'.trace = answers (K := kind) Fd.app w.trace
  started : w'.mem.remoteTaskStarted = w.mem.remoteTaskStarted

/-- What the remote task finds. -/
structure Relaying (w : World kind.object) : Prop where
  started : w.mem.remoteTaskStarted = true
  stream : w.mem.remoteStream.fd = .remote
  carries : ∃ header lead, Granted header lead w ∧ (down header lead).Carries [] w.trace

variable (cfg : VlessClientConfig)

/-- Until the remote task is started, `clientTask` speaks to both sides; then each task has its
    direction. -/
def contract : Contract kind.object where
  env tr := ∀ fd, Sticky (K := kind) fd tr
  guar
    | .clientTask, w, w' => (Speaks w → Speaks w') ∧
        (w.mem.remoteTaskStarted = true → KeepsDown w w')
    | .remoteTask, w, w' => w.mem.remoteTaskStarted = true ∧ Speaks w' ∧ KeepsUp w w'
  parked t _ w := t = Task.clientTask → Forwarded cfg w.trace
  pre
    | .clientTask, w => w.mem = {} ∧ w.trace = []
    | .remoteTask, w => Relaying w
  post t w := t = Task.clientTask → Forwarded cfg w.trace

variable {cfg} {w₀ : World kind.object}

theorem KeepsUp.forwarded (h : KeepsUp w w') (hw : Forwarded cfg w.trace) :
    Forwarded cfg w'.trace := by
  simpa only [Forwarded, EofOn, WriteFailed, readFrom, chunksFrom, wroteTo, h.answers, h.writes] using hw

theorem forwarded_of_not_eof {tr : List (Event kind.object)} (h : ¬ EofOn (K := kind) Fd.app tr) :
    Forwarded cfg tr := fun _ _ _ _ _ _ _ _ heof => absurd heof h

theorem rely_client (h : (contract cfg).rely Task.clientTask w w') :
    w.mem.remoteTaskStarted = true ∧ KeepsUp w w' := by
  obtain ⟨u, hu, hg, -⟩ := h
  cases u with
  | clientTask => exact absurd rfl hu
  | remoteTask => exact ⟨hg.1, hg.2.2⟩

theorem rely_remote (h : (contract cfg).rely Task.remoteTask w w')
    (hs : w.mem.remoteTaskStarted = true) : KeepsDown w w' := by
  obtain ⟨u, hu, hg, -⟩ := h
  cases u with
  | clientTask => exact hg.2 hs
  | remoteTask => exact absurd rfl hu

theorem stable : (contract cfg).Stable where
  env_prefix _ _ h fd := (h fd).of_append
  parked t o w w' h hr ht := by
    subst ht
    exact (rely_client hr).2.forwarded (h rfl)
  post t w w' h hr ht := by
    subst ht
    exact (rely_client hr).2.forwarded (h rfl)

/-! ## Conversations go on -/

theorem KeepsDown.speaks (h : KeepsDown w w') (hw : Speaks w) : Speaks w' := by
  obtain ⟨line, hline, hwrote⟩ := hw
  refine ⟨line, hline.mono h.trace h.remoteFd h.answers, ?_⟩
  rw [wroteTo, h.writes]
  exact hwrote

theorem Granted.mono {header lead : Bytes} (h : Granted header lead w) (htrace : w.trace <+: w'.trace)
    (hfd : w'.mem.remoteFd = w.mem.remoteFd) : Granted header lead w' := by
  obtain ⟨req, hreq, hcmd⟩ := h.requested
  exact ⟨h.reply, ⟨req, hreq.mono htrace, hcmd⟩, hfd.trans h.remoteFd, h.header⟩

/-- What was granted makes every byte the server sends a part of the conversation. -/
theorem Granted.speaks {header lead pending : Bytes} (h : Granted header lead w)
    (hcarries : (down header lead).Carries pending w.trace) : Speaks w := by
  obtain ⟨bind, port, answer, hencode, rfl⟩ := h.reply
  obtain ⟨req, hreq, hcmd⟩ := h.requested
  obtain ⟨data, hread, hwrote⟩ := hcarries.written
  exact ⟨_, .connected req bind port answer header data hencode hreq hcmd h.remoteFd h.header hread,
    hwrote⟩

/-- A member change of the flags that only concern the ends of the coroutines. -/
theorem keepsDown_call {f : Mem → Mem × List (Syscall Fd)}
    (hs : (f w.mem).1.remoteTaskStarted = w.mem.remoteTaskStarted)
    (hfd : (f w.mem).1.remoteFd = w.mem.remoteFd) : KeepsDown w (w.call f) where
  trace := List.prefix_append _ _
  writes := writes_call _ _ _
  answers := answers_call _ _ _
  started := hs
  remoteFd := hfd

theorem keepsDown_push {e : Event kind.object} (hwrote : wrote (K := kind) Fd.app e = none)
    (hheard : heard (K := kind) Fd.remote e = none) : KeepsDown w (w.push e) where
  trace := List.prefix_append _ _
  writes := by simp [Cppvless.writes, hwrote]
  answers := by simp [Cppvless.answers, hheard]
  started := rfl
  remoteFd := rfl

theorem keepsUp_push {e : Event kind.object} (hwrote : wrote (K := kind) Fd.remote e = none)
    (hheard : heard (K := kind) Fd.app e = none) : KeepsUp w (w.push e) where
  writes := by simp [Cppvless.writes, hwrote]
  answers := by simp [Cppvless.answers, hheard]
  started := rfl

/-! ## The remote task -/

theorem remote_copies (header lead : Bytes) : FlowCopies (contract cfg) Task.remoteTask
    (down header lead) (fun w => w.mem.remoteTaskStarted = true ∧ Granted header lead w)
    fun w => w.mem.remoteTaskStarted = true ∧ Granted header lead w := by
  have hstays : ∀ (S : NetOp Fd → Prop) pending, Stays (contract cfg) Task.remoteTask S fun w =>
      (down header lead).Carries pending w.trace ∧
        w.mem.remoteTaskStarted = true ∧ Granted header lead w := by
    intro S pending
    refine ⟨fun w w' ⟨hcarries, hs, hgranted⟩ hr => ?_, fun _ _ _ _ => nofun⟩
    have hkeeps := rely_remote hr hs
    exact ⟨hcarries.congr hkeeps.answers hkeeps.writes, hkeeps.started.trans hs,
      hgranted.mono hkeeps.trace hkeeps.remoteFd⟩
  have hpush : ∀ {w : World kind.object} {e : Event kind.object}, Granted header lead w →
      Granted header lead (w.push e) := fun hw => hw.mono (List.prefix_append _ _) rfl
  refine ⟨⟨fun tr h => h _, hstays _, ?_⟩, fun _ => id, hstays _ [], ?_, hstays _ [], ?_⟩
  · intro w e out failed pending ⟨hs, hgranted⟩ he hcarries _
    exact ⟨⟨hs, (hpush hgranted).speaks hcarries,
      keepsUp_push (he.wrote_other _ nofun) (he.heard_none _)⟩, hs, hpush hgranted⟩
  · intro w e rr ⟨hs, hgranted⟩ he hcarries _
    refine ⟨⟨hs, (hpush hgranted).speaks hcarries,
      keepsUp_push (he.wrote_none _) (he.heard_other _ nofun)⟩, ?_⟩
    split
    · exact ⟨hs, hpush hgranted⟩
    · exact ⟨hs, hpush hgranted⟩
  · intro w o r ⟨hs, hgranted⟩ ho hcarries _
    exact ⟨⟨hs, (hpush hgranted).speaks hcarries,
      keepsUp_push (wrote_eq_none ho.not_writes _) (heard_eq_none ho.not_reads _)⟩, hs,
      hpush hgranted⟩

theorem wp_relayRemoteToApp (hw : Relaying w) :
    wp (contract cfg) Task.remoteTask relayRemoteToApp (Returns fun _ w' =>
      w'.mem.remoteTaskStarted = true ∧ Speaks w') w := by
  obtain ⟨header, lead, hgranted, hcarries⟩ := hw.carries
  refine wp_get_seq (O := kind.object) ?_
  refine wp_then ((remote_copies header lead).wp_copyStream rfl hw.stream _
    ⟨hcarries, hw.started, hgranted⟩) ?_
  intro _ w ⟨hcarries, hs, hgranted⟩
  exact ⟨hs, hgranted.speaks hcarries⟩

theorem finishRemoteTask_keeps (s : Mem) :
    (finishRemoteTask s).1.remoteTaskStarted = s.remoteTaskStarted ∧
      (finishRemoteTask s).1.remoteFd = s.remoteFd := by
  cases h : s.appReadDone with
  | true => simp [finishRemoteTask, h]
  | false => simp [finishRemoteTask, h]

theorem wp_remoteTask (hw : Relaying w) :
    wp (contract cfg) Task.remoteTask remoteTask
      (fun _ => (contract cfg).post Task.remoteTask) w := by
  refine wp_then (R := fun _ w' => w'.mem.remoteTaskStarted = true ∧ Speaks w')
    (wp_tryCatch (wp_returns (wp_relayRemoteToApp hw) fun _ _ hw => hw)) ?_
  intro _ w ⟨hs, hspeaks⟩
  obtain ⟨hstarted, hfd⟩ := finishRemoteTask_keeps w.mem
  have hkeeps : KeepsDown w (w.call finishRemoteTask) := keepsDown_call hstarted hfd
  refine wp_member (O := kind.object) fun _ => ⟨⟨hs, hkeeps.speaks hspeaks, ?_⟩, nofun⟩
  exact ⟨writes_call _ _ _, answers_call _ _ _, hstarted⟩

/-! ## Speaking to the application, alone -/

/-- Since `w₀` there was traffic on `fd` only. -/
structure Since (fd : Fd) (w₀ w : World kind.object) : Prop where
  mem : w.mem = w₀.mem
  trace : w₀.trace <+: w.trace
  writes : ∀ fd', fd' ≠ fd → writes (K := kind) fd' w.trace = writes (K := kind) fd' w₀.trace
  answers : ∀ fd', fd' ≠ fd → answers (K := kind) fd' w.trace = answers (K := kind) fd' w₀.trace

/-- Since `w₀` the application was only spoken to. -/
structure Saying (w₀ w : World kind.object) : Prop extends Since .app w₀ w where
  heard : Cppvless.answers (K := kind) Fd.app w.trace = Cppvless.answers (K := kind) Fd.app w₀.trace

theorem Since.refl (fd : Fd) (w : World kind.object) : Since fd w w :=
  ⟨rfl, List.prefix_rfl, fun _ _ => rfl, fun _ _ => rfl⟩

theorem Saying.refl (w : World kind.object) : Saying w w := ⟨.refl _ w, rfl⟩

theorem Since.push {fd : Fd} (h : Since fd w₀ w) {e : Event kind.object}
    (hheard : ∀ fd', fd' ≠ fd → heard (K := kind) fd' e = none)
    (hwrote : ∀ fd', fd' ≠ fd → wrote (K := kind) fd' e = none) : Since fd w₀ (w.push e) where
  mem := h.mem
  trace := h.trace.trans (List.prefix_append _ _)
  writes fd' hfd := by
    rw [← h.writes fd' hfd]
    simp [Cppvless.writes, hwrote fd' hfd]
  answers fd' hfd := by
    rw [← h.answers fd' hfd]
    simp [Cppvless.answers, hheard fd' hfd]

theorem Saying.push (h : Saying w₀ w) {e : Event kind.object}
    (hheard : ∀ fd, Cppvless.heard (K := kind) fd e = none)
    (hwrote : ∀ fd, fd ≠ Fd.app → wrote (K := kind) fd e = none) : Saying w₀ (w.push e) where
  toSince := h.toSince.push (fun fd _ => hheard fd) hwrote
  heard := by
    rw [← h.heard]
    simp [Cppvless.answers, hheard]

theorem Saying.answers_eq (h : Saying w₀ w) (fd : Fd) :
    Cppvless.answers (K := kind) fd w.trace = Cppvless.answers (K := kind) fd w₀.trace := by
  by_cases hfd : fd = .app
  · rw [hfd, h.heard]
  · exact h.answers fd hfd

theorem Saying.conversation (h : Saying w₀ w) {line : Bytes} (hline : Conversation w₀ line) :
    Conversation w line :=
  hline.mono h.trace (by rw [h.mem]) (h.answers_eq .remote)

theorem guar_alone (hs : w.mem.remoteTaskStarted = false) (hspeaks : Speaks w') :
    (contract cfg).guar Task.clientTask w w' :=
  ⟨fun _ => hspeaks, fun h => absurd h (by simp [hs])⟩

/-- `clientTask` is alone and the application's stream has not ended. -/
structure Lone (w : World kind.object) : Prop where
  started : w.mem.remoteTaskStarted = false
  noEof : ¬ EofOn (K := kind) Fd.app w.trace

theorem Saying.lone (h : Saying w₀ w) (hw : Lone w₀) : Lone w := by
  refine ⟨by rw [h.mem, hw.started], ?_⟩
  rw [EofOn, h.heard]
  exact hw.noEof

theorem stays_lone (S : NetOp Fd → Prop) {I : World kind.object → Prop} (hI : ∀ w, I w → Lone w) :
    Stays (contract cfg) Task.clientTask S I :=
  ⟨fun w _ hw hr => absurd (rely_client hr).1 (by simp [(hI w hw).started]),
    fun _ w _ hw _ => forwarded_of_not_eof (hI w hw).noEof⟩

/-- Of `data`, `rest` is still to be said after `lead`. -/
structure Says (w₀ : World kind.object) (lead data rest : Bytes) (w : World kind.object) : Prop where
  saying : Saying w₀ w
  said : wroteTo (K := kind) Fd.app w.trace ++ rest = lead ++ data ∨
    WriteFailed (K := kind) Fd.app w.trace ∧ wroteTo (K := kind) Fd.app w.trace <+: lead ++ data

theorem Says.wrote {lead data rest : Bytes} (h : Says w₀ lead data rest w) :
    wroteTo (K := kind) Fd.app w.trace <+: lead ++ data := by
  rcases h.said with hsaid | ⟨-, hsaid⟩
  · exact ⟨rest, hsaid⟩
  · exact hsaid

theorem Says.write {lead data out rest : Bytes} {failed : Bool} {e : Event kind.object}
    (h : Says w₀ lead data (out ++ rest) w) (he : IsWrite Fd.app out failed e)
    (hsticky : Sticky (K := kind) Fd.app (w.push e).trace) :
    Says w₀ lead data rest (w.push e) := by
  refine ⟨h.saying.push he.heard_none fun fd hfd => he.wrote_other fd hfd, ?_⟩
  rw [World.push_trace, wroteTo_append, wroteTo_single he.wrote_self, writeFailed_append]
  rcases h.said with hsaid | ⟨hfailed, hsaid⟩
  · exact .inl (by rw [List.append_assoc]; exact hsaid)
  · -- nothing goes through any more
    obtain ⟨rfl, rfl⟩ : out = [] ∧ failed = true := by
      simpa using Sticky.next hsticky he.wrote_self hfailed
    exact .inr ⟨.inl hfailed, by rw [List.append_nil]; exact hsaid⟩

/-- **Saying `data` to the application** after `lead`, as a part of `line`. -/
theorem wp_say {lead data line : Bytes} (hdata : data ≠ []) (hlone : Lone w)
    (hlead : Wrote (K := kind) Fd.app lead w.trace) (hline : Conversation w line)
    (hpart : lead ++ data <+: line) :
    wp (contract cfg) Task.clientTask (appStream.writeFull (K := kind) data) (Returns fun _ w' =>
      Saying w w' ∧ Wrote (K := kind) Fd.app (lead ++ data) w'.trace) w := by
  have hstart : Says w lead data data w := by
    refine ⟨.refl w, ?_⟩
    rcases hlead with hlead | ⟨hfailed, hlead⟩
    · exact .inl (by rw [hlead])
    · exact .inr ⟨hfailed, hlead.trans (List.prefix_append _ _)⟩
  refine wp_returns (NetStream.wp_writeFull (K := kind) _ (P := Says w lead data)
    (F := fun w' => Saying w w' ∧ Wrote (K := kind) Fd.app (lead ++ data) w'.trace)
    (fun rest => stays_lone _ fun w' hw' => hw'.saying.lone hlone) ?_ hdata hstart) ?_
  · intro w' e out rest failed hw' he henv
    have he : IsWrite Fd.app out failed e := he
    have hnext := hw'.write he (henv .app)
    refine ⟨guar_alone (hw'.saying.lone hlone).started
      ⟨line, hnext.saying.conversation hline, hnext.wrote.trans hpart⟩, ?_⟩
    cases failed with
    | false => exact hnext
    | true =>
        refine ⟨hnext.saying, .inr ⟨?_, hnext.wrote⟩⟩
        exact (writeFailed_append _ _ _).2 (.inr ((writeFailed_single he.wrote_self).2 rfl))
  · intro n w' hw'
    have hdone : Says w lead data [] w' →
        Saying w w' ∧ Wrote (K := kind) Fd.app (lead ++ data) w'.trace := by
      intro hw'
      refine ⟨hw'.saying, ?_⟩
      have hsaid := hw'.said
      rw [List.append_nil] at hsaid
      exact hsaid
    rcases hw' with ⟨-, hw' | hw'⟩ | ⟨-, hw'⟩
    · exact hdone hw'
    · exact hw'
    · exact hw'

/-! ## Until the request is known -/

/-- `lead` was said to the application, and the server is not there yet. -/
structure Opening (lead : Bytes) (w : World kind.object) : Prop where
  started : w.mem.remoteTaskStarted = false
  answers : answers (K := kind) Fd.remote w.trace = []
  writes : writes (K := kind) Fd.remote w.trace = []
  wrote : Wrote (K := kind) Fd.app lead w.trace

theorem encodeReply_ipv4 (reply : Socks5.Reply) (ip : List.Vector UInt8 4) (port : UInt16) :
    ∃ answer, Socks5.Parser.encodeReply reply (.ipv4 ip) port = .ok answer ∧ answer ≠ [] :=
  ⟨_, rfl, by simp⟩

/-- A beginning of a refusal is one of a conversation. -/
theorem speaks_of_beginning (h : wroteTo (K := kind) Fd.app w.trace <+: [5, 0]) : Speaks w := by
  obtain ⟨answer, hencode, -⟩ := encodeReply_ipv4 .generalFailure (List.Vector.replicate 4 0) 0
  exact ⟨_, .denied .generalFailure _ _ answer nofun hencode, h.trans (List.prefix_append _ _)⟩

theorem listens {lead : Bytes} (hlead : lead <+: [5, 0]) : Listens (contract cfg) (Opening lead) where
  alone w w' hw hr := absurd (rely_client hr).1 (by simp [hw.started])
  parked o w _ hnoEof _ := forwarded_of_not_eof hnoEof
  guar w w' hw hw' := guar_alone hw.started (speaks_of_beginning (hw'.wrote.written.trans hlead))
  push w e hw hheard hwrote := by
    refine ⟨hw.started, ?_, ?_, ?_⟩
    · rw [World.push_trace, answers_append, hw.answers, answers_other (hheard .remote nofun)]
      rfl
    · rw [World.push_trace, writes_append, hw.writes]
      simp [Cppvless.writes, hwrote Fd.remote]
    · simpa [Wrote, wroteTo_other (hwrote Fd.app), writeFailed_other (hwrote Fd.app)] using hw.wrote
  modify w stream hw := by
    refine ⟨hw.started, ?_, ?_, ?_⟩
    · rw [answers_call]
      exact hw.answers
    · rw [writes_call]
      exact hw.writes
    · rw [Wrote, WriteFailed, wroteTo, writes_call]
      exact hw.wrote

theorem Opening.lone {lead consumed : Bytes} (h : Listening (Opening lead) consumed w) : Lone w :=
  ⟨h.kept.started, h.noEof⟩

/-- Having said something, the session goes on listening. -/
theorem Saying.listening {lead lead' consumed : Bytes} (h : Saying w₀ w)
    (hw : Listening (Opening lead) consumed w₀) (hlead : Wrote (K := kind) Fd.app lead' w.trace) :
    Listening (Opening lead') consumed w where
  kept := by
    refine ⟨?_, ?_, ?_, hlead⟩
    · rw [h.mem, hw.kept.started]
    · rw [h.answers .remote nofun, hw.kept.answers]
    · rw [h.writes .remote nofun, hw.kept.writes]
  noEof := (h.lone (Opening.lone hw)).noEof
  bytes := by
    rw [h.mem, readFrom, chunksFrom, h.heard]
    exact hw.bytes
  within := by
    rw [h.mem, chunksFrom, h.heard]
    exact hw.within

/-- The greeting and the request were read and the first was answered. -/
def Asked (req : Socks5.Request) (w : World kind.object) : Prop :=
  ∃ g r, Socks5.GreetingBytes g true ∧ Socks5.RequestBytes r req ∧ Listening (Opening [5, 0]) (g ++ r) w

section Asked

variable {req : Socks5.Request}

theorem Asked.opening (h : Asked req w) : Opening [5, 0] w := by
  obtain ⟨_, _, -, -, hw⟩ := h
  exact hw.kept

theorem Asked.lone (h : Asked req w) : Lone w := by
  obtain ⟨_, _, -, -, hw⟩ := h
  exact Opening.lone hw

theorem Asked.requested (h : Asked req w) : Requested req w.trace := by
  obtain ⟨g, r, hg, hr, hw⟩ := h
  exact ⟨g, r, _, hg, hr, hw.bytes⟩

theorem Asked.speaks (h : Asked req w) : Speaks w := speaks_of_beginning h.opening.wrote.written

/-- An answer that moves no byte. -/
theorem Asked.quiet (h : Asked req w) {e : Event kind.object} (he : IsQuiet e) :
    Asked req (w.push e) := by
  obtain ⟨g, r, hg, hr, hw⟩ := h
  have hsaying := (Saying.refl w).push he.heard_none fun fd _ => he.wrote_none fd
  refine ⟨g, r, hg, hr, hsaying.listening hw ?_⟩
  simpa [Wrote, wroteTo_other (he.wrote_none Fd.app), writeFailed_other (he.wrote_none Fd.app)]
    using hw.kept.wrote

/-- A system call. -/
theorem Asked.call (h : Asked req w) {f : Mem → Mem × List (Syscall Fd)} (hf : ∀ s, (f s).1 = s) :
    Asked req (w.call f) := by
  obtain ⟨g, r, hg, hr, hw⟩ := h
  have hsaying : Saying w (w.call f) :=
    ⟨⟨hf w.mem, List.prefix_append _ _, fun fd _ => writes_call fd w f,
      fun fd _ => answers_call fd w f⟩, answers_call _ w f⟩
  refine ⟨g, r, hg, hr, hsaying.listening hw ?_⟩
  rw [Wrote, WriteFailed, wroteTo, writes_call]
  exact hw.kept.wrote

end Asked

/-! ## What was asked decides what is forwarded -/

/-- The bytes of the request determine it. -/
theorem requested_unique {g r g' r' rest rest' : Bytes} {req req' : Socks5.Request}
    (hg : Socks5.GreetingBytes g true) (hr : Socks5.RequestBytes r req)
    (hg' : Socks5.GreetingBytes g' true) (hr' : Socks5.RequestBytes r' req')
    (h : g ++ r ++ rest = g' ++ r' ++ rest') : g = g' ∧ r = r' ∧ req = req' ∧ rest = rest' := by
  rw [List.append_assoc, List.append_assoc] at h
  obtain ⟨hgreeting, -, h⟩ := Socks5.Parser.readGreeting_accepts.unique hg hg' h
  obtain ⟨hrequest, hreq, hrest⟩ := Socks5.Parser.readRequest_accepts.unique hr hr' h
  exact ⟨hgreeting, hrequest, hreq, hrest⟩

theorem forwarded_of_malformed_greeting {tr : List (Event kind.object)}
    (h : Malformed Socks5.GreetingBytes [] tr) : Forwarded cfg tr := by
  obtain ⟨s, hread, hno⟩ := h
  intro g r req data hg hr _ hbytes
  rw [hread, List.nil_append, List.append_assoc] at hbytes
  exact absurd hbytes (hno g true _ hg)

theorem forwarded_of_malformed_request {tr : List (Event kind.object)} {g : Bytes}
    (hg : Socks5.GreetingBytes g true) (h : Malformed Socks5.RequestBytes g tr) :
    Forwarded cfg tr := by
  obtain ⟨s, hread, hno⟩ := h
  intro g' r req data hg' hr _ hbytes
  rw [hread, List.append_assoc] at hbytes
  obtain ⟨-, -, hbytes⟩ := Socks5.Parser.readGreeting_accepts.unique hg hg' hbytes
  exact absurd hbytes (hno r req data hr)

theorem forwarded_of_other_command {tr : List (Event kind.object)} {req : Socks5.Request}
    (h : Requested req tr) (hcmd : req.cmd ≠ .connect) : Forwarded cfg tr := by
  obtain ⟨g, r, rest, hg, hr, hread⟩ := h
  intro g' r' req' data hg' hr' hcmd' hbytes
  obtain ⟨-, -, rfl, -⟩ := requested_unique hg hr hg' hr' (hread.symm.trans hbytes)
  exact absurd hcmd' hcmd

/-- The request that begins the stream `skip` was sent as `header`. -/
def Sent (cfg : VlessClientConfig) (skip header : Bytes) (tr : List (Event kind.object)) : Prop :=
  ∃ req g r lost, Read req lost g r tr ∧ skip = g ++ r ++ lost ∧
    Encoder.encodeRequest (cfg.request (toVlessRequest req .tcp)) = .ok header

theorem Sent.congr {skip header : Bytes} {tr tr' : List (Event kind.object)} (h : Sent cfg skip header tr)
    (hchunks : chunksFrom (K := kind) Fd.app tr <+: chunksFrom (K := kind) Fd.app tr') :
    Sent cfg skip header tr' := by
  obtain ⟨req, g, r, lost, ⟨hg, hr, chunks, hfirst, hread⟩, hskip, hencode⟩ := h
  exact ⟨req, g, r, lost, ⟨hg, hr, chunks, hfirst.trans hchunks, hread⟩, hskip, hencode⟩

/-- **What the relay forwards** is what follows the bytes lost with the request. -/
theorem Sent.forwarded {skip header : Bytes} {tr : List (Event kind.object)} (h : Sent cfg skip header tr)
    (hcarries : (up skip header).Carries [] tr) : Forwarded cfg tr := by
  obtain ⟨req, g, r, lost, ⟨hg, hr, chunks, hfirst, hflatten, hwithin⟩, rfl, hencode⟩ := h
  intro g' r' req' data hg' hr' _ hbytes _ hok
  obtain ⟨body, hbody, hwrote⟩ := hcarries.exact hok
  have hbody : readFrom (K := kind) Fd.app tr = g ++ r ++ lost ++ body := hbody
  rw [List.append_nil] at hwrote
  have hwrote : wroteTo (K := kind) Fd.remote tr = header ++ body := hwrote
  rw [hbody, List.append_assoc] at hbytes
  obtain ⟨rfl, rfl, rfl, rfl⟩ := requested_unique hg hr hg' hr' hbytes
  constructor
  · rintro ⟨header', hencode', hwrote'⟩
    obtain rfl := Except.ok.inj (hencode.symm.trans hencode')
    have hsame := List.append_cancel_left (hwrote.symm.trans hwrote')
    have hnil : lost = [] := by
      have hlength := congrArg List.length hsame
      rw [List.length_append] at hlength
      exact List.eq_nil_of_length_eq_zero (by omega)
    exact ⟨chunks, hfirst, by rw [hflatten, hnil, List.append_nil]⟩
  · rintro ⟨front, hfront, hflat⟩
    obtain rfl := hwithin.eq_nil hfirst hfront hflatten hflat
    exact ⟨header, hencode, hwrote⟩

/-! ## Replies -/

theorem wp_sendSocksReply {reply : Socks5.Reply} {ip : List.Vector UInt8 4} {port : UInt16}
    {answer line : Bytes} (hencode : Socks5.Parser.encodeReply reply (.ipv4 ip) port = .ok answer)
    (hlone : Lone w) (hlead : Wrote (K := kind) Fd.app [5, 0] w.trace) (hline : Conversation w line)
    (hpart : [5, 0] ++ answer <+: line) :
    wp (contract cfg) Task.clientTask (sendSocksReply reply (.ipv4 ip) port) (Returns fun _ w' =>
      Saying w w' ∧ Wrote (K := kind) Fd.app ([5, 0] ++ answer) w'.trace) w := by
  obtain ⟨answer', hencode', hne⟩ := encodeReply_ipv4 reply ip port
  obtain rfl := Except.ok.inj (hencode'.symm.trans hencode)
  unfold sendSocksReply
  rw [hencode]
  show wp _ _ (appStream.writeFull (K := kind) answer' >>= _) _ w
  exact wp_then (wp_say hne hlone hlead hline hpart) fun _ _ hw => hw

section Replies

variable {req : Socks5.Request}

/-- A reply that ends the session. -/
theorem wp_deny {reply : Socks5.Reply} (hreply : reply ≠ .success) (hlone : Lone w)
    (hlead : Wrote (K := kind) Fd.app [5, 0] w.trace) :
    wp (contract cfg) Task.clientTask (do
      let _ ← sendSocksReply reply anyAddress 0) (Returns fun _ w' => Forwarded cfg w'.trace) w := by
  obtain ⟨answer, hencode, -⟩ := encodeReply_ipv4 reply (List.Vector.replicate 4 0) 0
  have hline : Conversation w ([5, 0] ++ answer) := .denied reply _ 0 answer hreply hencode
  refine wp_then (wp_sendSocksReply hencode hlone hlead hline List.prefix_rfl) ?_
  intro _ w' ⟨hsaying, _⟩
  exact forwarded_of_not_eof (hsaying.lone hlone).noEof

/-! ## UDP ASSOCIATE -/

/-- A call that is answered on the spot and moves no byte. -/
theorem wp_call_asked {o : kind.object.Io.Op} (hs : kind.object.suspends o = false)
    (hquiet : ∀ r, IsQuiet (.io (O := kind.object) o r)) (hw : Asked req w) :
    wp (contract cfg) Task.clientTask (Prog.io (O := kind.object) o) (Returns fun r w' =>
      Asked req w' ∧ w' = w.answer o r) w := by
  refine wp_call hs fun r _ => ?_
  have hnext := hw.quiet (hquiet r)
  exact ⟨guar_alone hw.opening.started hnext.speaks, hnext, rfl⟩

/-- Nothing more is said, and nothing is forwarded. -/
structure Idle (w : World kind.object) : Prop where
  started : w.mem.remoteTaskStarted = false
  speaks : Speaks w
  requested : ∃ req, Requested req w.trace ∧ req.cmd ≠ .connect

theorem Idle.forwarded (h : Idle w) : Forwarded cfg w.trace := by
  obtain ⟨req, hreq, hcmd⟩ := h.requested
  exact forwarded_of_other_command hreq hcmd

theorem Idle.next (h : Idle w) (hkeeps : KeepsDown w w') : Idle w' := by
  obtain ⟨req, hreq, hcmd⟩ := h.requested
  exact ⟨hkeeps.started.trans h.started, hkeeps.speaks h.speaks, req, hreq.mono hkeeps.trace, hcmd⟩

/-- What happens while an association lasts. -/
def Waits : ObjOp kind.object → Prop
  | .get => True
  | .member f => ∀ s, (f s).1 = s
  | .io (.inl o) => ¬ o.Writes Fd.app ∧ ¬ o.Reads Fd.remote
  | .io (.inr _) => True
  | .spawn _ => False

theorem frame_idle : Frame (contract cfg) Task.clientTask Waits Idle where
  rely _ _ hw hr := absurd (rely_client hr).1 (by simp [hw.started])
  parked _ _ _ _ hw _ := hw.forwarded
  member f w hf hw _ := by
    have hnext := hw.next (keepsDown_call (f := f) (by rw [hf]) (by rw [hf]))
    exact ⟨guar_alone hw.started hnext.speaks, hnext⟩
  io o r w ho hw _ := by
    have hkeeps : KeepsDown w (w.answer o r) := by
      cases o with
      | inl o => exact keepsDown_push (wrote_eq_none ho.1 r) (heard_eq_none ho.2 r)
      | inr o => exact keepsDown_push rfl rfl
    exact ⟨guar_alone hw.started (hw.next hkeeps).speaks, hw.next hkeeps⟩
  spawn _ _ h := h.elim

theorem wp_runUdpAssociate (hw : Asked req w) (hcmd : req.cmd = .udpAssociate) :
    wp (contract cfg) Task.clientTask runUdpAssociate (fun _ w' => Forwarded cfg w'.trace) w := by
  have hdeny : ∀ {w}, Asked req w → wp (contract cfg) Task.clientTask (do
      let _ ← sendSocksReply .generalFailure anyAddress 0) (fun _ w' => Forwarded cfg w'.trace) w :=
    fun hw => wp_returns (wp_deny nofun hw.lone hw.opening.wrote) fun _ _ hw => hw
  unfold runUdpAssociate
  refine wp_then (wp_call_asked (o := .inl (.socket .udp .inet .dgram)) rfl
    (isQuiet_net (K := kind) (o := .socket .udp .inet .dgram) (fun _ => id) fun _ => id) hw) ?_
  intro opened w ⟨hw, _⟩
  split
  · exact hdeny hw
  · refine wp_then (wp_call_asked (o := .inr .bindUdp) rfl
      (isQuiet_ext (K := kind) ExtOp.bindUdp) hw) ?_
    intro bound w₁ ⟨hw, hevent⟩
    have hclose := hw.call (f := fun s => (s, [.close .udp])) fun _ => rfl
    cases bound with
    | false => exact wp_member_seq fun _ => ⟨guar_alone hw.opening.started hclose.speaks, hdeny hclose⟩
    | true =>
        refine wp_then (wp_call_asked (o := .inr .getsockname) rfl
          (isQuiet_ext (K := kind) ExtOp.getsockname) hw) ?_
        intro bndPort w₂ ⟨hw, hnext⟩
        obtain ⟨answer, hencode, -⟩ := encodeReply_ipv4 .success ⟨[127, 0, 0, 1], rfl⟩ bndPort
        have hbound : Event.io (O := kind.object) (.inr .bindUdp) true ∈ w₂.trace := by
          rw [hnext, hevent]
          simp
        have hline : Conversation w₂ ([5, 0] ++ answer) :=
          .associated req _ _ answer hencode hw.requested hcmd hbound
        refine wp_then (wp_sendSocksReply hencode hw.lone hw.opening.wrote hline List.prefix_rfl) ?_
        intro sent w₃ ⟨hsaying, hwrote⟩
        have hidle : Idle w₃ := by
          refine ⟨(hsaying.lone hw.lone).started, ⟨_, hsaying.conversation hline, hwrote.written⟩,
            req, hw.requested.mono hsaying.trace, ?_⟩
          rw [hcmd]
          exact nofun
        refine wp_mono (wp_of_uses frame_idle ?_ hidle) fun _ _ hw => hw.forwarded
        refine .ite (fun _ => .await fun _ => rfl) fun _ => ?_
        exact .bind (.await trivial) fun _ => .bind (only_awaitControlClose trivial fun _ => ⟨id, nofun⟩) fun _ => .await trivial

/-! ## CONNECT -/

/-- The handshake with the server takes place while nobody else is there. -/
theorem opens {B : Bytes → Prop} (hw₀ : Asked req w₀) :
    VlessClient.Opens (contract cfg) Task.clientTask Fd.remote B (Since .remote w₀) where
  alone w w' hw hr := absurd (rely_client hr).1 (by simp [hw.mem, hw₀.opening.started])
  parked o w hw _ := forwarded_of_not_eof (by
    rw [EofOn, hw.answers .app (by simp)]
    exact hw₀.lone.noEof)
  guar w w' hw hw' := by
    refine guar_alone (by rw [hw.mem, hw₀.opening.started]) (speaks_of_beginning ?_)
    rw [wroteTo, hw'.writes .app (by simp)]
    exact hw₀.opening.wrote.written
  push w e hw hheard hwrote _ := hw.push hheard hwrote
  close w hw := by
    refine ⟨hw.mem, hw.trace.trans (List.prefix_append _ _), fun fd hfd => ?_, fun fd hfd => ?_⟩
    · rw [writes_call, hw.writes fd hfd]
    · rw [answers_call, hw.answers fd hfd]

/-- The server has answered: `data` is what was read behind the header of its response. -/
structure Connected (cfg : VlessClientConfig) (header data : Bytes) (w : World kind.object) :
    Prop where
  lone : Lone w
  requested : ∃ req, Requested req w.trace ∧ req.cmd = .connect
  remoteFd : w.mem.remoteFd = some .remote
  accepted : Encoder.ResponseBytes header
  response : readFrom (K := kind) Fd.remote w.trace = header ++ data
  uplink : ∃ skip request, Sent cfg skip request w.trace ∧ (up skip request).Carries [] w.trace

theorem Connected.granted {header data answer : Bytes} {bind : Address} {port : UInt16}
    (h : Connected cfg header data w)
    (hencode : Socks5.Parser.encodeReply .success bind port = .ok answer) :
    Granted header ([5, 0] ++ answer) w :=
  ⟨⟨bind, port, answer, hencode, rfl⟩, h.requested, h.remoteFd, h.accepted⟩

theorem Connected.saying {header data : Bytes} (hw : Connected cfg header data w₀) (h : Saying w₀ w) :
    Connected cfg header data w := by
  obtain ⟨req, hreq, hcmd⟩ := hw.requested
  obtain ⟨skip, request, hsent, hcarries⟩ := hw.uplink
  refine ⟨h.lone hw.lone, ⟨req, hreq.mono h.trace, hcmd⟩, ?_, hw.accepted, ?_, skip, request,
    hsent.congr ?_, hcarries.congr h.heard (h.writes .remote nofun)⟩
  · rw [h.mem, hw.remoteFd]
  · rw [readFrom, chunksFrom, h.answers .remote nofun]
    exact hw.response
  · simp [chunksFrom, h.heard]

/-- With `remoteFd_` set. -/
theorem connected_of_exchanged (hw₀ : Asked req w₀) (hcmd : req.cmd = .connect)
    (hw : Since .remote w₀ w) {remaining : Bytes}
    (hexchanged : VlessClient.Exchanged (K := kind) Fd.remote cfg (toVlessRequest req .tcp) remaining
      w.trace) :
    ∃ header, Connected cfg header remaining
      (w.call fun s => ({ s with remoteFd := some .remote }, [])) := by
  obtain ⟨request, hencode, hwrote⟩ := hexchanged.sent
  obtain ⟨header, hheader, hread⟩ := hexchanged.response
  obtain ⟨g, r, hg, hr, hlistening⟩ := hw₀
  have hanswers := hw.answers .app nofun
  have hbytes : readFrom (K := kind) Fd.app w.trace = g ++ r ++ w₀.mem.stream.unread := by
    rw [readFrom, chunksFrom, hanswers]
    exact hlistening.bytes
  have hpieces : chunksFrom (K := kind) Fd.app w₀.trace = chunksFrom (K := kind) Fd.app w.trace := by
    rw [chunksFrom, chunksFrom, hanswers]
  have htrace : (w.call fun s => ({ s with remoteFd := some .remote }, [])).trace = w.trace := by
    simp
  refine ⟨header, ?_, ?_, rfl, hheader, ?_, ?_⟩
  · refine ⟨?_, ?_⟩
    · show w.mem.remoteTaskStarted = false
      rw [hw.mem, hlistening.kept.started]
    · rw [htrace, EofOn, hanswers]
      exact hlistening.noEof
  · rw [htrace]
    exact ⟨req, ⟨g, r, _, hg, hr, hbytes⟩, hcmd⟩
  · rw [htrace]
    exact hread
  · rw [htrace]
    refine ⟨g ++ r ++ w₀.mem.stream.unread, request, ⟨req, g, r, _, ⟨hg, hr, _, ?_, ?_,
      hlistening.within⟩, rfl, hencode⟩, ?_⟩
    · simp [hpieces]
    · exact hlistening.bytes
    · rw [← List.append_nil request] at hwrote
      refine Wrote.carries (K := kind) (f := up _ request) hwrote ?_
      rw [List.append_nil]
      exact hbytes

/-! ## Relaying to the server -/

/-- While it copies, `clientTask` is on its own direction; after the end of the stream only what it
    promised matters. -/
theorem client_copies (skip header : Bytes) : FlowCopies (contract cfg) Task.clientTask
    (up skip header)
    (fun w => w.mem.remoteTaskStarted = true ∧ Sent cfg skip header w.trace ∧
      ¬ EofOn (K := kind) Fd.app w.trace)
    fun w => w.mem.remoteTaskStarted = true ∧ Sent cfg skip header w.trace := by
  have hsame : ∀ {w w' : World kind.object}, KeepsUp w w' → Sent cfg skip header w.trace →
      Sent cfg skip header w'.trace := by
    intro w w' hkeeps hsent
    refine hsent.congr ?_
    simp [chunksFrom, hkeeps.answers]
  have hrunning : ∀ {w w' : World kind.object} {pending : Bytes},
      (up skip header).Carries pending w.trace ∧ w.mem.remoteTaskStarted = true ∧
        Sent cfg skip header w.trace ∧ ¬ EofOn (K := kind) Fd.app w.trace →
      (contract cfg).rely Task.clientTask w w' →
      (up skip header).Carries pending w'.trace ∧ w'.mem.remoteTaskStarted = true ∧
        Sent cfg skip header w'.trace ∧ ¬ EofOn (K := kind) Fd.app w'.trace := by
    rintro w w' pending ⟨hcarries, hs, hsent, hnoEof⟩ hr
    have hkeeps := (rely_client hr).2
    refine ⟨hcarries.congr hkeeps.answers hkeeps.writes, hkeeps.started.trans hs, hsame hkeeps hsent, ?_⟩
    rw [EofOn, hkeeps.answers]
    exact hnoEof
  have hguar : ∀ {w : World kind.object} {e : Event kind.object},
      wrote (K := kind) Fd.app e = none → heard (K := kind) Fd.remote e = none →
      (contract cfg).guar Task.clientTask w (w.push e) := by
    intro w e hwrote hheard
    have hkeeps : KeepsDown w (w.push e) := keepsDown_push hwrote hheard
    exact ⟨hkeeps.speaks, fun _ => hkeeps⟩
  have hpush : ∀ {w : World kind.object} {e : Event kind.object}, Sent cfg skip header w.trace →
      Sent cfg skip header (w.push e).trace := by
    intro w e hsent
    refine hsent.congr ?_
    rw [World.push_trace, chunksFrom_append]
    exact List.prefix_append _ _
  have happ : Fd.app ≠ Fd.remote := by simp
  refine ⟨⟨fun tr h => h _, fun pending => ⟨fun _ _ => hrunning, ?_⟩, ?_⟩, ?_,
    ⟨fun _ _ => hrunning, ?_⟩, ?_, ⟨?_, ?_⟩, ?_⟩
  · exact fun _ w _ hw _ => forwarded_of_not_eof hw.2.2.2
  · rintro w e out failed pending ⟨hs, hsent, hnoEof⟩ he _ _
    refine ⟨hguar (he.wrote_other _ happ) (he.heard_none _), hs, hpush hsent, fun heof => ?_⟩
    exact ((eofOn_append _ _ _).1 heof).elim hnoEof (eofOn_other (he.heard_none _))
  · exact fun w hw => ⟨hw.1, hw.2.1⟩
  · exact fun _ w _ hw _ => forwarded_of_not_eof hw.2.2.2
  · rintro w e rr ⟨hs, hsent, hnoEof⟩ he _ _
    refine ⟨hguar (he.wrote_none _) (he.heard_other _ happ.symm), ?_⟩
    split
    · next hok =>
        refine ⟨hs, hpush hsent, fun heof => ?_⟩
        rcases (eofOn_append _ _ _).1 heof with heof | heof
        · exact hnoEof heof
        · rw [rr.ok_eq, (eofOn_single he.heard_self).1 heof] at hok
          cases hok
    · exact ⟨hs, hpush hsent⟩
  · rintro w w' ⟨hcarries, hs, hsent⟩ hr
    have hkeeps := (rely_client hr).2
    exact ⟨hcarries.congr hkeeps.answers hkeeps.writes, hkeeps.started.trans hs, hsame hkeeps hsent⟩
  · exact fun _ w _ hw _ => hw.2.2.forwarded hw.1
  · rintro w o r ⟨hs, hsent⟩ ho _ _
    exact ⟨hguar (wrote_eq_none ho.not_writes _) (heard_eq_none ho.not_reads _), hs, hpush hsent⟩

theorem wp_startRemoteTask {header data answer : Bytes} {bind : Address} {port : UInt16}
    {stream : NetStream Fd} (hstream : stream.fd = .remote)
    (hencode : Socks5.Parser.encodeReply .success bind port = .ok answer)
    (hw : Connected cfg header data w)
    (hwrote : Wrote (K := kind) Fd.app ([5, 0] ++ answer ++ data) w.trace) :
    wp (contract cfg) Task.clientTask (startRemoteTask stream) (Returns fun _ w' =>
      ∃ skip request, (up skip request).Carries [] w'.trace ∧ w'.mem.remoteTaskStarted = true ∧
        Sent cfg skip request w'.trace ∧ ¬ EofOn (K := kind) Fd.app w'.trace) w := by
  obtain ⟨skip, request, hsent, hup⟩ := hw.uplink
  have hdown : (down header ([5, 0] ++ answer)).Carries [] w.trace :=
    Wrote.carries (K := kind) (f := down header ([5, 0] ++ answer)) hwrote hw.response
  set w₁ := w.call fun s => ({ s with remoteTaskStarted := true, remoteStream := stream }, [])
    with hw₁
  have htrace : w₁.trace = w.trace := by simp [hw₁]
  have hgranted : Granted header ([5, 0] ++ answer) w₁ :=
    (hw.granted hencode).mono (htrace ▸ List.prefix_rfl) rfl
  have hspeaks : Speaks w₁ := hgranted.speaks (htrace ▸ hdown)
  refine wp_bind (wp_member fun _ => ⟨guar_alone hw.lone.started hspeaks, wp_spawn fun _ => ?_⟩)
  have hquiet := isQuiet_spawned (K := kind) Task.remoteTask
  have hkeeps : KeepsDown w₁ (w₁.start .remoteTask) :=
    keepsDown_push (hquiet.wrote_none _) (hquiet.heard_none _)
  refine ⟨⟨hkeeps.speaks, fun _ => hkeeps⟩, ⟨rfl, hstream, header, [5, 0] ++ answer, ?_, ?_⟩,
    fun w₂ hl => ?_⟩
  · exact hgranted.mono hkeeps.trace hkeeps.remoteFd
  · exact (htrace ▸ hdown).congr hkeeps.answers hkeeps.writes
  · have hstart : (up skip request).Carries [] (w₁.start .remoteTask).trace ∧
        (w₁.start .remoteTask).mem.remoteTaskStarted = true ∧
        Sent cfg skip request (w₁.start .remoteTask).trace ∧
        ¬ EofOn (K := kind) Fd.app (w₁.start .remoteTask).trace := by
      refine ⟨(htrace ▸ hup).other (readFrom_other (hquiet.heard_none _)) (hquiet.wrote_none _), rfl,
        Sent.congr (htrace ▸ hsent) ?_, fun heof => ?_⟩
      · rw [World.start_trace, chunksFrom_append]
        exact List.prefix_append _ _
      · rcases (eofOn_append _ _ _).1 heof with heof | heof
        · exact hw.lone.noEof (htrace ▸ heof)
        · exact eofOn_other (hquiet.heard_none _) heof
    exact ⟨skip, request, (client_copies skip request).reads.later hstart hl⟩

theorem wp_relayTcp {header data answer : Bytes} {bind : Address} {port : UInt16}
    {stream : NetStream Fd} (hstream : stream.fd = .remote)
    (hencode : Socks5.Parser.encodeReply .success bind port = .ok answer)
    (hw : Connected cfg header data w)
    (hwrote : Wrote (K := kind) Fd.app ([5, 0] ++ answer ++ data) w.trace) :
    wp (contract cfg) Task.clientTask (relayTcp stream) (Returns fun _ w' =>
      Forwarded cfg w'.trace) w := by
  refine wp_then (wp_startRemoteTask hstream hencode hw hwrote) ?_
  intro _ w ⟨skip, request, hw⟩
  refine wp_then ((client_copies skip request).wp_copyStream hstream rfl _ hw) ?_
  intro _ w ⟨hcarries, _, hsent⟩
  exact hsent.forwarded hcarries

/-- From the success of the handshake on. -/
theorem wp_connected {header remaining : Bytes} {stream : NetStream Fd} (hstream : stream.fd = .remote)
    (hw : Connected cfg header remaining w) (hlead : Wrote (K := kind) Fd.app [5, 0] w.trace) :
    wp (contract cfg) Task.clientTask (do
      if !(← sendSocksReply .success anyAddress 0) then
        return ()
      else if !(← appStream.writeNonempty (K := kind) remaining) then
        return ()
      else
        relayTcp stream) (Returns fun _ w' => Forwarded cfg w'.trace) w := by
  obtain ⟨answer, hencode, -⟩ := encodeReply_ipv4 .success (List.Vector.replicate 4 0) 0
  have hline : ∀ {w}, Connected cfg header remaining w →
      Conversation w ([5, 0] ++ answer ++ remaining) := by
    intro w hw
    obtain ⟨req, hreq, hcmd⟩ := hw.requested
    exact .connected req _ 0 answer header remaining hencode hreq hcmd hw.remoteFd hw.accepted
      hw.response
  refine wp_then (wp_sendSocksReply hencode hw.lone hlead (hline hw) (List.prefix_append _ _)) ?_
  intro sent w ⟨hsaying, hlead⟩
  have hw := hw.saying hsaying
  split
  · exact forwarded_of_not_eof hw.lone.noEof
  · refine wp_then (R := fun _ w' => Connected cfg header remaining w' ∧
      Wrote (K := kind) Fd.app ([5, 0] ++ answer ++ remaining) w'.trace) ?_ ?_
    · unfold NetStream.writeNonempty
      by_cases hnil : remaining = []
      · rw [if_pos hnil]
        refine ⟨hw, ?_⟩
        rw [hnil, List.append_nil]
        exact hlead
      · rw [if_neg hnil]
        refine wp_then (wp_say hnil hw.lone hlead (hline hw) List.prefix_rfl) ?_
        intro _ w' ⟨hsaying, hlead⟩
        exact ⟨hw.saying hsaying, hlead⟩
    · intro forwarded w ⟨hw, hlead⟩
      split
      · exact forwarded_of_not_eof hw.lone.noEof
      · exact wp_relayTcp hstream hencode hw hlead

theorem wp_runTcpSession (hw : Asked req w) (hcmd : req.cmd = .connect) :
    wp (contract cfg) Task.clientTask (runTcpSession cfg req) (fun _ w' => Forwarded cfg w'.trace) w := by
  have hsending : VlessClient.Sending (K := kind) Fd.remote (Since .remote w) [] [] w := by
    refine ⟨.refl _ w, ?_, ?_⟩
    · simp [chunksFrom, hw.opening.answers]
    · simp [wroteTo, hw.opening.writes]
  have hlone : ∀ {w'}, Since .remote w w' → Lone w' := by
    intro w' hsince
    refine ⟨by rw [hsince.mem, hw.opening.started], ?_⟩
    rw [EofOn, hsince.answers .app (by simp)]
    exact hw.lone.noEof
  have hlead : ∀ {w'}, Since .remote w w' → Wrote (K := kind) Fd.app [5, 0] w'.trace := by
    intro w' hsince
    rw [Wrote, WriteFailed, wroteTo, hsince.writes .app (by simp)]
    exact hw.opening.wrote
  refine wp_seq (VlessClient.wp_vlessConnectAndHandshake (K := kind) cfg (toVlessRequest req .tcp)
    (opens hw) hsending) ?_ fun _ _ hsince => forwarded_of_not_eof (hlone hsince).noEof
  rintro res w' ⟨hsince, hexchanged⟩
  cases res with
  | none => exact wp_returns (wp_deny (by simp) (hlone hsince) (hlead hsince)) fun _ _ hw => hw
  | some res =>
      obtain ⟨stream, remaining⟩ := res
      obtain ⟨hstream, hexchanged⟩ := hexchanged stream remaining rfl
      obtain ⟨header, hconnected⟩ := connected_of_exchanged hw hcmd hsince hexchanged
      have hlead' : Wrote (K := kind) Fd.app [5, 0]
          (w'.call fun s => ({ s with remoteFd := some .remote }, [])).trace := by
        rw [Wrote, WriteFailed, wroteTo, writes_call]
        exact hlead hsince
      refine wp_member_seq fun _ => ⟨guar_alone (hlone hsince).started
        (speaks_of_beginning hlead'.written), ?_⟩
      exact wp_returns (wp_connected hstream hconnected hlead') fun _ _ hw => hw

theorem wp_dispatch (hw : Asked req w) :
    wp (contract cfg) Task.clientTask (dispatch cfg req) (fun _ w' => Forwarded cfg w'.trace) w := by
  unfold dispatch
  split
  · next hcmd => exact wp_runTcpSession hw hcmd
  · next hcmd => exact wp_runUdpAssociate hw hcmd
  · exact wp_returns (wp_deny nofun hw.lone hw.opening.wrote) fun _ _ hw => hw

end Replies

/-! ## The session -/

theorem finishClientTask_keeps (s : Mem) :
    (finishClientTask s).1.remoteTaskStarted = s.remoteTaskStarted ∧
      (finishClientTask s).1.remoteFd = s.remoteFd := by
  unfold finishClientTask
  dsimp only
  split
  · exact ⟨rfl, rfl⟩
  · split
    · exact ⟨rfl, rfl⟩
    · exact ⟨rfl, rfl⟩

theorem wp_finishClientTask (hw : Forwarded cfg w.trace) :
    wp (contract cfg) Task.clientTask (member finishClientTask) (Returns fun _ w' =>
      Forwarded cfg w'.trace) w := by
  obtain ⟨hstarted, hfd⟩ := finishClientTask_keeps w.mem
  have hkeeps : KeepsDown w (w.call finishClientTask) := keepsDown_call hstarted hfd
  have hup : KeepsUp w (w.call finishClientTask) :=
    ⟨writes_call _ _ _, answers_call _ _ _, hstarted⟩
  exact wp_member (O := kind.object) fun _ => ⟨⟨hkeeps.speaks, fun _ => hkeeps⟩, hup.forwarded hw⟩

theorem wp_runSession (hw : w.mem = {} ∧ w.trace = []) :
    wp (contract cfg) Task.clientTask (runSession cfg) (fun _ w' => Forwarded cfg w'.trace) w := by
  obtain ⟨hmem, htrace⟩ := hw
  have hstart : Listening (Opening []) [] w := by
    refine ⟨⟨by rw [hmem], ?_, ?_, .inl ?_⟩, ?_, ?_, .inl ?_⟩
    · rw [htrace]
      rfl
    · rw [htrace]
      rfl
    · rw [htrace]
      rfl
    · simp [htrace, EofOn, answers]
    · rw [htrace, hmem]
      rfl
    · rw [hmem]
      rfl
  have hfinish : ∀ {w}, Lone w → wp (contract cfg) Task.clientTask (do
      member finishClientTask
      return true) (fun _ w' => Forwarded cfg w'.trace) w :=
    fun hlone => wp_then (wp_finishClientTask (forwarded_of_not_eof hlone.noEof)) fun _ _ hw => hw
  unfold runSession
  refine wp_seq (wp_onStream Socks5.Parser.readGreeting_strict Socks5.Parser.readGreeting_accepts
    (listens List.nil_prefix) hstart) ?_ fun _ _ hw => forwarded_of_malformed_greeting hw.2
  rintro noAuth w ⟨g, hg, hw⟩
  rw [List.nil_append] at hw
  have hlone := Opening.lone hw
  cases noAuth with
  | false =>
      refine wp_then (wp_say (List.cons_ne_nil _ _) hlone hw.kept.wrote .refused List.prefix_rfl) ?_
      rintro _ w' ⟨hsaying, _⟩
      exact hfinish (hsaying.lone hlone)
  | true =>
      obtain ⟨answer, hencode, -⟩ := encodeReply_ipv4 .generalFailure (List.Vector.replicate 4 0) 0
      refine wp_then (wp_say (List.cons_ne_nil _ _) hlone hw.kept.wrote
        (.denied .generalFailure _ _ answer (by simp) hencode) (List.prefix_append _ _)) ?_
      rintro n w' ⟨hsaying, hlead⟩
      split
      · exact hfinish (hsaying.lone hlone)
      · refine wp_seq (wp_onStream Socks5.Parser.readRequest_strict
          Socks5.Parser.readRequest_accepts (listens List.prefix_rfl)
          (hsaying.listening hw hlead)) ?_ fun _ _ hw => forwarded_of_malformed_request hg hw.2
        rintro req w ⟨r, hr, hw⟩
        exact wp_seq (wp_dispatch ⟨g, r, hg, hr, hw⟩) (fun _ _ hw => hw) fun _ _ hw => hw

theorem wp_clientTask (hw : w.mem = {} ∧ w.trace = []) :
    wp (contract cfg) Task.clientTask (clientTask cfg)
      (fun _ => (contract cfg).post Task.clientTask) w := by
  refine wp_then (R := fun _ w' => Forwarded cfg w'.trace)
    (wp_tryCatch (wp_mono (wp_runSession hw) ?_)) ?_
  · intro r w hw
    cases r with
    | ok _ => exact hw
    | error _ => exact hw
  · intro returned w hw
    split
    · exact fun _ => hw
    · exact wp_returns (wp_finishClientTask hw) fun _ _ hw _ => hw

theorem meets (cfg : VlessClientConfig) (t : Task) (w : World kind.object)
    (hpre : (contract cfg).pre t w) (_ : (contract cfg).env w.trace) :
    wp (contract cfg) t (body cfg t) (fun _ => (contract cfg).post t) w := by
  cases t with
  | clientTask => exact wp_clientTask hpre
  | remoteTask => exact wp_remoteTask hpre

end Tunnel

/-- **What the application is told** is at all times the beginning of a conversation, if no write
    succeeds after a failed one: whatever the application and the server send, however it is cut and
    wherever it fails. -/
theorem conversation_shape (cfg : VlessClientConfig) {p : Pool kind.object} (hp : Reachable cfg p)
    (hsticky : ∀ fd, Sticky (K := kind) fd p.world.trace) :
    ∃ line, Conversation p.world line ∧ wroteTo (K := kind) Fd.app p.world.trace <+: line := by
  have hfresh : (Tunnel.contract cfg).pre Task.clientTask ⟨{}, []⟩ := ⟨rfl, rfl⟩
  refine Contract.invariant Tunnel.stable (Tunnel.meets cfg) hfresh Tunnel.Speaks
    (Tunnel.speaks_of_beginning List.nil_prefix) ?_ hp hsticky
  intro t w w' hguar _ hw
  cases t with
  | clientTask => exact hguar.1 hw
  | remoteTask => exact hguar.2.1

/-- **Early data.** Let the application send a greeting, a CONNECT request and `data`, and let no write
    fail. Once its stream has ended, with the event loop in control, the server has got exactly the
    encoded request and `data`, if and only if no piece the application's bytes arrived in holds the end
    of the request and data behind it. -/
theorem earlyData_forwarded_iff (cfg : VlessClientConfig) {p : Pool kind.object} (hp : Reachable cfg p)
    (hstack : p.stack = []) (hok : ∀ fd, ¬ WriteFailed (K := kind) fd p.world.trace)
    {g r data : Bytes} {req : Socks5.Request} (hg : Socks5.GreetingBytes g true)
    (hr : Socks5.RequestBytes r req) (hcmd : req.cmd = .connect)
    (hread : readFrom (K := kind) Fd.app p.world.trace = g ++ r ++ data)
    (heof : EofOn (K := kind) Fd.app p.world.trace) :
    (∃ header, Encoder.encodeRequest (cfg.request (toVlessRequest req .tcp)) = .ok header ∧
        wroteTo (K := kind) Fd.remote p.world.trace = header ++ data) ↔
      ∃ front, front <+: chunksFrom (K := kind) Fd.app p.world.trace ∧ front.flatten = g ++ r := by
  have hsticky : ∀ fd, Sticky (K := kind) fd p.world.trace := by
    intro fd
    refine List.pairwise_of_forall_mem_list fun x hx y _ hfailed => ?_
    exact absurd ⟨x, hx, hfailed⟩ (hok fd)
  have hfresh : (Tunnel.contract cfg).pre Task.clientTask ⟨{}, []⟩ := ⟨rfl, rfl⟩
  have hsound := Contract.sound Tunnel.stable (Tunnel.meets cfg) hfresh hp hsticky
  have hstarted := (frames_ne_none_iff (O := kind.object) hp Task.clientTask).2 (.inl rfl)
  have hforwarded : Tunnel.Forwarded cfg p.world.trace := by
    rcases hsound.suspended_or_finished hstack hstarted with ⟨-, o, k, hframe, hs⟩ | hfinished
    · exact hsound.parked hframe hs rfl
    · exact hsound.post hfinished rfl
  exact hforwarded g r req data hg hr hcmd hread heof (hok .remote)

/-! ## Runs -/

/-- An application and a server that send these pieces. -/
def peers (app remote : List Bytes) : Script kind where
  pieces
    | .app => app
    | .remote => remote
    | .udp => []
  ext
    | .bindUdp => true
    | .getsockname => 1080
    | .relayStart => ()
    | .relayStop => ()

/-- A client without TLS, of the user without bits. -/
def plainClient : VlessClientConfig := { remoteHost := ascii "server" }

/-- The session between these peers, its coroutines resumed in this order. -/
def sampleRun (app remote : List Bytes) (ts : List Task) : Pool kind.object :=
  run (O := kind.object) (body plainClient) Task.clientTask {}
    ((peers app remote).resolving ⟨.inet, [127, 0, 0, 1], 443⟩) 40 ts

theorem sampleRun_reachable (app remote : List Bytes) (ts : List Task) :
    Reachable plainClient (sampleRun app remote ts) :=
  run_reachable (O := kind.object) (body plainClient) Task.clientTask {} _ _ _

/-- CONNECT to 127.0.0.1:80. -/
def plainConnect : Bytes := [5, 1, 0, 1, 127, 0, 0, 1, 0, 80]

/-- The header of the response is cut in its addons, and its second piece has data behind them. -/
theorem conversation_shape_connected :
    ∃ line, Conversation (sampleRun [[5, 1, 0], plainConnect] [[0, 2, 9], [9, 7, 8]]
        (List.replicate 8 .clientTask)).world line ∧
      wroteTo (K := kind) Fd.app (sampleRun [[5, 1, 0], plainConnect] [[0, 2, 9], [9, 7, 8]]
        (List.replicate 8 .clientTask)).world.trace <+: line :=
  conversation_shape plainClient (sampleRun_reachable _ _ _) fun fd => by cases fd <;> decide +kernel

example : wroteTo (K := kind) Fd.app (sampleRun [[5, 1, 0], plainConnect] [[0, 2, 9], [9, 7, 8]]
    (List.replicate 9 .clientTask)).world.trace = [5, 0, 5, 0, 0, 1, 0, 0, 0, 0, 0, 0, 7, 8] := by
  decide +kernel

/-- A greeting without authentication, and the request above. -/
theorem plainConnect_bytes : Socks5.GreetingBytes [5, 1, 0] true ∧
    Socks5.RequestBytes plainConnect ⟨.connect, .ipv4 ⟨[127, 0, 0, 1], rfl⟩, 80⟩ :=
  ⟨.methods 1 [0] (by decide) rfl, .mk 1 0 0 80 _ _ (.ipv4 ⟨[127, 0, 0, 1], rfl⟩)⟩

/-- Data in a piece of its own arrives. -/
theorem earlyData_forwarded_apart :
    ∃ header, Encoder.encodeRequest (plainClient.request (toVlessRequest
        ⟨.connect, .ipv4 ⟨[127, 0, 0, 1], rfl⟩, 80⟩ .tcp)) = .ok header ∧
      wroteTo (K := kind) Fd.remote (sampleRun [[5, 1, 0], plainConnect, [42]] [[0, 0]]
        (List.replicate 11 .clientTask)).world.trace = header ++ [42] :=
  (earlyData_forwarded_iff plainClient (sampleRun_reachable _ _ _) (by decide +kernel)
    (fun fd => by cases fd <;> decide +kernel) plainConnect_bytes.1 plainConnect_bytes.2 rfl
    (by decide +kernel) (by decide +kernel)).2 ⟨[[5, 1, 0], plainConnect], by decide +kernel⟩

/-- The same data behind the request does not. -/
theorem earlyData_lost :
    ¬ ∀ (cfg : VlessClientConfig) (p : Pool kind.object), Reachable cfg p → p.stack = [] →
      (∀ fd, ¬ WriteFailed (K := kind) fd p.world.trace) →
      ∀ (g r data : Bytes) (req : Socks5.Request), Socks5.GreetingBytes g true →
        Socks5.RequestBytes r req → req.cmd = .connect →
        readFrom (K := kind) Fd.app p.world.trace = g ++ r ++ data →
        EofOn (K := kind) Fd.app p.world.trace →
        ∃ header, Encoder.encodeRequest (cfg.request (toVlessRequest req .tcp)) = .ok header ∧
          wroteTo (K := kind) Fd.remote p.world.trace = header ++ data := by
  intro h
  obtain ⟨header, hencode, hwrote⟩ := h plainClient (sampleRun [[5, 1, 0], plainConnect ++ [42]]
    [[0, 0]] (List.replicate 9 .clientTask)) (sampleRun_reachable _ _ _) (by decide +kernel)
    (fun fd => by cases fd <;> decide +kernel) [5, 1, 0] plainConnect [42] _ plainConnect_bytes.1
    plainConnect_bytes.2 rfl (by decide +kernel) (by decide +kernel)
  have hlength : header.length = 26 := by
    have hencoded : (Encoder.encodeRequest (plainClient.request (toVlessRequest
        ⟨.connect, .ipv4 ⟨[127, 0, 0, 1], rfl⟩, 80⟩ .tcp))).toOption.map List.length = some 26 := by
      decide
    rw [hencode] at hencoded
    exact Option.some.inj hencoded
  have hshort : (wroteTo (K := kind) Fd.remote (sampleRun [[5, 1, 0], plainConnect ++ [42]] [[0, 0]]
      (List.replicate 9 .clientTask)).world.trace).length = 26 := by decide +kernel
  rw [hwrote, List.length_append, hlength] at hshort
  exact absurd hshort (by decide)

end Socks5Connection

end Cppvless
