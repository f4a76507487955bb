import Cppvless.Net.Relay
import Cppvless.Net.Script
import Cppvless.Server.VlessConnection

set_option autoImplicit false

/-! # What each part of a session can do

The operations and member changes that the parts of `VlessConnection` come to: the handshake and
the response (`Setup`), connecting (`Connects`), and the two relays (`ClientSide`, `TargetSide`). -/

namespace Cppvless

open Coroutine

namespace VlessConnection

/-- The members that only the ends of the coroutines and `startTargetTask` change. -/
def Mem.flagsKept (s s' : Mem) : Prop :=
  s'.closed = s.closed ∧ s'.clientReadDone = s.clientReadDone ∧
    s'.targetReadDone = s.targetReadDone ∧ s'.targetTaskStarted = s.targetTaskStarted

/-- What happens between the request and the connection to the target: the client is read and
    written, the flags and the socket stay. -/
def Setup : ObjOp kind.object → Prop
  | .member f => ∀ s, s.flagsKept (f s).1 ∧ (f s).1.targetFd = s.targetFd
  | .io (.inl o) => o.Reads .client ∨ o.Writes .client ∨ o = .tlsHandshake .client
  | .spawn _ => False
  | _ => True

/-- What `connectTarget` does: nothing is read, written or shut down, and of the members only the
    socket changes. -/
def Connects : ObjOp kind.object → Prop
  | .member f => ∀ s, ((f s).1 = s ∨ (f s).1 = { s with targetFd := some .target }) ∧
      ∀ fd, .shutdownRdWr fd ∉ (f s).2
  | .io (.inl o) => (∀ fd, ¬ o.Reads fd) ∧ (∀ fd, ¬ o.Writes fd) ∧ ∀ fd, ¬ o.Shuts fd
  | .spawn _ => False
  | _ => True

/-- What `clientTask` does while both relay. -/
def ClientSide : ObjOp kind.object → Prop
  | .member f => ∀ s, ∃ visionReader visionCtx handshakeRemaining,
      f s = ({ s with visionReader, visionCtx, handshakeRemaining }, [])
  | .io (.inl o) => o.Reads .client ∨ o.Writes .target ∨ o.Shuts .target
  | .spawn _ => False
  | _ => True

/-- What `targetTask` does while both relay. -/
def TargetSide : ObjOp kind.object → Prop
  | .member f => ∀ s, ∃ visionWriter visionCtx, f s = ({ s with visionWriter, visionCtx }, [])
  | .io (.inl o) => o.Reads .target ∨ o.Writes .client ∨ o.Shuts .client
  | .spawn _ => False
  | _ => True

variable (cfg : Config)

@[simp] theorem clientStream_fd : cfg.clientStream.fd = .client := by
  rw [Config.clientStream]
  split <;> rfl

@[simp] theorem targetStream_fd : targetStream.fd = .target := rfl

/-- `clientTask` relays in one direction only. -/
theorem ClientSide.apart {o : NetOp Fd} (h : ClientSide (.io (.inl o))) :
    ¬ o.Reads .target ∧ ¬ o.Writes .client ∧ ¬ o.Shuts .client := by
  rcases h with h | h | h
  · exact ⟨fun h' => (nomatch h.unique h'), h.not_writes, h.not_shuts⟩
  · exact ⟨fun h' => h'.not_writes h, fun h' => (nomatch h.unique h'), h.not_shuts⟩
  · exact ⟨h.not_reads, h.not_writes, fun h' => nomatch h.unique h'⟩

/-- And `targetTask` in the other. -/
theorem TargetSide.apart {o : NetOp Fd} (h : TargetSide (.io (.inl o))) :
    ¬ o.Reads .client ∧ ¬ o.Writes .target ∧ ¬ o.Shuts .target := by
  rcases h with h | h | h
  · exact ⟨fun h' => (nomatch h.unique h'), h.not_writes, h.not_shuts⟩
  · exact ⟨fun h' => h'.not_writes h, fun h' => (nomatch h.unique h'), h.not_shuts⟩
  · exact ⟨h.not_reads, h.not_writes, fun h' => nomatch h.unique h'⟩

section Basic

variable {P : ObjOp kind.object → Prop} {α : Type}

theorem only_get (h : P .get) : Only P get := .await h

theorem only_member {f : Mem → Mem × List (Syscall Fd)} (h : P (.member f)) : Only P (member f) :=
  .await h

theorem only_modify {f : Mem → Mem} (h : P (.member fun s => (f s, []))) : Only P (modify f) :=
  .await h

theorem only_update {f : Mem → α × Mem} (hget : P .get) (h : P (.member fun s => ((f s).2, []))) :
    Only P (update f) :=
  .bind (.await hget) fun _ => .bind (.await h) fun _ => trivial

theorem only_ext {o : ExtOp} (h : P (.io (.inr o))) : Only P (awaitExt o) := .await h

theorem only_orThrow (r : Except Exn α) : Only P (orThrow r) := trivial

theorem only_onStream (p : Parser α) (hget : P .get)
    (hread : ∀ o : NetOp Fd, o.Reads .client → P (.io (.inl o)))
    (hmem : ∀ stream, P (.member fun s => ({ s with stream }, []))) : Only P (onStream cfg p) := by
  refine .bind (only_get hget) fun s => .bind ?_ fun (res, stream) => ?_
  · refine UringBufferedStream.only_parse (NetStream.only_read _ _ ?_) _ _
    rwa [clientStream_fd]
  · exact .bind (only_modify (hmem stream)) fun _ => only_orThrow res

end Basic

/-! ## Setting up -/

/-- A kind of operations that covers setting up. -/
structure SetsUp (P : ObjOp kind.object → Prop) : Prop where
  get : P .get
  net : ∀ o : NetOp Fd, o.Reads .client ∨ o.Writes .client ∨ o = .tlsHandshake .client → P (.io (.inl o))
  ext : ∀ o, P (.io (.inr o))
  modify : ∀ f : Mem → Mem, (∀ s, s.flagsKept (f s) ∧ (f s).targetFd = s.targetFd) →
    P (.member fun s => (f s, []))

theorem setsUp_setup : SetsUp Setup := ⟨trivial, fun _ => id, fun _ => trivial, fun _ => id⟩

namespace SetsUp

variable {P : ObjOp kind.object → Prop} (h : SetsUp P)

include h

theorem onStream {α : Type} (p : Parser α) : Only P (onStream cfg p) :=
  only_onStream cfg p h.get (fun o ho => h.net o (.inl ho)) fun _ =>
    h.modify _ fun _ => ⟨⟨rfl, rfl, rfl, rfl⟩, rfl⟩

theorem acceptTls : Only P (acceptTls cfg) :=
  .ite (fun _ => .await (h.net _ (.inr (.inr rfl)))) fun _ => trivial

theorem processHandshake : Only P (processHandshake cfg) := by
  refine .bind (h.onStream cfg _) fun req => ?_
  refine .bind (only_update h.get (h.modify _ fun _ => ⟨⟨rfl, rfl, rfl, rfl⟩, rfl⟩)) fun remaining => ?_
  refine .ite (fun _ => ?_) fun _ => trivial
  exact .bind (only_modify (h.modify _ fun _ => ⟨⟨rfl, rfl, rfl, rfl⟩, rfl⟩)) fun _ => trivial

theorem setupVision (req : Request) : Only P (setupVision req) := by
  refine .ite (fun _ => ?_) fun _ => trivial
  refine .bind (only_modify (h.modify _ fun _ => ⟨⟨rfl, rfl, rfl, rfl⟩, rfl⟩)) fun _ => ?_
  refine .bind (only_ext (h.ext _)) fun seed => .bind (only_orThrow seed) fun _ => ?_
  exact .bind (only_modify (h.modify _ fun _ => ⟨⟨rfl, rfl, rfl, rfl⟩, rfl⟩)) fun _ => trivial

theorem setupEncryption (req : Request) : Only P (setupEncryption cfg req) := by
  refine .ite (fun _ => trivial) fun _ => .ite (fun _ => ?_) fun _ => trivial
  refine .bind (only_modify (h.modify _ fun _ => ⟨⟨rfl, rfl, rfl, rfl⟩, rfl⟩)) fun _ => ?_
  refine .bind (h.onStream cfg _) fun key => .ite (fun _ => trivial) fun _ => ?_
  refine .bind (only_modify (h.modify _ fun _ => ⟨⟨rfl, rfl, rfl, rfl⟩, rfl⟩)) fun _ => ?_
  refine .bind (only_ext (h.ext _)) fun keyPair => .bind (only_orThrow keyPair) fun _ => ?_
  exact .bind (only_modify (h.modify _ fun _ => ⟨⟨rfl, rfl, rfl, rfl⟩, rfl⟩)) fun _ => trivial

end SetsUp

theorem only_acceptTls : Only Setup (acceptTls cfg) := setsUp_setup.acceptTls cfg

theorem only_processHandshake : Only Setup (processHandshake cfg) := setsUp_setup.processHandshake cfg

theorem only_setupVision (req : Request) : Only Setup (setupVision req) := setsUp_setup.setupVision req

theorem only_setupEncryption (req : Request) : Only Setup (setupEncryption cfg req) :=
  setsUp_setup.setupEncryption cfg req

/-- The response only writes to the client. -/
theorem only_response {P : ObjOp kind.object → Prop} (version : UInt8) (hget : P .get)
    (hwrite : ∀ o : NetOp Fd, o.Writes .client → P (.io (.inl o)))
    (hext : ∀ o, P (.io (.inr o))) : Only P (sendResponseAndKey cfg version) := by
  have hfull : ∀ data, Only P (cfg.clientStream.writeFull (K := kind) data) := fun data =>
    NetStream.only_writeFull _ _ fun o ho => hwrite o (clientStream_fd cfg ▸ ho)
  refine .bind (hfull _) fun _ => .ite (fun _ => trivial) fun _ => ?_
  refine .bind (only_get hget) fun s => .ite (fun _ => ?_) fun _ => trivial
  refine .bind (hfull _) fun _ => .ite (fun _ => trivial) fun _ => ?_
  exact .bind (only_ext (hext _)) fun secret => only_orThrow secret

theorem only_sendResponseAndKey (version : UInt8) :
    Only Setup (sendResponseAndKey cfg version) :=
  only_response cfg version trivial (fun _ h => .inr (.inl h)) fun _ => trivial

/-! ## Connecting -/

theorem only_openTargetSocket (addr : SockAddr) (type : SockType) :
    Only Connects (openTargetSocket addr type) :=
  .bind (.await ⟨fun _ => id, fun _ => id, fun _ => id⟩) fun _ => trivial

theorem only_createTargetSocket (req : Request) : Only Connects (createTargetSocket req) := by
  simp only [createTargetSocket]
  cases req.address with
  | ipv4 ip => exact only_openTargetSocket _ _
  | ipv6 ip => exact only_openTargetSocket _ _
  | domain domain =>
      refine .bind (.await ⟨fun _ => id, fun _ => id, fun _ => id⟩) fun res => ?_
      cases res with
      | none => trivial
      | some res =>
          simp only
          cases res.find? fun a => a.family = .inet ∨ a.family = .inet6 with
          | none => trivial
          | some addr => exact only_openTargetSocket _ _

theorem only_connectTarget (req : Request) : Only Connects (connectTarget req) := by
  refine .bind (only_createTargetSocket req) fun addr => ?_
  split
  · trivial
  · refine .bind (.await ⟨fun _ => id, fun _ => id, fun _ => id⟩) fun result => .ite (fun _ => ?_) fun _ => ?_
    · exact .bind (only_member fun _ => ⟨.inl rfl, by simp⟩) fun _ => trivial
    · exact .bind (only_modify fun _ => ⟨.inr rfl, nofun⟩) fun _ => trivial

/-! ## Relaying -/

theorem relays_clientSide : Relays ClientSide .client .target :=
  ⟨trivial, fun _ h => .inl h, fun _ h => .inr (.inl h), fun _ h => .inr (.inr h)⟩

theorem relays_targetSide : Relays TargetSide .target .client :=
  ⟨trivial, fun _ h => .inl h, fun _ h => .inr (.inl h), fun _ h => .inr (.inr h)⟩

theorem only_writeTarget (data : Bytes) :
    Only ClientSide (targetStream.writeFull (K := kind) data) :=
  NetStream.only_writeFull _ _ fun _ h => .inr (.inl h)

theorem only_unpadVision (data : Bytes) : Only ClientSide (unpadVision data) := by
  refine .bind (only_get trivial) fun s => .ite (fun _ => ?_) fun _ => trivial
  exact .bind (only_update trivial fun s => ⟨_, _, _, rfl⟩) fun _ => trivial

theorem only_decryptClient (data : Bytes) : Only ClientSide (decryptClient data) :=
  .bind (only_ext trivial) fun plaintext => only_orThrow plaintext

theorem only_decodeHandshakeRemaining (s : Mem) :
    Only ClientSide (decodeHandshakeRemaining s) := by
  refine .ite (fun _ => only_decryptClient _) fun _ => .ite (fun _ => ?_) fun _ => trivial
  exact .bind (only_update trivial fun s => ⟨_, _, _, rfl⟩) fun _ => trivial

theorem only_forwardHandshakeRemaining : Only ClientSide forwardHandshakeRemaining := by
  refine .bind (only_get trivial) fun s => .ite (fun _ => trivial) fun _ => ?_
  refine .bind (only_decodeHandshakeRemaining s) fun data => ?_
  cases data with
  | none => trivial
  | some data =>
      refine .bind (NetStream.only_writeNonempty _ _ fun _ h => .inr (.inl h)) fun _ => ?_
      refine .ite (fun _ => trivial) fun _ => ?_
      exact .bind (only_modify fun s => ⟨_, _, _, rfl⟩) fun _ => trivial

theorem only_relayClientToTarget : Only ClientSide (relayClientToTarget cfg) := by
  have h : Relays ClientSide cfg.clientStream.fd targetStream.fd := by
    rw [clientStream_fd]
    exact relays_clientSide
  refine .bind (only_get trivial) fun s => .ite (fun _ => ?_) fun _ => .ite (fun _ => ?_) fun _ => ?_
  · exact only_relayTransformed _ _ h only_decryptClient
  · exact only_relayTransformed _ _ h only_unpadVision
  · exact only_copyStream _ h

theorem only_byteAt {P : ObjOp kind.object → Prop} (bs : Bytes) (i : Nat) :
    Only P (byteAt bs i) := by
  unfold byteAt
  cases bs[i]? with
  | some b => trivial
  | none => trivial

theorem only_sendPackets (pending : Bytes) : Only ClientSide (sendPackets pending) := by
  refine .loop fun offset => ?_
  unfold sendPacket
  refine .bind (.ite (fun _ => trivial) fun _ => trivial) fun left => ?_
  refine .ite (fun _ => .bind (only_byteAt _ _) fun hi => .bind (only_byteAt _ _) fun lo => ?_)
    fun _ => trivial
  refine .ite (fun _ => trivial) fun _ => .ite (fun _ => ?_) fun _ => trivial
  refine .bind (.ite (fun _ => trivial) fun _ => trivial) fun packet => ?_
  exact .bind (only_writeTarget _) fun _ => .ite (fun _ => trivial) fun _ => trivial

theorem only_relayUdpClientToTarget : Only ClientSide (relayUdpClientToTarget cfg) := by
  refine .bind (only_update trivial fun s => ⟨_, _, _, rfl⟩) fun pending => .loop fun pending => ?_
  refine .bind (only_get trivial) fun s => .ite (fun _ => trivial) fun _ => ?_
  refine .bind (only_sendPackets pending) fun sent => ?_
  cases sent with
  | none => trivial
  | some offset =>
      refine .ite (fun _ => trivial) fun _ => .bind (NetStream.only_read _ _ ?_) fun rr => ?_
      · exact fun o ho => .inl (clientStream_fd cfg ▸ ho)
      · exact .ite (fun _ => trivial) fun _ => .ite (fun _ => trivial) fun _ => trivial

theorem only_relayUdpTargetToClient : Only TargetSide (relayUdpTargetToClient cfg) := by
  refine .loop fun _ => .bind (only_get trivial) fun s => .ite (fun _ => trivial) fun _ => ?_
  refine .bind (NetStream.only_read _ _ fun _ h => .inl h) fun rr => ?_
  refine .ite (fun _ => trivial) fun _ => .ite (fun _ => trivial) fun _ => ?_
  refine .ite (fun _ => trivial) fun _ => .bind (NetStream.only_writeFull _ _ ?_) fun _ => ?_
  · exact fun o ho => .inr (.inl (clientStream_fd cfg ▸ ho))
  · exact .ite (fun _ => trivial) fun _ => trivial

theorem only_padVision (data : Bytes) : Only TargetSide (padVision data) := by
  refine .bind (only_get trivial) fun s => .ite (fun _ => ?_) fun _ => trivial
  refine .bind (only_ext trivial) fun draws => ?_
  exact .bind (only_update trivial fun s => ⟨_, _, rfl⟩) fun _ => trivial

theorem only_encryptServer (data : Bytes) : Only TargetSide (encryptServer data) :=
  .bind (only_ext trivial) fun ciphertext => .bind (only_orThrow ciphertext) fun _ => trivial

theorem only_relayTargetToClient : Only TargetSide (relayTargetToClient cfg) := by
  have h : Relays TargetSide targetStream.fd cfg.clientStream.fd := by
    rw [clientStream_fd]
    exact relays_targetSide
  refine .bind (only_get trivial) fun s => .ite (fun _ => ?_) fun _ => .ite (fun _ => ?_) fun _ =>
    .ite (fun _ => ?_) fun _ => ?_
  · exact only_relayUdpTargetToClient cfg
  · exact .bind (only_relayTransformed _ _ h only_encryptServer) fun _ => trivial
  · exact .bind (only_relayTransformed _ _ h only_padVision) fun _ => trivial
  · exact .bind (only_copyStream _ h) fun _ => trivial

/-! ## The whole session -/

/-- `clientTask` does not start itself. -/
def StartsTarget (op : ObjOp kind.object) : Prop := op ≠ .spawn .clientTask

theorem Setup.startsTarget (op : ObjOp kind.object) (h : Setup op) : StartsTarget op := by
  intro he
  rw [he] at h
  exact h

theorem Connects.startsTarget (op : ObjOp kind.object) (h : Connects op) : StartsTarget op := by
  intro he
  rw [he] at h
  exact h

theorem ClientSide.startsTarget (op : ObjOp kind.object) (h : ClientSide op) : StartsTarget op := by
  intro he
  rw [he] at h
  exact h

theorem only_startTargetTask : Only StartsTarget startTargetTask :=
  .bind (only_modify nofun) fun _ => .await nofun

theorem only_runTcpSession (req : Request) : Only StartsTarget (runTcpSession cfg req) := by
  refine .bind ((only_setupVision req).mono Setup.startsTarget) fun _ => ?_
  refine .ite (fun _ => trivial) fun _ => ?_
  refine .bind ((only_setupEncryption cfg req).mono Setup.startsTarget) fun _ => ?_
  refine .ite (fun _ => trivial) fun _ => ?_
  refine .bind ((only_sendResponseAndKey cfg _).mono Setup.startsTarget) fun _ => ?_
  refine .ite (fun _ => trivial) fun _ => ?_
  refine .bind ((only_connectTarget req).mono Connects.startsTarget) fun _ => ?_
  refine .ite (fun _ => trivial) fun _ => .bind only_startTargetTask fun _ => ?_
  refine .bind (only_forwardHandshakeRemaining.mono ClientSide.startsTarget) fun _ => ?_
  exact .ite (fun _ => trivial) fun _ => (only_relayClientToTarget cfg).mono ClientSide.startsTarget

theorem only_runUdpSession (req : Request) : Only StartsTarget (runUdpSession cfg req) := by
  refine .ite (fun _ => trivial) fun _ => ?_
  refine .bind ((only_sendResponseAndKey cfg _).mono Setup.startsTarget) fun _ => ?_
  refine .ite (fun _ => trivial) fun _ => ?_
  refine .bind ((only_connectTarget req).mono Connects.startsTarget) fun _ => ?_
  refine .ite (fun _ => trivial) fun _ => .bind only_startTargetTask fun _ => ?_
  exact (only_relayUdpClientToTarget cfg).mono ClientSide.startsTarget

/-- What `clientTask` does with its `try` block. -/
def endSession (session : Code Bool) : Code Unit := do
  let returned ← Coro.tryCatch session fun _ => pure false
  if returned then
    return ()
  else
    member finishClientTask

section Wp

variable {cfg} {C : Contract kind.object} {w : World kind.object} {F G Q : World kind.object → Prop}

/-- The rule of `targetTask`: `F` is what its relay leaves, `G` what it finds at its end. -/
theorem wp_targetTask_ends
    (hrelay : wp C Task.targetTask (relayTargetToClient cfg) (Ends (fun _ => F) G) w)
    (hdone : ∀ w, F w → wp C Task.targetTask (modify fun s => { s with targetReadDone := true })
      (Returns fun _ => G) w)
    (hfinish : ∀ w, G w → wp C Task.targetTask (member finishTargetTask) (Returns fun _ => Q) w) :
    wp C Task.targetTask (targetTask cfg) (fun _ => Q) w := by
  have hblock : wp C Task.targetTask
      (do relayTargetToClient cfg; modify fun s => { s with targetReadDone := true })
      (fun _ => G) w :=
    wp_seq hrelay (fun _ w hw => wp_returns (hdone w hw) fun _ _ h => h) fun _ _ hw => hw
  refine wp_then (R := fun _ => G) (wp_tryCatch (wp_mono hblock ?_)) fun _ w hw =>
    wp_returns (hfinish w hw) fun _ _ h => h
  intro r w hw
  cases r with
  | ok _ => exact hw
  | error _ => exact hw

/-- The same, where what is allowed of single changes does not matter. -/
theorem wp_targetTask_of
    (hrelay : wp C Task.targetTask (relayTargetToClient cfg) (Ends (fun _ => F) G) w)
    (hdone : ∀ w, F w → C.guar Task.targetTask w
      (w.call fun s => ({ s with targetReadDone := true }, [])) ∧
        G (w.call fun s => ({ s with targetReadDone := true }, [])))
    (hfinish : ∀ w, G w → C.guar Task.targetTask w (w.call finishTargetTask) ∧
      Q (w.call finishTargetTask)) :
    wp C Task.targetTask (targetTask cfg) (fun _ => Q) w :=
  wp_targetTask_ends hrelay (fun w hw => wp_member fun _ => hdone w hw)
    fun w hw => wp_member fun _ => hfinish w hw

/-- Where the other direction is all that matters, `F` survives whatever `targetTask` does: it neither
    reads the client nor writes to the target. -/
structure TargetAside (C : Contract kind.object) (F : World kind.object → Prop) : Prop where
  rely : ∀ w w', F w → C.rely Task.targetTask w w' → F w'
  parked : ∀ o w, C.parked Task.targetTask o w
  call : ∀ (f : Mem → Mem × List (Syscall Fd)) w, F w →
    (∃ visionWriter visionCtx closed targetReadDone,
      (f w.mem).1 = { w.mem with visionWriter, visionCtx, closed, targetReadDone } ∧
        (w.mem.clientReadDone = false → closed = w.mem.closed)) →
    C.guar Task.targetTask w (w.call f) ∧ F (w.call f)
  push : ∀ w e, F w → heard (K := kind) Fd.client e = none → wrote (K := kind) Fd.target e = none →
    C.guar Task.targetTask w (w.push e) ∧ F (w.push e)

theorem TargetAside.frame (h : TargetAside C F) : Frame C Task.targetTask TargetSide F where
  rely := h.rely
  parked o w _ _ _ := h.parked o w
  member f w hf hw _ := by
    obtain ⟨visionWriter, visionCtx, hf⟩ := hf w.mem
    refine h.call f w hw ⟨visionWriter, visionCtx, w.mem.closed, w.mem.targetReadDone, ?_, fun _ => rfl⟩
    rw [hf]
  io o answer w ho hw _ := by
    cases o with
    | inl o =>
        exact h.push w _ hw (heard_eq_none ho.apart.1 answer) (wrote_eq_none ho.apart.2.1 answer)
    | inr o =>
        have hquiet := isQuiet_ext (K := kind) o answer
        exact h.push w _ hw (hquiet.heard_none _) (hquiet.wrote_none _)
  spawn _ _ h := h.elim

theorem TargetAside.wp_targetTask (h : TargetAside C F) (hw : F w) :
    wp C Task.targetTask (targetTask cfg) (fun _ => F) w := by
  refine wp_targetTask_of (F := F) (G := F) ?_ ?_ ?_
  · refine wp_mono (wp_of_uses h.frame (only_relayTargetToClient cfg) hw) ?_
    intro res w hw
    cases res with
    | ok _ => exact hw
    | error _ => exact hw
  · exact fun w hw => h.call _ w hw ⟨_, _, _, true, rfl, fun _ => rfl⟩
  · intro w hw
    refine h.call _ w hw ⟨w.mem.visionWriter, w.mem.visionCtx, ?_⟩
    cases hc : w.mem.clientReadDone with
    | true => exact ⟨true, true, by simp [finishTargetTask, hc], nofun⟩
    | false => exact ⟨w.mem.closed, true, by simp [finishTargetTask, hc], fun _ => rfl⟩

/-- The rule of what `clientTask` does around its session: `F` is what the session leaves to the end. -/
theorem wp_endSession {session : Code Bool}
    (hsession : wp C Task.clientTask session
      (Ends (fun returned w' => if returned then Q w' else F w') F) w)
    (hfinish : ∀ w, F w → wp C Task.clientTask (member finishClientTask) (Returns fun _ => Q) w) :
    wp C Task.clientTask (endSession session) (fun _ => Q) w := by
  refine wp_then (R := fun returned w' => if returned then Q w' else F w')
    (wp_tryCatch (wp_mono hsession ?_)) ?_
  · intro r w hw
    cases r with
    | ok _ => exact hw
    | error _ => exact hw
  · intro returned w hw
    cases returned with
    | true => exact hw
    | false => exact wp_returns (hfinish w hw) fun _ _ h => h

/-- The rule of `clientTask`: `F` is what its session finds when it finishes. -/
theorem wp_clientTask_ends
    (hsession : wp C Task.clientTask (runSession cfg)
      (Ends (fun returned w' => if returned then Q w' else F w') F) w)
    (hfinish : ∀ w, F w → wp C Task.clientTask (member finishClientTask) (Returns fun _ => Q) w) :
    wp C Task.clientTask (clientTask cfg) (fun _ => Q) w :=
  wp_endSession hsession hfinish

/-- The same, where what is allowed of single changes does not matter. -/
theorem wp_clientTask_of
    (hsession : wp C Task.clientTask (runSession cfg)
      (Ends (fun returned w' => if returned then Q w' else F w') F) w)
    (hfinish : ∀ w, F w → C.guar Task.clientTask w (w.call finishClientTask) ∧
      Q (w.call finishClientTask)) :
    wp C Task.clientTask (clientTask cfg) (fun _ => Q) w :=
  wp_clientTask_ends hsession fun w hw => wp_member fun _ => hfinish w hw

/-- A connection that succeeds leaves the socket in `targetFd`. -/
theorem wp_connectTarget_of (hF : Frame C Task.clientTask Connects F) (req : Request) (hw : F w) :
    wp C Task.clientTask (connectTarget req) (fun r w' =>
      F w' ∧ (r = .ok true → w'.mem.targetFd = some .target)) w := by
  refine wp_seq (wp_of_uses hF (only_createTargetSocket req) hw) ?_ fun _ _ h => ⟨h, nofun⟩
  intro addr w hw
  cases addr with
  | none => exact ⟨hw, nofun⟩
  | some addr =>
      have hconnect : Only Connects (awaitNet (.connect .target addr)) :=
        .await ⟨fun _ => id, fun _ => id, fun _ => id⟩
      refine wp_seq (wp_of_uses hF hconnect hw) ?_ fun _ _ h => ⟨h, nofun⟩
      intro connectResult w hw
      by_cases hneg : connectResult < 0
      · rw [if_pos hneg]
        refine wp_bind (wp_member fun henv => ?_)
        obtain ⟨hg, hnext⟩ := hF.member (fun s => (s, [.close .target])) w
          (fun _ => ⟨.inl rfl, by simp⟩) hw henv
        exact ⟨hg, hnext, nofun⟩
      · rw [if_neg hneg]
        refine wp_bind (wp_member fun henv => ?_)
        obtain ⟨hg, hnext⟩ := hF.member (fun s => ({ s with targetFd := some .target }, [])) w
          (fun _ => ⟨.inr rfl, nofun⟩) hw henv
        exact ⟨hg, hnext, fun _ => rfl⟩

end Wp

/-! ## A connection to try things on -/

/-- A server without TLS whose only user has the UUID of zeros. -/
def plainServer : Config := ⟨⟨[List.Vector.replicate 16 0], by simp⟩, false⟩

/-- A request of that user for 127.0.0.1:80, over TCP and without a flow. -/
def plainRequest : Bytes := 0 :: List.replicate 16 0 ++ [0, 1, 0, 80, 1, 127, 0, 0, 1]

/-- Peers that send these pieces, without randomness and encryption. -/
def peers (client target : List Bytes) : Script kind where
  pieces
    | .client => client
    | .target => target
  ext
    | .randomDevice => .ok ()
    | .draws => ⟨fun _ => 0, fun _ => 0⟩
    | .generateKeyPair => .ok []
    | .computeSharedSecret _ => .ok false
    | .decryptClient _ => .ok none
    | .encryptServer _ => .ok []

/-- The run of a connection to these peers along `ts`. -/
def sampleRun (cfg : Config) (client target : List Bytes) (ts : List Task) : Pool kind.object :=
  run (O := kind.object) (body cfg) Task.clientTask {} (peers client target).env 300 ts

theorem sampleRun_reachable (cfg : Config) (client target : List Bytes) (ts : List Task) :
    Reachable cfg (sampleRun cfg client target ts) :=
  run_reachable (O := kind.object) (body cfg) Task.clientTask {} _ _ ts

end VlessConnection

end Cppvless
