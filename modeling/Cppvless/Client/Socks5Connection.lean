import Cppvless.Client.VlessClient

set_option autoImplicit false

/-! # A SOCKS5 session

The two coroutines of `client::Socks5Connection`, from `src/client/socks5_connection.cpp`. The UDP
relay has coroutines of its own; starting and stopping it are operations here. -/

namespace Cppvless

open Coroutine

namespace Socks5Connection

/-- The descriptors: `appFd_`, the socket to the VLESS server, and the UDP socket of an
    association. -/
inductive Fd
  | app
  | remote
  | udp
  deriving DecidableEq

inductive Task
  | clientTask
  | remoteTask
  deriving DecidableEq

/-- What the session calls besides the network. -/
inductive ExtOp
  /-- `bind` of the UDP socket to the loopback address: whether it succeeds -/
  | bindUdp
  /-- the port `getsockname` finds -/
  | getsockname
  /-- `Socks5UdpRelay::start` -/
  | relayStart
  /-- `Socks5UdpRelay::stop` -/
  | relayStop
  deriving DecidableEq

@[reducible] def ExtOp.Res : ExtOp → Type
  | .bindUdp => Bool
  | .getsockname => UInt16
  | .relayStart => Unit
  | .relayStop => Unit

/-- The members, and the stream `startRemoteTask` hands to `remoteTask`. -/
structure Mem where
  remoteFd : Option Fd := none
  stream : UringBufferedStream := .empty
  remoteStream : NetStream Fd := .async .remote
  closed : Bool := false
  appReadDone : Bool := false
  remoteReadDone : Bool := false
  remoteTaskStarted : Bool := false

@[reducible] def kind : Kind where
  Mem := Mem
  Fd := Fd
  fdEq := inferInstance
  Task := Task
  Ext := ⟨ExtOp, ExtOp.Res⟩
  extSuspends := fun _ => false

instance : DecidableEq kind.object.Task := inferInstanceAs (DecidableEq Task)

/-- A coroutine, or a function, of the connection. -/
abbrev Code (α : Type) := kind.Prog α

/-- `appStream_` -/
def appStream : NetStream Fd := .async .app

def get : Code Mem := Prog.get (O := kind.object)

def modify (f : Mem → Mem) : Code Unit := Prog.modify (O := kind.object) f

/-- A member function that makes system calls. -/
def member (f : Mem → Mem × List (Syscall Fd)) : Code Unit := Prog.member (O := kind.object) f

def awaitNet (o : NetOp Fd) : Code o.Res := net (K := kind) o

def awaitExt (o : ExtOp) : Code o.Res := ext (K := kind) o

/-- A parser on `stream_`. -/
def onStream {α : Type} (p : Parser α) : Code α := do
  let s ← get
  let (res, stream) ← UringBufferedStream.parse (appStream.read (K := kind)) p s.stream
  modify fun s => { s with stream }
  Coro.ofExcept res

variable (cfg : VlessClientConfig)

/-- The address that stands for none in a reply. -/
def anyAddress : Address := .ipv4 (List.Vector.replicate 4 0)

/-- `127.0.0.1` -/
def loopback : Address := .ipv4 ⟨[127, 0, 0, 1], rfl⟩

def sendSocksReply (reply : Socks5.Reply) (bind : Address) (bindPort : UInt16) : Code Bool := do
  let bytes ← Coro.ofExcept (Socks5.Parser.encodeReply reply bind bindPort)
  let written ← appStream.writeFull (K := kind) bytes
  return decide (0 < written)

/-! ## The coroutines -/

/-- `finishClientTask` -/
def finishClientTask (s : Mem) : Mem × List (Syscall Fd) :=
  let s := { s with appReadDone := true }
  if !s.remoteTaskStarted then
    -- the other coroutine was never started
    ({ s with closed := true }, [])
  else
    match s.remoteReadDone, s.remoteFd with
    | false, some fd => (s, [.shutdownRdWr fd])
    | _, _ => ({ s with closed := true }, [])

/-- What `remoteTask` does at its end, exception or not. `appFd_` is only reset by the
    destructor. -/
def finishRemoteTask (s : Mem) : Mem × List (Syscall Fd) :=
  let s := { s with remoteReadDone := true }
  let calls := if !s.appReadDone then [.shutdownRdWr .app] else []
  if s.appReadDone && s.remoteReadDone then ({ s with closed := true }, calls) else (s, calls)

/-- The relay of `remoteTask`. -/
def relayRemoteToApp : Code Unit := do
  let s ← get
  let _ ← copyStream appStream s.remoteStream Mem.closed

def remoteTask : Code Unit := do
  Coro.tryCatch relayRemoteToApp fun _ => pure ()
  member finishRemoteTask

def startRemoteTask (remoteStream : NetStream Fd) : Code Unit := do
  modify fun s => { s with remoteTaskStarted := true, remoteStream }
  Prog.spawn (O := kind.object) Task.remoteTask

/-- The relay phase of `runTcpSession`. -/
def relayTcp (stream : NetStream Fd) : Code Unit := do
  startRemoteTask stream
  let _ ← copyStream stream appStream Mem.closed

def runTcpSession (req : Socks5.Request) : Code Unit := do
  match ← VlessClient.vlessConnectAndHandshake (K := kind) .remote cfg (toVlessRequest req .tcp) with
  | none =>
      let _ ← sendSocksReply .connectionRefused anyAddress 0
  | some (stream, remaining) =>
      modify fun s => { s with remoteFd := some .remote }
      if !(← sendSocksReply .success anyAddress 0) then
        return ()
      else if !(← appStream.writeNonempty (K := kind) remaining) then
        return ()
      else
        relayTcp stream

/-- Ignore what arrives on the control connection until it ends. -/
def awaitControlClose : Code Unit :=
  Coro.loop () fun _ => do
    let s ← get
    if s.closed then
      return .inr ()
    else
      let rr ← awaitNet (.recv .app 4096)
      if rr.1.eof || rr.1.error then
        return .inr ()
      else
        return .inl ()

def runUdpAssociate : Code Unit := do
  let opened ← awaitNet (.socket .udp .inet .dgram)
  if !opened then
    let _ ← sendSocksReply .generalFailure anyAddress 0
  else
    let bound ← awaitExt .bindUdp
    if !bound then
      member fun s => (s, [.close .udp])
      let _ ← sendSocksReply .generalFailure anyAddress 0
    else
      let bndPort ← awaitExt .getsockname
      if !(← sendSocksReply .success loopback bndPort) then
        member fun s => (s, [.close .udp])
      else
        awaitExt .relayStart
        awaitControlClose
        awaitExt .relayStop

/-- `switch (req.cmd)` -/
def dispatch (req : Socks5.Request) : Code Unit :=
  match req.cmd with
  | .connect => runTcpSession cfg req
  | .udpAssociate => runUdpAssociate
  | _ => do
      let _ ← sendSocksReply .commandNotSupported anyAddress 0

/-- The `try` block of `clientTask`: whether it returned from the coroutine. -/
def runSession : Code Bool := do
  let noAuth ← onStream Socks5.Parser.readGreeting
  if !noAuth then
    let _ ← appStream.writeFull (K := kind) [0x05, 0xFF]
    member finishClientTask
    return true
  else
    let g ← appStream.writeFull (K := kind) Socks5.Parser.encodeGreetingResponse
    if g ≤ 0 then
      member finishClientTask
      return true
    else
      let req ← onStream Socks5.Parser.readRequest
      dispatch cfg req
      return false

def clientTask : Code Unit := do
  let returned ← Coro.tryCatch (runSession cfg) fun _ => pure false
  if returned then
    return ()
  else
    member finishClientTask

/-- The code of each coroutine. -/
def body : Task → Code Unit
  | .clientTask => clientTask cfg
  | .remoteTask => remoteTask

/-- The states a session can be in from `start()` on. -/
def Reachable (p : Pool kind.object) : Prop :=
  Coroutine.Reachable (O := kind.object) (body cfg) Task.clientTask {} p

/-! ## Which operations they come to -/

section Only

variable {P : ObjOp kind.object → Prop} {α : Type}

theorem only_onStream (hget : P .get) (hread : ∀ o : NetOp Fd, o.Reads .app → P (.io (.inl o)))
    (hstream : ∀ stream, P (.member fun s => ({ s with stream }, []))) (p : Parser α) : Only P (onStream p) := by
  refine .bind (.await hget) fun s => .bind ?_ fun (res, stream) => ?_
  · exact UringBufferedStream.only_parse (NetStream.only_read _ _ hread) _ _
  · exact .bind (.await (hstream stream)) fun _ => trivial

theorem only_writeApp (hwrite : ∀ o : NetOp Fd, o.Writes .app → P (.io (.inl o))) (data : Bytes) :
    Only P (appStream.writeFull (K := kind) data) :=
  NetStream.only_writeFull _ _ hwrite

theorem only_sendSocksReply (hwrite : ∀ o : NetOp Fd, o.Writes .app → P (.io (.inl o)))
    (reply : Socks5.Reply) (bind : Address) (port : UInt16) : Only P (sendSocksReply reply bind port) := by
  refine .bind (c := Coro.ofExcept _) trivial fun bytes => ?_
  exact .bind (only_writeApp hwrite bytes) fun _ => trivial

theorem only_awaitControlClose (hget : P .get) (hrecv : ∀ n, P (.io (.inl (.recv .app n)))) :
    Only P awaitControlClose := by
  refine .loop fun _ => .bind (.await hget) fun s => .ite (fun _ => trivial) fun _ => ?_
  exact .bind (.await (hrecv _)) fun rr => .ite (fun _ => trivial) fun _ => trivial

/-- An association only makes calls, which end no stream, and closes its socket if it fails. -/
theorem only_runUdpAssociate (hget : P .get)
    (hnet : ∀ o : NetOp Fd, (∀ fd, ¬ o.Shuts fd) → P (.io (.inl o)))
    (hext : ∀ o : ExtOp, P (.io (.inr o)))
    (hclose : P (.member fun s => (s, [.close .udp]))) : Only P runUdpAssociate := by
  have hreply : ∀ reply bind port, Only P (do
      let _ ← sendSocksReply reply bind port : Code Unit) :=
    fun _ _ _ => .bind (only_sendSocksReply (fun _ ho => hnet _ fun _ => ho.not_shuts) _ _ _)
      fun _ => trivial
  refine .bind (.await (hnet _ fun _ => id)) fun opened => .ite (fun _ => hreply _ _ _) fun _ => ?_
  refine .bind (.await (hext _)) fun bound => .ite (fun _ => ?_) fun _ => ?_
  · exact .bind (.await hclose) fun _ => hreply _ _ _
  · refine .bind (.await (hext _)) fun port =>
      .bind (only_sendSocksReply (fun _ ho => hnet _ fun _ => ho.not_shuts) _ _ _) fun sent => ?_
    refine .ite (fun _ => .await hclose) fun _ => .bind (.await (hext _)) fun _ => ?_
    exact .bind (only_awaitControlClose hget fun _ => hnet _ fun _ => id) fun _ => .await (hext _)

theorem relays (hget : P .get) (hnet : ∀ o, P (.io (.inl o))) (src dst : Fd) : Relays (K := kind) P src dst :=
  ⟨hget, fun _ _ => hnet _, fun _ _ => hnet _, fun _ _ => hnet _⟩

end Only

end Socks5Connection

end Cppvless
