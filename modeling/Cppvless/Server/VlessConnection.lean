import Cppvless.Net.BufferedStream
import Cppvless.Vless.Decoder
import Cppvless.Vless.VisionWriter

set_option autoImplicit false

/-! # The server side of a VLESS connection

The two coroutines of `server::VlessConnection` and the members they share, from
`src/server/vless_connection*.cpp`. The functions of `EncryptionSession` and the random number
generator are operations, answered by anything. -/

namespace Cppvless

open Coroutine

namespace VlessConnection

/-- The descriptors: `clientFd_`, and the target socket from `socket()` on. -/
inductive Fd
  | client
  | target
  deriving DecidableEq

inductive Task
  | clientTask
  | targetTask
  deriving DecidableEq

/-- What the connection calls besides the network. -/
inductive ExtOp
  /-- `std::random_device{}()`, the seed of a `VisionWriter` -/
  | randomDevice
  /-- the random numbers of one call of `VisionWriter::process` -/
  | draws
  /-- `EncryptionSession::generateKeyPair` -/
  | generateKeyPair
  /-- `EncryptionSession::computeSharedSecret` -/
  | computeSharedSecret (peerPublicKey : Bytes)
  /-- `EncryptionSession::decryptClient` -/
  | decryptClient (ciphertext : Bytes)
  /-- `EncryptionSession::encryptServer` -/
  | encryptServer (plaintext : Bytes)
  deriving DecidableEq

@[reducible] def ExtOp.Res : ExtOp → Type
  | .randomDevice => Except Exn Unit
  | .draws => Draws
  | .generateKeyPair => Except Exn Bytes
  | .computeSharedSecret _ => Except Exn Bool
  -- the plaintext, if decryption succeeds
  | .decryptClient _ => Except Exn (Option Bytes)
  -- the ciphertext, whose size is returned; empty on failure
  | .encryptServer _ => Except Exn Bytes

/-- The members. Until `useVision` is set, the Vision objects are null in the source; nothing reads
    them then. -/
structure Mem where
  targetFd : Option Fd := none
  stream : UringBufferedStream := .empty
  closed : Bool := false
  clientReadDone : Bool := false
  targetReadDone : Bool := false
  targetTaskStarted : Bool := false
  handshakeRemaining : Bytes := []
  useVision : Bool := false
  visionCtx : VisionContext := {}
  visionReader : VisionReader := .new (List.Vector.replicate 16 0)
  visionWriter : VisionWriter := .new (List.Vector.replicate 16 0)
  useEncryption : Bool := false
  serverPublicKey : Bytes := []
  clientPublicKey : Bytes := []
  command : Command := .tcp

@[reducible] def kind : Kind where
  Mem := Mem
  Fd := Fd
  fdEq := inferInstance
  Task := Task
  Ext := ⟨ExtOp, ExtOp.Res⟩
  extSuspends := fun _ => false

instance : DecidableEq kind.object.Task := inferInstanceAs (DecidableEq Task)

/-- A coroutine, or a function, of the connection. -/
abbrev Code (α : Type) := kind.Prog α

/-- The arguments of the constructor besides the descriptor: the users, and whether there is a TLS
    context. -/
structure Config where
  validator : Validator
  tls : Bool

/-- `clientStream_` -/
def Config.clientStream (cfg : Config) : NetStream Fd :=
  if cfg.tls then .tls .client else .async .client

def targetStream : NetStream Fd := .async .target

def get : Code Mem := Prog.get (O := kind.object)

def modify (f : Mem → Mem) : Code Unit := Prog.modify (O := kind.object) f

def update {α : Type} (f : Mem → α × Mem) : Code α := Prog.update (O := kind.object) f

/-- A member function that makes system calls. -/
def member (f : Mem → Mem × List (Syscall Fd)) : Code Unit := Prog.member (O := kind.object) f

def awaitNet (o : NetOp Fd) : Code o.Res := net (K := kind) o

def awaitExt (o : ExtOp) : Code o.Res := ext (K := kind) o

/-- A call that may throw. -/
def orThrow {α : Type} (r : Except Exn α) : Code α := Coro.ofExcept r

variable (cfg : Config)

/-! ## Handshake -/

/-- A parser on `stream_`. -/
def onStream {α : Type} (p : Parser α) : Code α := do
  let s ← get
  let (res, stream) ← UringBufferedStream.parse (cfg.clientStream.read (K := kind)) p s.stream
  modify fun s => { s with stream }
  orThrow res

def processHandshake : Code Request := do
  let req ← onStream cfg (Decoder.decode cfg.validator)
  let remaining ← update fun s =>
    (s.stream.drainRemaining.1, { s with stream := s.stream.drainRemaining.2 })
  if remaining ≠ [] then
    modify fun s => { s with handshakeRemaining := remaining }
    return req
  else
    return req

def setupVision (req : Request) : Code Bool :=
  if req.flow = flowVision then do
    modify fun s =>
      { s with useVision := true, visionCtx := {}, visionReader := .new req.uuid }
    let seed ← awaitExt .randomDevice
    orThrow seed
    modify fun s => { s with visionWriter := .new req.uuid }
    return true
  else
    -- an unsupported flow closes the connection
    return decide (req.flow = [])

def setupEncryption (req : Request) : Code Bool :=
  if req.encryption = [] then
    return true
  else if req.encryption = ascii "aes-256-gcm" ∨ req.encryption = ascii "aes256gcm" ∨
      req.encryption = ascii "chacha20-poly1305" ∨ req.encryption = ascii "chacha20" then do
    modify fun s => { s with useEncryption := true }
    let clientPubKeyBytes ← onStream cfg (Reader.next 32)
    if clientPubKeyBytes.length ≠ 32 then
      return false
    else
      modify fun s => { s with clientPublicKey := clientPubKeyBytes }
      let keyPair ← awaitExt .generateKeyPair
      let serverPublicKey ← orThrow keyPair
      modify fun s => { s with serverPublicKey }
      return true
  else
    return false

/-! ## Connecting -/

/-- The end of `createTargetSocket`, once the address is known. -/
def openTargetSocket (addr : SockAddr) (type : SockType) : Code (Option SockAddr) := do
  let opened ← awaitNet (.socket .target addr.family type)
  return if opened then some addr else none

/-- `createTargetSocket`: the address to connect the socket to, if there is a socket. -/
def createTargetSocket (req : Request) : Code (Option SockAddr) :=
  let socketType := if req.command = .udp then SockType.dgram else SockType.stream
  match req.address with
  | .ipv4 ip => openTargetSocket ⟨.inet, ip.toList, req.port⟩ socketType
  | .ipv6 ip => openTargetSocket ⟨.inet6, ip.toList, req.port⟩ socketType
  | .domain domain => do
      -- `c_str()` ends at the first zero byte
      let res ← awaitNet (.getaddrinfo (domain.takeWhile (· ≠ 0)) req.port socketType)
      match res with
      | none => return none
      | some res =>
          match res.find? fun a => a.family = .inet ∨ a.family = .inet6 with
          | none => return none
          | some addr => openTargetSocket addr socketType

def connectTarget (req : Request) : Code Bool := do
  match ← createTargetSocket req with
  | none => return false
  | some addr => do
      let connectResult ← awaitNet (.connect .target addr)
      if (connectResult : Int) < 0 then
        member fun s => (s, [.close .target])
        return false
      else
        modify fun s => { s with targetFd := some .target }
        return true

def sendResponseAndKey (version : UInt8) : Code Bool := do
  let sendResult ← cfg.clientStream.writeFull (K := kind) (Decoder.encodeResponse version)
  if sendResult < 0 then
    return false
  else
    let s ← get
    if s.useEncryption then
      let sendKeyResult ← cfg.clientStream.writeFull (K := kind) s.serverPublicKey
      if sendKeyResult ≤ 0 then
        return false
      else
        let secret ← awaitExt (.computeSharedSecret s.clientPublicKey)
        orThrow secret
    else
      return true

/-! ## Relaying -/

/-- What the Vision branches write: the data through `VisionReader::process`. -/
def unpadVision (data : Bytes) : Code (Option Bytes) := do
  let s ← get
  if !s.visionReader.directCopy then
    let output ← update fun s =>
      let (output, visionReader, visionCtx) := s.visionReader.process s.visionCtx data
      (output, { s with visionReader, visionCtx })
    return some output
  else
    return some data

/-- The data through `VisionWriter::process`. -/
def padVision (data : Bytes) : Code (Option Bytes) := do
  let s ← get
  if !s.visionWriter.directCopy then
    let draws ← awaitExt .draws
    let output ← update fun s =>
      let (output, visionWriter, visionCtx) := s.visionWriter.process draws s.visionCtx data
      (output, { s with visionWriter, visionCtx })
    return some output
  else
    return some data

/-- What the Encryption branches write: the data through `decryptClient`. -/
def decryptClient (data : Bytes) : Code (Option Bytes) := do
  let plaintext ← awaitExt (.decryptClient data)
  orThrow plaintext

/-- The data through `encryptServer`. -/
def encryptServer (data : Bytes) : Code (Option Bytes) := do
  let ciphertext ← awaitExt (.encryptServer data)
  let ciphertext ← orThrow ciphertext
  return if ciphertext.length = 0 then none else some ciphertext

/-- What `forwardHandshakeRemaining` writes. -/
def decodeHandshakeRemaining (s : Mem) : Code (Option Bytes) :=
  if s.useEncryption then
    decryptClient s.handshakeRemaining
  else if s.useVision then do
    let output ← update fun s =>
      let (output, visionReader, visionCtx) := s.visionReader.process s.visionCtx s.handshakeRemaining
      (output, { s with visionReader, visionCtx })
    return some output
  else
    return some s.handshakeRemaining

def forwardHandshakeRemaining : Code Bool := do
  let s ← get
  if s.handshakeRemaining = [] then
    return true
  else
    match ← decodeHandshakeRemaining s with
    | none => return false
    | some data =>
        if !(← targetStream.writeNonempty (K := kind) data) then
          return false
        else
          modify fun s => { s with handshakeRemaining := [] }
          return true

def relayClientToTarget : Code Bool := do
  let s ← get
  if s.useEncryption then
    relayTransformed targetStream cfg.clientStream Mem.closed decryptClient fun _ => false
  else if s.useVision then
    relayTransformed targetStream cfg.clientStream Mem.closed unpadVision fun s =>
      s.visionReader.directCopy
  else
    copyStream targetStream cfg.clientStream Mem.closed

/-- `bs[i]` of a vector. -/
def byteAt (bs : Bytes) (i : Nat) : Code UInt8 :=
  match bs[i]? with
  | some b => pure b
  | none => orThrow (.error .outOfBounds)

/-- The `n` bytes of a vector from `i` on. -/
def bytesAt (bs : Bytes) (i n : Nat) : Code Bytes :=
  if i + n ≤ bs.length then pure ((bs.drop i).take n) else orThrow (.error .outOfBounds)

/-- `a - b` of two sizes, which must not wrap around. -/
def sizeSub (a b : Nat) : Code Nat :=
  if b ≤ a then pure (a - b) else orThrow (.error .outOfBounds)

/-- A round of the inner loop of `relayUdpClientToTarget`: the packet at `offset`. -/
def sendPacket (pending : Bytes) (offset : Nat) : Code (Nat ⊕ Option Nat) := do
  let left ← sizeSub pending.length offset
  if 2 ≤ left then
    let pktLen := (beUInt16 (← byteAt pending offset) (← byteAt pending (offset + 1))).toNat
    if left < 2 + pktLen then
      return .inr (some offset)
    else if 0 < pktLen then do
      let packet ← bytesAt pending (offset + 2) pktLen
      let written ← targetStream.writeFull (K := kind) packet
      if written ≤ 0 then
        return .inr none
      else
        return .inl (offset + (2 + pktLen))
    else
      return .inl (offset + (2 + pktLen))
  else
    return .inr (some offset)

/-- The inner loop: send the complete packets of `pending` and answer where the first incomplete one
    starts, or nothing if a send fails. -/
def sendPackets (pending : Bytes) : Code (Option Nat) := Coro.loop 0 (sendPacket pending)

def relayUdpClientToTarget : Code Bool := do
  let pending ← update fun s => (s.handshakeRemaining, { s with handshakeRemaining := [] })
  Coro.loop pending fun pending => do
    let s ← get
    if s.closed then
      return .inr true
    else
      match ← sendPackets pending with
      | none => return .inr false
      | some offset =>
          if 0 < offset then
            return .inl (pending.drop offset)
          else
            let rr ← cfg.clientStream.read (K := kind)
            if rr.eof then
              return .inr true
            else if rr.error then
              return .inr false
            else
              return .inl (pending ++ rr.data)

def relayUdpTargetToClient : Code Unit :=
  Coro.loop () fun _ => do
    let s ← get
    if s.closed then
      return .inr ()
    else
      let rr ← targetStream.read (K := kind) 65536
      if rr.eof then
        return .inr ()
      else if rr.error then
        return .inr ()
      else if 0xFFFF < rr.data.length then
        return .inl ()
      else
        let framed := beBytes rr.data.length ++ rr.data
        let written ← cfg.clientStream.writeFull (K := kind) framed
        if written ≤ 0 then
          return .inr ()
        else
          return .inl ()

/-! ## The coroutines -/

/-- `finishClientTask` -/
def finishClientTask (s : Mem) : Mem × List (Syscall Fd) :=
  let s := { s with clientReadDone := true }
  if !s.targetTaskStarted then
    -- the other coroutine was never started
    ({ s with closed := true }, [])
  else
    match s.targetReadDone, s.targetFd with
    | false, some fd => (s, [.shutdownRdWr fd])
    | _, _ => ({ s with closed := true }, [])

/-- What `targetTask` does at its end, exception or not. `clientFd_` is only reset by the
    destructor. -/
def finishTargetTask (s : Mem) : Mem × List (Syscall Fd) :=
  let s := { s with targetReadDone := true }
  let calls := if !s.clientReadDone then [.shutdownRdWr .client] else []
  if s.clientReadDone && s.targetReadDone then ({ s with closed := true }, calls) else (s, calls)

/-- The relay of `targetTask`. -/
def relayTargetToClient : Code Unit := do
  let s ← get
  if s.command = .udp then
    relayUdpTargetToClient cfg
  else if s.useEncryption then do
    let _ ← relayTransformed cfg.clientStream targetStream Mem.closed encryptServer fun _ => false
  else if s.useVision then do
    let _ ← relayTransformed cfg.clientStream targetStream Mem.closed padVision fun s =>
      s.visionWriter.directCopy
  else do
    let _ ← copyStream cfg.clientStream targetStream Mem.closed

def targetTask : Code Unit := do
  Coro.tryCatch
    (do
      relayTargetToClient cfg
      modify fun s => { s with targetReadDone := true })
    fun _ => pure ()
  member finishTargetTask

def startTargetTask : Code Unit := do
  modify fun s => { s with targetTaskStarted := true }
  Prog.spawn (O := kind.object) Task.targetTask

def runTcpSession (req : Request) : Code Bool := do
  if !(← setupVision req) then
    return false
  else if !(← setupEncryption cfg req) then
    return false
  else if !(← sendResponseAndKey cfg req.version) then
    return false
  else if !(← connectTarget req) then
    return false
  else
    startTargetTask
    if !(← forwardHandshakeRemaining) then
      return false
    else
      relayClientToTarget cfg

def runUdpSession (req : Request) : Code Bool := do
  if req.flow ≠ [] ∨ req.encryption ≠ [] then
    return false
  else if !(← sendResponseAndKey cfg req.version) then
    return false
  else if !(← connectTarget req) then
    return false
  else
    startTargetTask
    relayUdpClientToTarget cfg

/-- `switch (req.command)` -/
def dispatch (req : Request) : Code Bool :=
  match req.command with
  | .tcp => runTcpSession cfg req
  | .udp => runUdpSession cfg req
  | .mux => pure false
  | .rvs => pure false

/-- `TlsStream::handshake`, if there is a TLS context. -/
def acceptTls : Code Bool :=
  if cfg.tls then awaitNet (.tlsHandshake .client) else pure true

/-- The `try` block of `clientTask`: whether it returned from the coroutine. -/
def runSession : Code Bool := do
  if !(← acceptTls cfg) then
    member finishClientTask
    return true
  else
    let req ← processHandshake cfg
    modify fun s => { s with command := req.command }
    let _normalEnd ← dispatch cfg req
    return false

def clientTask : Code Unit := do
  let returned ← Coro.tryCatch (runSession cfg) fun _ => pure false
  if returned then
    return ()
  else
    member finishClientTask

/-- The code of each coroutine. -/
def body : Task → Code Unit
  | .clientTask => clientTask cfg
  | .targetTask => targetTask cfg

/-- The states a connection can be in from `start()` on. -/
def Reachable (p : Pool kind.object) : Prop :=
  Coroutine.Reachable (O := kind.object) (body cfg) Task.clientTask {} p

end VlessConnection

end Cppvless
