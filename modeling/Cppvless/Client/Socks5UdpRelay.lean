import Cppvless.Client.VlessClient
import Cppvless.Coroutine.Tracked
import Cppvless.Net.Framing
import Cppvless.Net.Script

set_option autoImplicit false

/-! # The UDP relay of the client

`client::Socks5UdpRelay`, from `src/client/socks5_udp_relay.cpp`: one coroutine receives the
application's datagrams, one sends the answers back, and every destination has a session with a
coroutine of its own. `PendingUringOps`, the table of the operations in flight, is a member here, and
a descriptor is named by what it was opened for. -/

namespace Cppvless

open Coroutine

namespace Socks5UdpRelay

/-- `udpFd_`, `eventFd_`, and the sockets to the VLESS server, one for each session. -/
inductive Fd
  | udp
  | event
  | remote (n : Nat)
  deriving DecidableEq

/-- `control` is what `Socks5Connection` does with the relay; the others are the relay's own. -/
inductive Task
  | control
  | recvLoop
  | sendLoop
  | outTask (n : Nat)
  deriving DecidableEq

/-- One operation of each kind is in flight on a descriptor at a time. -/
inductive Dir
  | read
  | write
  deriving DecidableEq

inductive ExtOp
  /-- `eventfd`: whether it returned a descriptor -/
  | eventfd
  /-- `AsyncRecvFrom` -/
  | recvFrom (bufSize : Nat)
  /-- `AsyncSendTo`; `none` is the address of length zero -/
  | sendTo (data : Bytes) (addr : Option SockAddr)
  /-- the end of the control connection -/
  | controlEnd
  deriving DecidableEq

@[reducible] def ExtOp.Res : ExtOp → Type
  | .eventfd => Bool
  | .recvFrom bufSize => { rr : RecvResult // rr.data.length ≤ bufSize } × Option SockAddr
  | .sendTo _ _ => Int
  | .controlEnd => Unit

def ExtOp.suspends : ExtOp → Bool
  | .eventfd => false
  | _ => true

/-- `Session`. One that was never created is not alive and has no descriptor. -/
structure Session where
  remoteFd : Option Fd := none
  stream : Option (NetStream Fd) := none
  dest : Address := .domain []
  port : UInt16 := 0
  appSrc : Option SockAddr := none
  alive : Bool := false

/-- `PendingDatagram` -/
structure PendingDatagram where
  data : Bytes
  src : Option SockAddr
  deriving DecidableEq

/-- What the key of a session stands for. -/
abbrev Key := Address × UInt16

/-- The members. `sessions` maps keys to sessions, which stay known to their coroutines when they are
    replaced. `eventCounter` is the counter of the eventfd and `pending` says which operations in
    flight have a callback. Nothing reads the last two: `connecting` is the socket `recvLoop` is
    setting up, `stale` the session it is writing to if that was closed before. -/
structure Mem where
  closed : Bool := false
  udpFd : Option Fd := some .udp
  eventFd : Option Fd := none
  sessions : List (Key × Nat) := []
  session : Nat → Session := fun _ => {}
  nextRemote : Nat := 0
  sendQueue : List PendingDatagram := []
  eventCounter : Nat := 0
  pending : Fd → Dir → Bool := fun _ _ => false
  connecting : Option Nat := none
  stale : Option Nat := none

@[reducible] def kind : Kind where
  Mem := Mem
  Fd := Fd
  fdEq := inferInstance
  Task := Task
  Ext := ⟨ExtOp, ExtOp.Res⟩
  extSuspends := ExtOp.suspends

instance : DecidableEq kind.object.Task := inferInstanceAs (DecidableEq Task)

/-- A coroutine, or a function, of the relay. -/
abbrev Code (α : Type) := kind.Prog α

def get : Code Mem := Prog.get (O := kind.object)

def modify (f : Mem → Mem) : Code Unit := Prog.modify (O := kind.object) f

def update {α : Type} (f : Mem → α × Mem) : Code α := Prog.update (O := kind.object) f

/-- A member function that makes system calls. -/
def member (f : Mem → Mem × List (Syscall Fd)) : Code Unit := Prog.member (O := kind.object) f

def awaitNet (o : NetOp Fd) : Code o.Res := net (K := kind) o

def awaitExt (o : ExtOp) : Code o.Res := ext (K := kind) o

/-! ## The table of operations -/

/-- The place of an operation in `PendingUringOps`. -/
def slot : kind.object.Io.Op → Option (Fd × Dir)
  | .inl (.recv fd _) => some (fd, .read)
  | .inl (.send fd _) => some (fd, .write)
  | .inl (.connect fd _) => some (fd, .write)
  | .inl (.shutdownWr fd) => some (fd, .write)
  | .inl (.tlsHandshake fd) => some (fd, .read)
  | .inl (.tlsRead fd _) => some (fd, .read)
  | .inl (.tlsWriteFull fd _) => some (fd, .write)
  | .inl (.tlsShutdownWrite fd) => some (fd, .write)
  | .inl (.getaddrinfo _ _ _) => none
  | .inl (.socket _ _ _) => none
  | .inr (.recvFrom _) => some (.udp, .read)
  | .inr (.sendTo _ _) => some (.udp, .write)
  | .inr .eventfd => none
  | .inr .controlEnd => none

/-- Put `b` in the place `s`. -/
def Mem.setPending (s : Fd × Dir) (b : Bool) (m : Mem) : Mem :=
  { m with pending := Function.update m.pending s.1 (Function.update (m.pending s.1) s.2 b) }

/-- `PendingUringOps::add` when an operation is awaited, `remove` when it completes. -/
def tracking : Tracking kind.object (Fd × Dir) where
  slot := slot
  arm s := Mem.setPending s true
  disarm s := Mem.setPending s false

/-- `PendingUringOps::cancelFd` -/
def Mem.cancelFd (fd : Fd) (m : Mem) : Mem :=
  { m with pending := Function.update m.pending fd fun _ => false }

/-! ## Member functions -/

def Mem.setSession (n : Nat) (session : Session) (m : Mem) : Mem :=
  { m with session := Function.update m.session n session }

/-- Mark a session as dead and close its descriptor: the end of `sessionOutTask`, and what `recvLoop`
    does after a failed write. -/
def closeSession (n : Nat) (m : Mem) : Mem × List (Syscall Fd) :=
  match (m.session n).remoteFd with
  | some fd =>
      ((m.cancelFd fd).setSession n { m.session n with alive := false, remoteFd := none },
        [Syscall.close fd])
  | none => (m.setSession n { m.session n with alive := false }, [])

/-- The loop of `stop` over the map. -/
def closeSessions : List (Key × Nat) → Mem → Mem × List (Syscall Fd)
  | [], m => (m, [])
  | (_, n) :: rest, m =>
      match (m.session n).remoteFd with
      | some _ =>
          let (m, calls) := closeSession n m
          let (m, calls') := closeSessions rest m
          (m, calls ++ calls')
      | none => closeSessions rest m

/-- `cancelFd` and `::close` of a descriptor that is open. -/
def cancelAndClose (fd : Option Fd) (m : Mem) : Mem × List (Syscall Fd) :=
  match fd with
  | some fd => (m.cancelFd fd, [Syscall.close fd])
  | none => (m, [])

/-- `stop` -/
def stop (m : Mem) : Mem × List (Syscall Fd) :=
  if m.closed then
    (m, [])
  else
    let (m, calls) := closeSessions m.sessions { m with closed := true }
    let (m, eventCalls) := cancelAndClose m.eventFd m
    let (m, udpCalls) := cancelAndClose m.udpFd m
    ({ m with eventFd := none, udpFd := none, sessions := [], sendQueue := [] },
      calls ++ eventCalls ++ udpCalls)

/-- `sendQueue_.push_back`, and the write to the eventfd. -/
def Mem.enqueue (item : PendingDatagram) (m : Mem) : Mem :=
  { m with
    sendQueue := m.sendQueue ++ [item]
    eventCounter := if m.eventFd.isSome then m.eventCounter + 1 else m.eventCounter }

/-- `sessions_[key] = session` -/
def Mem.addSession (key : Key) (n : Nat) (m : Mem) : Mem :=
  { m with sessions := (key, n) :: m.sessions.filter fun x => x.1 ≠ key, connecting := none }

def Mem.findSession (key : Key) (m : Mem) : Option Nat := m.sessions.lookup key

/-- The descriptor of the next socket. -/
def Mem.nextSocket (m : Mem) : Nat × Mem :=
  (m.nextRemote, { m with nextRemote := m.nextRemote + 1, connecting := some m.nextRemote })

/-! ## The coroutines -/

/-- `enqueueDatagram` of the session `n`. -/
def enqueueDatagram (n : Nat) (payload : Bytes) : Code Unit := do
  let m ← get
  if m.closed || payload = [] then
    return ()
  else
    let session := m.session n
    let data ← Coro.ofExcept (Socks5.Parser.encodeUdpDatagram session.dest session.port payload)
    modify (Mem.enqueue ⟨data, session.appSrc⟩)

/-- The frames of one read. What follows the last whole frame is dropped. -/
def enqueueFrames (n : Nat) (data : Bytes) : Code Unit :=
  Coro.loop 0 fun pos => do
    if pos + 2 ≤ data.length then
      let pktLen := (beUInt16 (data.getD pos 0) (data.getD (pos + 1) 0)).toNat
      if data.length < pos + 2 + pktLen then
        return .inr ()
      else
        enqueueDatagram n ((data.drop (pos + 2)).take pktLen)
        return .inl (pos + 2 + pktLen)
    else
      return .inr ()

/-- The condition of the loop of `sessionOutTask`: the stream, if the session goes on. -/
def openStream (n : Nat) (m : Mem) : Option (NetStream Fd) :=
  if !m.closed && (m.session n).alive && (m.session n).remoteFd.isSome then (m.session n).stream
  else none

/-- The loop of `sessionOutTask`. -/
def readFrames (n : Nat) : Code Unit :=
  Coro.loop () fun _ => do
    let m ← get
    match openStream n m with
    | none => return .inr ()
    | some stream =>
        let rr ← stream.read (K := kind)
        if rr.eof then
          return .inr ()
        else if rr.error then
          return .inr ()
        else if rr.data = [] then
          return .inl ()
        else
          enqueueFrames n rr.data
          return .inl ()

def sessionOutTask (n : Nat) : Code Unit := do
  readFrames n
  member (closeSession n)

/-- The task of a session reads streams, puts datagrams into the queue, and closes its session. -/
theorem only_sessionOutTask_of_reads {P : ObjOp kind.object → Prop} (n : Nat) (hget : P .get)
    (hread : ∀ (fd : Fd) (o : NetOp Fd), o.Reads fd → P (.io (.inl o)))
    (henqueue : ∀ item, P (.member fun m => (m.enqueue item, []))) (hclose : P (.member (closeSession n))) :
    Only P (sessionOutTask n) := by
  have hdatagram : ∀ payload, Only P (enqueueDatagram n payload) := by
    intro payload
    refine .bind (.await hget) fun m => .ite (fun _ => trivial) fun _ => ?_
    exact .bind (c := Coro.ofExcept _) trivial fun data => .await (henqueue _)
  have hframes : ∀ data, Only P (enqueueFrames n data) := by
    intro data
    refine .loop fun pos => .ite (fun _ => .ite (fun _ => trivial) fun _ => ?_) fun _ => trivial
    exact .bind (hdatagram _) fun _ => trivial
  refine .bind (.loop fun _ => .bind (.await hget) fun m => ?_) fun _ => .await hclose
  cases openStream n m with
  | none => trivial
  | some stream =>
      refine .bind (stream.only_read (K := kind) _ fun o ho => hread _ o ho) fun rr => ?_
      refine .ite (fun _ => trivial) fun _ => .ite (fun _ => trivial) fun _ => .ite (fun _ => trivial) fun _ => ?_
      exact .bind (hframes _) fun _ => trivial

/-- The task of a session awaits operations on streams, puts datagrams into the queue, and closes its
    session. -/
theorem only_sessionOutTask {P : ObjOp kind.object → Prop} (n : Nat) (hget : P .get) (hio : ∀ o, P (.io o))
    (henqueue : ∀ item, P (.member fun m => (m.enqueue item, []))) (hclose : P (.member (closeSession n))) :
    Only P (sessionOutTask n) :=
  only_sessionOutTask_of_reads n hget (fun _ _ _ => hio _) henqueue hclose

variable (cfg : VlessClientConfig)

/-- What `getOrCreateSession` does if there is no session that is alive. -/
def createSession (dest : Address) (port : UInt16) : Code (Option Nat) := do
  let n ← update Mem.nextSocket
  let req : Socks5.Request := { cmd := .udpAssociate, address := dest, port := port }
  match ← VlessClient.vlessConnectAndHandshake (K := kind) (.remote n) cfg (toVlessRequest req .udp) with
  | none =>
      modify fun m => { m with connecting := none }
      return none
  | some (stream, _) =>
      modify (Mem.setSession n
        { remoteFd := some (.remote n), stream := some stream, dest, port, alive := true })
      Prog.spawn (O := kind.object) (Task.outTask n)
      modify (Mem.addSession (dest, port) n)
      return some n

def getOrCreateSession (dest : Address) (port : UInt16) : Code (Option Nat) := do
  let m ← get
  match m.findSession (dest, port) with
  | some n => if (m.session n).alive then return some n else createSession cfg dest port
  | none => createSession cfg dest port

/-- The write of `recvLoop` to a session. -/
def forward (n : Nat) (payload : Bytes) : Code Unit := do
  let m ← get
  match (m.session n).stream with
  | none => modify (Mem.setSession n { m.session n with alive := false })
  | some stream =>
      modify fun m => { m with stale := if (m.session n).remoteFd.isSome then none else some n }
      let written ← stream.writeFull (K := kind) (frame payload)
      modify fun m => { m with stale := none }
      if written ≤ 0 then
        member (closeSession n)
      else
        return ()

def recvLoop : Code Unit := do
  Coro.loop () fun _ => do
    let m ← get
    if m.closed then
      return .inr ()
    else
      let (rr, src) ← awaitExt (.recvFrom 65536)
      if rr.1.error then
        return .inr ()
      else if rr.1.eof || rr.1.data = [] then
        return .inl ()
      else
        match Socks5.Parser.parseUdpDatagram rr.1.data with
        | none => return .inl ()
        | some (dest, port, payload) =>
            if payload = [] then
              return .inl ()
            else
              match ← getOrCreateSession cfg dest port with
              | none => return .inl ()
              | some n =>
                  modify fun m => m.setSession n { m.session n with appSrc := src }
                  forward n payload
                  return .inl ()
  member stop

/-- The inner loop of `sendLoop`. -/
def drainQueue : Code Unit :=
  Coro.loop () fun _ => do
    let m ← get
    match m.sendQueue with
    | [] => return .inr ()
    | item :: rest =>
        if m.closed then
          return .inr ()
        else
          modify fun m => { m with sendQueue := rest }
          let sent ← awaitExt (.sendTo item.data item.src)
          if (sent : Int) ≤ 0 then
            return .inr ()
          else
            return .inl ()

def sendLoop : Code Unit :=
  Coro.loop () fun _ => do
    let m ← get
    if m.closed then
      return .inr ()
    else
      let rr ← awaitNet (.recv .event 4096)
      if rr.1.error then
        return .inr ()
      else
        -- the read has reset the counter
        modify fun m => { m with eventCounter := 0 }
        drainQueue
        return .inl ()

/-- `start`, and `stop` when the control connection has ended. -/
def control : Code Unit := do
  let opened ← awaitExt .eventfd
  if !opened then
    modify fun m => { m with closed := true }
  else
    modify fun m => { m with eventFd := some .event }
    Prog.spawn (O := kind.object) Task.recvLoop
    Prog.spawn (O := kind.object) Task.sendLoop
  awaitExt .controlEnd
  member stop

/-- What each coroutine is written as. -/
def code : Task → Code Unit
  | .control => control
  | .recvLoop => recvLoop cfg
  | .sendLoop => sendLoop
  | .outTask n => sessionOutTask n

/-- The code of each coroutine, with the table of operations. -/
def body (t : Task) : Code Unit := tracking.tracked (code cfg t)

/-- The place of the operation that completes. -/
def completes : Event kind.object → Option (Fd × Dir)
  | .io o _ => slot o
  | _ => none

/-- An operation completes only while it has a callback. -/
def Delivered (w w' : World kind.object) : Prop :=
  ∀ e ∈ w'.trace.drop w.trace.length, ∀ s ∈ completes e, w.mem.pending s.1 s.2 = true

instance (w w' : World kind.object) : Decidable (Delivered w w') :=
  inferInstanceAs (Decidable (∀ e ∈ w'.trace.drop w.trace.length, ∀ s ∈ completes e,
    w.mem.pending s.1 s.2 = true))

/-! ## Runs -/

/-- An application that sends this datagram again and again and gets its answers with the result
    `sent`, and what the sockets to the server receive. -/
def application (datagram : Bytes) (sent : Int) (received : Nat → List Bytes) : Script kind where
  pieces
    | .remote n => received n
    | .udp => []
    | .event => []
  ext
    | .eventfd => true
    | .recvFrom bufSize => (⟨.ofBytes (datagram.take bufSize), List.length_take_le _ _⟩, none)
    | .sendTo _ _ => sent
    | .controlEnd => ()

/-- With a server that has an address. -/
def resolved (s : Script kind) (w : World kind.object) : (o : kind.object.Io.Op) → kind.object.Io.Res o
  | .inl (.getaddrinfo _ _ _) => some [⟨.inet, [127, 0, 0, 1], 443⟩]
  | o => s.env w o

end Socks5UdpRelay

end Cppvless
