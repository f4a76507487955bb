import Cppvless.Coro.TaskRuns
import Cppvless.Server.VlessConnection

set_option autoImplicit false

/-! # A connection as tasks

The coroutines of a VLESS connection, each in a frame of its own: `clientTask` awaits the handshake and a
session, and a session awaits its phases. Put together they are the two coroutines of
`VlessConnection.body`, so that what is proved of these holds of the frames. -/

namespace Cppvless

open Coroutine

namespace VlessConnection

open Tasks (Body Machine AtRest frames_at_rest)

/-- `co_await` on a coroutine of the connection. -/
def call {α : Type} (c : Code α) : Body Exn kind.object.sig α := (Body.ofCoro c).await

/-- Code of the coroutine itself. -/
def own {α : Type} (c : Code α) : Body Exn kind.object.sig α := Body.ofCoro c

@[simp] theorem tree_call {α : Type} (c : Code α) : (call c).tree = c := by simp [call]

@[simp] theorem tree_own {α : Type} (c : Code α) : (own c).tree = c := Body.tree_ofCoro c

section Frames

variable (cfg : Config)

def runTcpSessionFrame (req : Request) : Body Exn kind.object.sig Bool := do
  if !(← call (setupVision req)) then
    return false
  else if !(← call (setupEncryption cfg req)) then
    return false
  else if !(← call (sendResponseAndKey cfg req.version)) then
    return false
  else if !(← call (connectTarget req)) then
    return false
  else
    own startTargetTask
    if !(← call forwardHandshakeRemaining) then
      return false
    else
      call (relayClientToTarget cfg)

def runUdpSessionFrame (req : Request) : Body Exn kind.object.sig Bool := do
  if req.flow ≠ [] ∨ req.encryption ≠ [] then
    return false
  else if !(← call (sendResponseAndKey cfg req.version)) then
    return false
  else if !(← call (connectTarget req)) then
    return false
  else
    own startTargetTask
    call (relayUdpClientToTarget cfg)

def dispatchFrame (req : Request) : Body Exn kind.object.sig Bool :=
  match req.command with
  | .tcp => (runTcpSessionFrame cfg req).await
  | .udp => (runUdpSessionFrame cfg req).await
  | .mux => pure false
  | .rvs => pure false

def runSessionFrame : Body Exn kind.object.sig Bool := do
  if !(← call (acceptTls cfg)) then
    own (member finishClientTask)
    return true
  else
    let req ← call (processHandshake cfg)
    own (modify fun s => { s with command := req.command })
    let _normalEnd ← dispatchFrame cfg req
    return false

/-- The frame of `clientTask_`, with the `try` block in it. -/
def clientTaskFrame : Body Exn kind.object.sig Unit := do
  let returned ← Body.tryCatch (runSessionFrame cfg) fun _ => pure false
  if returned then
    return ()
  else
    own (member finishClientTask)

/-- The frame of `targetTask_`. -/
def targetTaskFrame : Body Exn kind.object.sig Unit := do
  Body.tryCatch
    (do
      call (relayTargetToClient cfg)
      own (modify fun s => { s with targetReadDone := true }))
    fun _ => pure ()
  own (member finishTargetTask)

/-- The code of each member coroutine. -/
def frameBody : Task → Body Exn kind.object.sig Unit
  | .clientTask => clientTaskFrame cfg
  | .targetTask => targetTaskFrame cfg

theorem tree_runTcpSession (req : Request) :
    (runTcpSessionFrame cfg req).tree = runTcpSession cfg req := by
  simp [runTcpSessionFrame, runTcpSession]

theorem tree_runUdpSession (req : Request) :
    (runUdpSessionFrame cfg req).tree = runUdpSession cfg req := by
  simp [runUdpSessionFrame, runUdpSession]

theorem tree_dispatch (req : Request) : (dispatchFrame cfg req).tree = dispatch cfg req := by
  unfold dispatchFrame dispatch
  cases req.command with
  | tcp => exact (Body.tree_await _).trans (tree_runTcpSession cfg req)
  | udp => exact (Body.tree_await _).trans (tree_runUdpSession cfg req)
  | mux => rfl
  | rvs => rfl

theorem tree_runSession : (runSessionFrame cfg).tree = runSession cfg := by
  simp [runSessionFrame, runSession, tree_dispatch]

theorem tree_clientTask : (clientTaskFrame cfg).tree = clientTask cfg := by
  simp [clientTaskFrame, clientTask, tree_runSession]

theorem tree_targetTask : (targetTaskFrame cfg).tree = targetTask cfg := by
  simp [targetTaskFrame, targetTask]

/-- The frames are those of the coroutines of the connection. -/
theorem tree_frameBody : (fun t => (frameBody cfg t).tree) = body cfg := by
  funext t
  cases t with
  | clientTask => exact tree_clientTask cfg
  | targetTask => exact tree_targetTask cfg

/-- A connection in its frames is in a state that `Reachable` knows. -/
theorem reachable_of_frames {m : Machine kind.object}
    (hm : Machine.Reachable (O := kind.object) (frameBody cfg) Task.clientTask {} m) :
    ∃ p chain, Reachable cfg p ∧ Tasks.Represents m p chain := by
  obtain ⟨p, chain, hp, hR⟩ := hm.represents
  rw [tree_frameBody] at hp
  exact ⟨p, chain, hp, hR⟩

end Frames

/-! ## A coroutine that reads -/

/-- Reads from the client. -/
def readBody : Body Exn kind.object.sig RecvResult :=
  .op (S := kind.object.sig) (.io (.inl (.recv .client 1024))) fun rr => .done (.ok rr.1)

/-- What its caller does then. -/
def afterRead (r : Except Exn RecvResult) : Body Exn kind.object.sig Unit := .done (r.map fun _ => ())

/-- Both coroutines do nothing but await it. -/
def readTask (_ : Task) : Body Exn kind.object.sig Unit := .call readBody afterRead

/-- Both have just been started. -/
def startMachine : Machine kind.object :=
  Machine.start (O := kind.object) readTask Task.clientTask {}

/-- The caller is in frame 0 and the callee, which waits for the client, in frame 1. -/
def readMachine : Machine kind.object :=
  { (startMachine.setFrame 0 ⟨Unit, .awaiting 1 afterRead, none⟩).setFrame 1
      ⟨RecvResult, .running readBody, some 0⟩ with stack := [] }

theorem readMachine_reachable :
    Machine.Reachable (O := kind.object) readTask Task.clientTask {} readMachine := by
  have hawait : Tasks.Step (O := kind.object) readTask startMachine
      { readMachine with stack := [.body 1, .awaitSuspend 0] } :=
    .await startMachine 0 1 [] readBody afterRead none rfl rfl rfl
  have hpark : Tasks.Step (O := kind.object) readTask
      { readMachine with stack := [.body 1, .awaitSuspend 0] }
      { readMachine with stack := [.awaitSuspend 0] } :=
    .park { readMachine with stack := [.body 1, .awaitSuspend 0] } 1 [.awaitSuspend 0] _ _ (some 0)
      rfl rfl rfl
  have hreturn : Tasks.Step (O := kind.object) readTask
      { readMachine with stack := [.awaitSuspend 0] } readMachine :=
    .awaitSuspend { readMachine with stack := [.awaitSuspend 0] } 0 [] rfl
  exact ((Relation.ReflTransGen.single hawait).tail hpark).tail hreturn

/-- The caller awaits a frame that will resume it. -/
theorem frames_at_rest_read : AtRest readMachine 0 (.awaiting 1 afterRead) none := by
  have hframe : readMachine.heap 0 = some ⟨Unit, .awaiting 1 afterRead, none⟩ := rfl
  exact frames_at_rest readMachine_reachable rfl hframe

end VlessConnection

end Cppvless
