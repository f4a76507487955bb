import Cppvless.Client.Association
import Cppvless.Server.Descriptors

set_option autoImplicit false

/-! # The event loop of the two programs

The server runs event loops with VLESS connections, the client with SOCKS5 connections. -/

namespace Cppvless

open Coroutine EventLoop

inductive Program
  | server (cfg : VlessConnection.Config)
  | client (cfg : VlessClientConfig)

/-- What the connection factory of a program makes. -/
def Program.connectionKind : Program → ConnectionKind
  | .server cfg => VlessConnection.connectionKind cfg
  | .client cfg => Socks5Connection.connectionKind cfg

def Program.careful : (program : Program) → program.connectionKind.Careful
  | .server cfg => VlessConnection.careful cfg
  | .client cfg => Socks5Connection.careful cfg

/-- **The registry.** A connection is stored under a key that is not there; every key is the client
    descriptor of its connection, which is open; a connection is stored or was destroyed, once, and is
    destroyed only in a pass of the cleanup that finds it closed, or at the exit, which leaves none. -/
theorem registry (program : Program) {listenFd : Int} {opens : Int → Bool} {s : Loop program.connectionKind}
    (hs : EventLoop.Reachable listenFd opens s) :
    (∀ s', EventLoop.Step .stores s s' →
      ∃ n c, n ∉ s.connections.map Prod.fst ∧ s'.connections = (n, c) :: s.connections) ∧
    (∀ key c, (key, c) ∈ s.connections →
      c.num program.connectionKind.client = key ∧
        s.table key = some (.connection c.id program.connectionKind.client)) ∧
    (ids s.connections ++ s.destroyed).Perm (List.range s.started) ∧
    (∀ a s', EventLoop.Step a s s' → s'.destroyed = s.destroyed ++ a.destroys s) ∧
    (s.exited = true → s.connections = []) := by
  have hinv : Inv program.careful s := hs.inv
  refine ⟨fun s' hstep => ?_, fun key c hmem => ?_, hinv.once, fun a s' hstep => hstep.destroyed hinv, hinv.exited⟩
  · cases hstep with
    | stores _ n es state table table' num hexited haccepting hstarts hcalls hdestroys =>
        refine ⟨n, ⟨s.started, num, state⟩, hinv.key_absent haccepting, ?_⟩
        exact congrArg (_ :: ·) (hinv.filter_key haccepting).2
  · exact ⟨(hinv.stored key c hmem).key, (hinv.stored key c hmem).client⟩

/-- A connection of the server that nothing has arrived from, and the same once its client has ended. -/
def idleConnection : Pool VlessConnection.kind.object :=
  VlessConnection.sampleRun VlessConnection.plainServer [] [] []

def endedConnection : Pool VlessConnection.kind.object :=
  VlessConnection.sampleRun VlessConnection.plainServer [] [] [.clientTask]

/-- The connection `id`, accepted as number 5. -/
def numbered (id : Nat) (p : Pool VlessConnection.kind.object) :
    Connection (Program.server VlessConnection.plainServer).connectionKind :=
  ⟨id, Function.update (fun _ => -1) VlessConnection.Fd.client 5, p⟩

/-- A server that listens on descriptor 3, with what its descriptor 5 has stood for, the latest first. -/
def serverLoop (holders : List (Option (Holder VlessConnection.Fd)))
    (connections : List (Connection (Program.server VlessConnection.plainServer).connectionKind))
    (started : Nat) (destroyed : List Nat) :
    Loop (Program.server VlessConnection.plainServer).connectionKind where
  listenFd := some 3
  connections := connections.map fun c => (5, c)
  table := holders.foldr (fun holder table => Function.update table 5 holder) fun n =>
    if n = 3 then some .listener else none
  started
  destroyed

/-- Its first connection has ended and was cleaned up, and a second one was accepted under the same
    number. -/
def reused : Loop (Program.server VlessConnection.plainServer).connectionKind :=
  serverLoop [some (.connection 1 .client), some .accepted, none, some (.connection 0 .client), some .accepted]
    [numbered 1 idleConnection] 2 [0]

theorem idleConnection_starts : (Program.server VlessConnection.plainServer).connectionKind.starts []
    idleConnection := by
  have hrun : idleConnection.stack = [] ∧ VlessConnection.fdEvents idleConnection = [] := by
    decide +kernel
  exact ⟨⟨settle_busy (O := VlessConnection.kind.object) _ _ _ _, hrun.1⟩, hrun.2⟩

/-- It has read the end of the stream. -/
theorem endedConnection_completes :
    (Program.server VlessConnection.plainServer).connectionKind.completes idleConnection []
      endedConnection := by
  have hidle : idleConnection.stack = [] ∧
      idleConnection.awaits VlessConnection.Task.clientTask = some (.inl (.recv .client 8192)) := by
    decide +kernel
  have hended : endedConnection.stack = [] ∧
      VlessConnection.fdEvents endedConnection = VlessConnection.fdEvents idleConnection := by
    decide +kernel
  exact ⟨replay_completes (O := VlessConnection.kind.object) hidle.1 hidle.2 rfl hended.1,
    hended.2.trans (List.append_nil _).symm⟩

/-- The cleanup finds it closed. -/
theorem endedConnection_cleansUp (holders : List (Option (Holder VlessConnection.Fd))) :
    EventLoop.Step .cleansUp (serverLoop holders [numbered 0 endedConnection] 1 [])
      (serverLoop (none :: holders) [] 1 [0]) := by
  have hclosed : endedConnection.world.mem.closed = true ∧ endedConnection.world.mem.targetFd = none := by
    decide +kernel
  have hisClosed : isClosed (5, numbered 0 endedConnection) = true := hclosed.1
  have hfilter : (serverLoop holders [numbered 0 endedConnection] 1 []).connections.filter isClosed =
      [(5, numbered 0 endedConnection)] := List.filter_cons_of_pos hisClosed
  have hcloses : (Program.server VlessConnection.plainServer).connectionKind.doClose endedConnection =
      [.client] := by
    show endedConnection.world.mem.targetFd.toList ++ [.client] = _
    rw [hclosed.2]
    rfl
  have hcalls : Calls 0 (((Program.server VlessConnection.plainServer).connectionKind.doClose
        endedConnection).map .closed) (serverLoop holders [numbered 0 endedConnection] 1 []).table
      (numbered 0 endedConnection).num (serverLoop (none :: holders) [] 1 [0]).table
      (numbered 0 endedConnection).num := by
    rw [hcloses]
    exact .closed _ [] _ _ _ _ (.nil _ _)
  have hdestroys : Destroys
      ((serverLoop holders [numbered 0 endedConnection] 1 []).connections.filter isClosed)
      (serverLoop holders [numbered 0 endedConnection] 1 []).table
      (serverLoop (none :: holders) [] 1 [0]).table := by
    rw [hfilter]
    exact .cons 5 (numbered 0 endedConnection) [] _ _ _ _ hcalls (.nil _)
  have hstep := EventLoop.Step.cleansUp _ _ hdestroys
  rw [hfilter] at hstep
  have hleft : (serverLoop holders [numbered 0 endedConnection] 1 []).connections.filter
      (fun x => !isClosed x) = [] := List.filter_cons_of_neg (by simp [hisClosed])
  rw [hleft] at hstep
  exact hstep

theorem reused_reachable : EventLoop.Reachable 3 (fun _ => false) reused := by
  have hregistered : EventLoop.Reachable 3 (fun _ => false)
      (serverLoop [some (.connection 0 .client), some .accepted] [numbered 0 idleConnection] 1 []) :=
    .tail (.tail .refl ⟨.accepts, .accepts _ 5 rfl rfl (by decide) rfl⟩)
      ⟨.stores, .stores _ 5 [] _ _ _ _ rfl rfl idleConnection_starts (.nil _ _) (.nil _)⟩
  have hended : EventLoop.Reachable 3 (fun _ => false)
      (serverLoop [some (.connection 0 .client), some .accepted] [numbered 0 endedConnection] 1 []) :=
    .tail hregistered ⟨.completes, .completes (serverLoop _ [numbered 0 idleConnection] 1 []) [] [] 5
      (numbered 0 idleConnection) [] endedConnection _ _ rfl endedConnection_completes (.nil _ _)⟩
  refine .tail (.tail (.tail hended ⟨.cleansUp, endedConnection_cleansUp _⟩)
    ⟨.accepts, .accepts _ 5 rfl rfl (by decide) rfl⟩) ⟨.stores, ?_⟩
  exact .stores _ 5 [] _ _ _ _ rfl rfl idleConnection_starts (.nil _ _) (.nil _)

/-- The second connection is registered under the number 5, and the first one was destroyed once. -/
theorem registry_reused :
    reused.table 5 = some (.connection 1 (Program.server VlessConnection.plainServer).connectionKind.client) ∧
      (ids reused.connections ++ reused.destroyed).Perm (List.range 2) := by
  have hregistry := registry (.server VlessConnection.plainServer) reused_reachable
  exact ⟨(hregistry.2.1 _ _ List.mem_cons_self).2, hregistry.2.2.1⟩

end Cppvless
