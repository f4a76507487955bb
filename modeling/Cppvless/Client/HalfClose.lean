import Cppvless.Client.Close
import Cppvless.Client.Tunnel
import Cppvless.Server.HalfClose

set_option autoImplicit false

/-! # Half-close of a SOCKS5 session

In a CONNECT session `clientTask` relays from the application to the server and `remoteTask` back: the
pattern of `Net.HalfClose`. Both copy, and begin when `remoteTask` is started, behind the exchanges with
the application and the server. The other sessions never start it. -/

namespace Cppvless

open Coroutine

namespace Socks5Connection

/-- A direction in which the data is copied. -/
def copying (src dst : Fd) : Direction kind where
  src := src
  dst := dst
  State := Unit
  state _ := ()
  recodes _ data out _ := out = data
  left _ := []

/-- From the application to the server. -/
def up : Direction kind := copying .app .remote

/-- From the server to the application. -/
def down : Direction kind := copying .remote .app

/-- The two relays. `remoteTask` needs a stream on the socket. -/
def twoWay : TwoWay kind where
  flags := closing.flags
  main := Task.clientTask
  peer := Task.remoteTask
  armed s := s.remoteFd = some .remote ∧ s.remoteStream.fd = .remote
  main_ne_peer := closing.main_ne_peer
  eq_peer := closing.eq_peer
  init := {}
  dir
    | .up => up
    | .down => down
  origin _ og := ∃ tr, og.before = tr ++ [.spawned Task.remoteTask] ∧ og.lead = []
  about _ := True
  src_apart x := by cases x <;> simp [Side.other, up, down, copying]
  dst_apart x := by cases x <;> simp [Side.other, up, down, copying]

namespace HalfClose

abbrev contract : Contract kind.object := twoWay.contract

theorem copies (x : Side) (s : Mem) : (twoWay.dir x).Copies ((twoWay.dir x).state s) := by
  cases x with
  | up => exact fun _ => rfl
  | down => exact fun _ => rfl

/-- Members that the relays do not look at. -/
theorem state_eq (s s' : Mem) (x : Side) : (twoWay.dir x).state s' = (twoWay.dir x).state s ∧
    (twoWay.dir x).left s' = (twoWay.dir x).left s := by
  cases x with
  | up => exact ⟨rfl, rfl⟩
  | down => exact ⟨rfl, rfl⟩

/-! ## Before `remoteTask` is started -/

/-- What the exchanges come to: they end no stream and keep to `stream_`. -/
def Exchanges : ObjOp kind.object → Prop
  | .member f => ∀ s, (∃ stream, (f s).1 = { s with stream }) ∧ ∀ fd, .shutdownRdWr fd ∉ (f s).2
  | .io (.inl o) => ∀ fd, ¬ o.Shuts fd
  | .spawn _ => False
  | _ => True

theorem exchanges_net (o : NetOp Fd) (h : ∀ fd, ¬ o.Shuts fd) : Exchanges (.io (.inl o)) := h

theorem exchanges_writes {fd : Fd} (o : NetOp Fd) (h : o.Writes fd) : Exchanges (.io (.inl o)) :=
  fun _ => h.not_shuts

theorem exchanges_reads {fd : Fd} (o : NetOp Fd) (h : o.Reads fd) : Exchanges (.io (.inl o)) :=
  fun _ => h.not_shuts

theorem exchanges_close (fd : Fd) : Exchanges (.member fun s => (s, [.close fd])) :=
  fun s => ⟨⟨s.stream, rfl⟩, by simp⟩

theorem exchanges_stream (stream : UringBufferedStream) :
    Exchanges (.member fun s => ({ s with stream }, [])) :=
  fun _ => ⟨⟨stream, rfl⟩, by simp⟩

theorem prepares (o : ObjOp kind.object) (h : Exchanges o) : twoWay.Prepares o := by
  match o, h with
  | .get, _ => trivial
  | .member f, h =>
      intro s
      obtain ⟨⟨stream, hs⟩, hcalls⟩ := h s
      exact ⟨by rw [hs]; rfl, hcalls⟩
  | .io (.inl o), h => exact fun r fd => shuts_eq_false (h fd) r
  | .io (.inr _), _ => exact fun _ _ => rfl

/-- They keep the socket as it is. -/
theorem frame_exchanges (B : Option Fd → Prop) :
    Frame contract Task.clientTask Exchanges fun w => twoWay.Fresh w ∧ B w.mem.remoteFd := by
  refine TwoWay.frame_fresh (T := twoWay) prepares ?_ fun _ _ _ _ hw => hw
  intro f w hf hw
  obtain ⟨⟨stream, hs⟩, -⟩ := hf w.mem
  rw [World.call_mem, hs]
  exact hw

section Wp

variable (cfg : VlessClientConfig) {α : Type} {w : World kind.object}

theorem wp_fresh {c : Code α} (h : Only Exchanges c) (hw : twoWay.Fresh w) :
    wp contract Task.clientTask c (fun _ => twoWay.Fresh) w :=
  wp_mono (wp_of_uses (frame_exchanges fun _ => True) h ⟨hw, trivial⟩) fun _ _ h => h.1

theorem wp_connected {c : Code α} (h : Only Exchanges c)
    (hw : twoWay.Fresh w ∧ w.mem.remoteFd = some .remote) :
    wp contract Task.clientTask c
      (fun _ w' => twoWay.Fresh w' ∧ w'.mem.remoteFd = some .remote) w :=
  wp_of_uses (frame_exchanges fun fd => fd = some .remote) h hw

/-! ## The session -/

theorem wp_relayTcp (stream : NetStream Fd) (hstream : stream.fd = .remote)
    (hw : twoWay.Fresh w ∧ w.mem.remoteFd = some .remote) :
    wp contract Task.clientTask (relayTcp stream) (fun _ => twoWay.MainEnds) w := by
  have hstart : wp contract Task.clientTask (startRemoteTask stream) (Returns fun _ w' =>
      twoWay.Relays .up [] [] w') w := by
    refine wp_returns (TwoWay.wp_startPeer (T := twoWay)
      (f := fun s => ({ s with remoteTaskStarted := true, remoteStream := stream }, [])) hw.1 rfl
      ⟨hw.2, hstream⟩ rfl (fun _ x => ?_) rfl) fun _ _ h => h.1
    cases x with
    | up => exact ⟨_, rfl, rfl⟩
    | down => exact ⟨_, rfl, rfl⟩
  refine wp_then hstart fun _ w hw => ?_
  exact wp_then (TwoWay.Relays.wp_copyStream (T := twoWay) (x := .up) (fun _ => rfl) hstream rfl hw
    (copies .up _)) fun _ _ h => .inr h

theorem wp_runTcpSession (req : Socks5.Request) (hw : twoWay.Fresh w) :
    wp contract Task.clientTask (runTcpSession cfg req) (fun _ => twoWay.MainEnds) w := by
  refine wp_seq (VlessClient.wp_vlessConnectAndHandshake_of (K := kind) .remote cfg
    (frame_exchanges fun _ => True) exchanges_net (exchanges_close _) _ ⟨hw, trivial⟩) ?_
    fun _ _ h => .inl h.1.1
  intro handshake w hw
  cases handshake with
  | none =>
      -- `remoteTask` is not started
      refine wp_mono (wp_fresh (.bind (only_sendSocksReply exchanges_writes _ _ _) fun _ => trivial)
        hw.1.1) fun _ _ h => .inl h
  | some handshake =>
      obtain ⟨stream, remaining⟩ := handshake
      have hstream : stream.fd = .remote := hw.2 stream remaining rfl
      -- from here on there is a socket, which the replies leave as it is
      obtain ⟨hg, hnext⟩ := hw.1.1.call (f := fun s : Mem => ({ s with remoteFd := some .remote }, []))
        fun _ => ⟨rfl, by simp⟩
      refine wp_bind (wp_member fun _ => ⟨hg, ?_⟩)
      refine wp_seq (wp_connected (only_sendSocksReply exchanges_writes _ _ _) ⟨hnext, rfl⟩) ?_
        fun _ _ h => .inl h.1
      intro sent w hw
      cases sent with
      | false => exact .inl hw.1
      | true =>
          refine wp_seq (wp_connected (NetStream.only_writeNonempty _ _ exchanges_writes) hw) ?_
            fun _ _ h => .inl h.1
          intro forwarded w hw
          cases forwarded with
          | false => exact .inl hw.1
          | true => exact wp_relayTcp stream hstream hw

theorem wp_dispatch (req : Socks5.Request) (hw : twoWay.Fresh w) :
    wp contract Task.clientTask (dispatch cfg req) (fun _ => twoWay.MainEnds) w := by
  rw [dispatch]
  split
  · exact wp_runTcpSession cfg req hw
  · refine wp_mono (wp_fresh (only_runUdpAssociate trivial exchanges_net (fun _ => trivial)
      (exchanges_close _)) hw) fun _ _ h => .inl h
  · refine wp_mono (wp_fresh (.bind (only_sendSocksReply exchanges_writes _ _ _) fun _ => trivial)
      hw) fun _ _ h => .inl h

/-- `finishClientTask` is the end of a main coroutine. -/
theorem wp_finishClientTask (hw : twoWay.MainEnds w) :
    wp contract Task.clientTask (member finishClientTask)
      (Returns fun _ => contract.post Task.clientTask) w := by
  have harmed : w.mem.remoteTaskStarted = true → w.mem.remoteFd = some .remote := by
    intro hs
    rcases hw with hw | hw
    · exact absurd (hw.flag.symm.trans hs) (by simp)
    · exact hw.armed.1
  refine wp_member fun _ => ?_
  refine hw.finish (f := finishClientTask) ?_ ?_ .rfl (fun y => state_eq _ _ y) ?_
  · cases hs : w.mem.remoteTaskStarted <;> cases hd : w.mem.remoteReadDone <;>
      simp [twoWay, closing, finishClientTask, CloseFlags.finishMain, hs, hd, harmed]
  · cases hs : w.mem.remoteTaskStarted <;> cases hd : w.mem.remoteReadDone <;>
      simp [twoWay, finishClientTask, hs, hd, harmed]
  · cases hs : w.mem.remoteTaskStarted <;> cases hd : w.mem.remoteReadDone <;>
      simp [twoWay, closing, down, copying, finishClientTask, hs, hd, harmed]

theorem wp_runSession (hw : twoWay.Fresh w) :
    wp contract Task.clientTask (runSession cfg)
      (Ends (fun returned w' => if returned then contract.post Task.clientTask w'
        else twoWay.MainEnds w') twoWay.MainEnds) w := by
  have hparse : ∀ {β : Type} (p : Parser β), Only Exchanges (onStream p) :=
    fun p => only_onStream trivial exchanges_reads exchanges_stream p
  refine wp_seq (wp_fresh (hparse _) hw) ?_ fun _ _ h => .inl h
  intro noAuth w hw
  cases noAuth with
  | false =>
      refine wp_seq (wp_fresh (only_writeApp exchanges_writes _) hw) ?_ fun _ _ h => .inl h
      exact fun _ w hw => wp_then (wp_finishClientTask (.inl hw)) fun _ _ h => h
  | true =>
      refine wp_seq (wp_fresh (only_writeApp exchanges_writes _) hw) ?_ fun _ _ h => .inl h
      intro g w hw
      split
      · exact wp_then (wp_finishClientTask (.inl hw)) fun _ _ h => h
      · refine wp_seq (wp_fresh (hparse _) hw) ?_ fun _ _ h => .inl h
        intro req w hw
        exact wp_seq (wp_dispatch cfg req hw) (fun _ _ h => h) fun _ _ h => h

theorem fresh_start : twoWay.Fresh ⟨{}, []⟩ :=
  ⟨⟨by simp [TwoWay.Started], by simp⟩, rfl, rfl, rfl, rfl⟩

theorem wp_clientTask :
    wp contract Task.clientTask (clientTask cfg) (fun _ => contract.post Task.clientTask)
      ⟨{}, []⟩ := by
  refine wp_then (R := fun returned w' => if returned then contract.post Task.clientTask w'
    else twoWay.MainEnds w') (wp_tryCatch (wp_mono (wp_runSession cfg fresh_start) fun r w' h => ?_))
    ?_
  · cases r with
    | ok _ => exact h
    | error _ => exact h
  · intro returned w hw
    cases returned with
    | true => exact hw
    | false => exact wp_returns (wp_finishClientTask hw) fun _ _ h => h

theorem wp_remoteTask (hw : twoWay.Relays .down [] [] w) :
    wp contract Task.remoteTask remoteTask (fun _ => contract.post Task.remoteTask) w := by
  have hrelay : wp contract Task.remoteTask relayRemoteToApp
      (Returns fun _ => twoWay.Ending .down) w := by
    refine wp_get_seq (O := kind.object) ?_
    exact wp_then (TwoWay.Relays.wp_copyStream (T := twoWay) (x := .down) (fun _ => rfl) rfl
      hw.armed.2 hw (copies .down _)) fun _ _ h => h
  refine wp_bind (wp_tryCatch (wp_returns hrelay fun _ w hw => ?_))
  refine wp_member fun _ => TwoWay.Ending.finish (T := twoWay) (x := .down) (f := finishRemoteTask) hw
    ?_ ?_ .rfl (fun y => state_eq _ _ y) ?_
  · cases hm : w.mem.appReadDone <;> cases hc : w.mem.closed <;>
      simp [twoWay, closing, finishRemoteTask, Side.finish, CloseFlags.finishPeer, hm, hc]
  · cases hm : w.mem.appReadDone <;> simp [twoWay, finishRemoteTask, hm]
  · cases hm : w.mem.appReadDone <;>
      simp [twoWay, closing, up, copying, finishRemoteTask, Side.other, Side.done, hm]

end Wp

end HalfClose

/-- **A SOCKS5 session keeps half-close under the same condition.** -/
theorem halfCloses_iff (cfg : VlessClientConfig) {p : Pool kind.object} (hp : Reachable cfg p) :
    ((∀ x, twoWay.Overlaps x p.world.trace) → twoWay.HalfCloses p) ∧
      (p.stack = [] → twoWay.HalfCloses p → ∀ x, twoWay.Overlaps x p.world.trace) := by
  have hmain : wp twoWay.contract twoWay.main (body cfg twoWay.main)
      (fun _ => twoWay.contract.post twoWay.main) ⟨twoWay.init, []⟩ := HalfClose.wp_clientTask cfg
  exact TwoWay.halfCloses_iff hmain (fun _ => HalfClose.wp_remoteTask) hp trivial

end Socks5Connection

/-- **Both connections keep half-close exactly in the runs whose directions overlap at their ends.** If
    whenever the clean end of one direction is passed on, the other has read its own end or met an error,
    then neither source is cut off, each relay goes on until its direction is over, and everything read
    until then is delivered. In a run in which this fails once, a source has been cut off when the event
    loop has control. -/
theorem half_close_iff (server : VlessConnection.Config) (client : VlessClientConfig) :
    (∀ p : Pool VlessConnection.kind.object, VlessConnection.Reachable server p →
      p.world.mem.command = .tcp →
      ((∀ x, (VlessConnection.twoWay server).Overlaps x p.world.trace) →
        (VlessConnection.twoWay server).HalfCloses p) ∧
      (p.stack = [] → (VlessConnection.twoWay server).HalfCloses p →
        ∀ x, (VlessConnection.twoWay server).Overlaps x p.world.trace)) ∧
    (∀ p : Pool Socks5Connection.kind.object, Socks5Connection.Reachable client p →
      ((∀ x, Socks5Connection.twoWay.Overlaps x p.world.trace) →
        Socks5Connection.twoWay.HalfCloses p) ∧
      (p.stack = [] → Socks5Connection.twoWay.HalfCloses p →
        ∀ x, Socks5Connection.twoWay.Overlaps x p.world.trace)) :=
  ⟨fun _ => VlessConnection.halfCloses_iff server, fun _ => Socks5Connection.halfCloses_iff client⟩

/-- A piece goes each way, then both peers end, and both ends are read before one is passed on. -/
def VlessConnection.overlappingRun : Pool VlessConnection.kind.object :=
  VlessConnection.sampleRun VlessConnection.plainServer [VlessConnection.plainRequest, [5]] [[7]]
    [.clientTask, .clientTask, .clientTask, .clientTask, .clientTask, .clientTask, .targetTask,
      .targetTask, .targetTask, .clientTask, .targetTask]

def Socks5Connection.overlappingRun : Pool Socks5Connection.kind.object :=
  Socks5Connection.sampleRun [[5, 1, 0], Socks5Connection.plainConnect, [5]] [[0, 0], [7]]
    [.clientTask, .clientTask, .clientTask, .clientTask, .clientTask, .clientTask, .clientTask,
      .clientTask, .clientTask, .clientTask, .remoteTask, .remoteTask, .remoteTask, .clientTask,
      .remoteTask]

theorem half_close_overlappingRun :
    (VlessConnection.overlappingRun.world.mem.closed = true ∧
      (VlessConnection.twoWay VlessConnection.plainServer).HalfCloses
        VlessConnection.overlappingRun) ∧
    Socks5Connection.overlappingRun.world.mem.closed = true ∧
      Socks5Connection.twoWay.HalfCloses Socks5Connection.overlappingRun := by
  obtain ⟨hserver, hclient⟩ := half_close_iff VlessConnection.plainServer Socks5Connection.plainClient
  refine ⟨⟨by decide +kernel, ?_⟩, by decide +kernel, ?_⟩
  · refine (hserver _ (VlessConnection.sampleRun_reachable _ _ _ _) (by decide +kernel)).1 fun x => ?_
    cases x with
    | up => decide +kernel
    | down => decide +kernel
  · refine (hclient _ (Socks5Connection.sampleRun_reachable _ _ _)).1 fun x => ?_
    cases x with
    | up => decide +kernel
    | down => decide +kernel

/-- In other runs both cut off a healthy direction: of the server when the client has sent its request
    and ends, of the client when the application has. -/
theorem half_close_cut_off :
    (¬ ∀ (cfg : VlessConnection.Config) (p : Pool VlessConnection.kind.object),
      VlessConnection.Reachable cfg p → p.world.mem.command = .tcp →
        (VlessConnection.twoWay cfg).HalfCloses p) ∧
    ¬ ∀ (cfg : VlessClientConfig) (p : Pool Socks5Connection.kind.object),
      Socks5Connection.Reachable cfg p → Socks5Connection.twoWay.HalfCloses p := by
  constructor
  · intro h
    have hserver := h VlessConnection.plainServer (VlessConnection.sampleRun VlessConnection.plainServer
      [VlessConnection.plainRequest] [[7], [8]] (List.replicate 5 .clientTask))
      (VlessConnection.sampleRun_reachable _ _ _ _) (by decide +kernel)
    exact absurd (hserver.spares .up) (by decide +kernel)
  · intro h
    have hclient := h Socks5Connection.plainClient (Socks5Connection.sampleRun
      [[5, 1, 0], Socks5Connection.plainConnect] [[0, 0], [8]] (List.replicate 9 .clientTask))
      (Socks5Connection.sampleRun_reachable _ _ _)
    exact absurd (hclient.spares .up) (by decide +kernel)

end Cppvless
