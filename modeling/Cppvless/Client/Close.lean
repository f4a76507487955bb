import Cppvless.Client.Socks5Connection
import Cppvless.Coroutine.Closing
import Cppvless.Net.Relay
import Cppvless.Server.Close

set_option autoImplicit false

/-! # Closing a SOCKS5 session

`Socks5Connection` follows the pattern of `Coroutine.Closing` like the server side: `clientTask` is
the main coroutine, `remoteTask` the peer. -/

namespace Cppvless

open Coroutine

namespace Socks5Connection

def closing : Closing kind.object where
  flags s := ⟨s.closed, s.appReadDone, s.remoteReadDone, s.remoteTaskStarted⟩
  main := Task.clientTask
  peer := Task.remoteTask
  armed s := s.remoteFd ≠ none
  main_ne_peer := nofun
  eq_peer t ht := by
    cases t with
    | clientTask => exact absurd rfl ht
    | remoteTask => rfl

namespace Close

/-! ## What leaves the flags alone -/

abbrev Inert : ObjOp kind.object → Prop := closing.Inert

theorem inert_member {f : Mem → Mem × List (Syscall Fd)} (h : ∀ s, (f s).1 = s) :
    Inert (.member f) := by
  intro s
  rw [h s]
  exact ⟨rfl, id⟩

theorem only_vlessConnectAndHandshake (cfg : VlessClientConfig) (req : Request) :
    Only Inert (VlessClient.vlessConnectAndHandshake (K := kind) .remote cfg req) :=
  VlessClient.only_vlessConnectAndHandshake _ cfg (fun _ _ => trivial) (inert_member fun _ => rfl) req

/-! ## The coroutines -/

section Wp

variable (cfg : VlessClientConfig) {α : Type} {w : World kind.object}

theorem wp_fresh {c : Code α} (h : Only Inert c) (hw : closing.Fresh w) :
    wp closing.contract Task.clientTask c (fun _ => closing.Fresh) w :=
  wp_of_uses Closing.frame_fresh h hw

theorem wp_armed {c : Code α} (h : Only Inert c) (hw : closing.Armed w) :
    wp closing.contract Task.clientTask c (fun _ => closing.Armed) w :=
  wp_of_uses Closing.frame_armed h hw

theorem wp_relayTcp (stream : NetStream Fd) (hw : closing.Fresh w)
    (hfd : w.mem.remoteFd ≠ none) :
    wp closing.contract Task.clientTask (relayTcp stream) (fun _ => closing.Armed) w := by
  have hstart : wp closing.contract Task.clientTask (startRemoteTask stream)
      (Returns fun _ => closing.Armed) w :=
    Closing.wp_startPeer (P := closing)
      (f := fun s => ({ s with remoteTaskStarted := true, remoteStream := stream }, [])) hw rfl hfd
  refine wp_then hstart ?_
  intro _ w hw
  exact wp_armed (.bind (only_copyStream _ (relays trivial (fun _ => trivial) _ _)) fun _ => trivial) hw

theorem wp_runTcpSession (req : Socks5.Request) (hw : closing.Fresh w) :
    wp closing.contract Task.clientTask (runTcpSession cfg req) (fun _ => closing.Armed) w := by
  refine wp_seq (wp_fresh (only_vlessConnectAndHandshake cfg _) hw) ?_ fun _ _ h => h.armed
  intro handshake w hw
  cases handshake with
  | none => exact wp_armed (.bind (only_sendSocksReply (fun _ _ => trivial) _ _ _) fun _ => trivial) hw.armed
  | some handshake =>
      obtain ⟨stream, remaining⟩ := handshake
      -- from here on there is a socket to shut down
      have hready : ∀ {β : Type} {c : Code β} {w : World kind.object}, Only Inert c →
          closing.Fresh w ∧ w.mem.remoteFd ≠ none →
          wp closing.contract Task.clientTask c
            (fun _ w' => closing.Fresh w' ∧ w'.mem.remoteFd ≠ none) w :=
        fun h hw => wp_of_uses Closing.frame_ready h hw
      obtain ⟨hg, hfresh⟩ := (Closing.frame_fresh (P := closing)).member
        (fun s => ({ s with remoteFd := some .remote }, [])) w (fun _ => ⟨rfl, fun _ => nofun⟩) hw
        trivial
      refine wp_bind (wp_member fun _ => ⟨hg, ?_⟩)
      refine wp_seq (hready (only_sendSocksReply (fun _ _ => trivial) _ _ _) ⟨hfresh, nofun⟩) ?_ fun _ _ h => h.1.armed
      intro sent w hw
      cases sent with
      | false => exact hw.1.armed
      | true =>
          refine wp_seq (hready (NetStream.only_writeNonempty _ _ fun _ _ => trivial) hw) ?_
            fun _ _ h => h.1.armed
          intro forwarded w hw
          cases forwarded with
          | false => exact hw.1.armed
          | true => exact wp_relayTcp stream hw.1 hw.2

/-- `finishClientTask` is the end of a main coroutine. -/
theorem wp_finishClientTask (hw : closing.Armed w) :
    wp closing.contract Task.clientTask (member finishClientTask) (Returns fun _ =>
      closing.contract.post Task.clientTask) w := by
  refine Closing.wp_finishMain (P := closing) (f := finishClientTask) hw.runs ?_
  have harmed := hw.armed
  revert harmed
  cases hs : w.mem.remoteTaskStarted <;> cases hd : w.mem.remoteReadDone <;>
    cases hf : w.mem.remoteFd <;>
    simp [closing, finishClientTask, CloseFlags.finishMain, hs, hd, hf]

theorem wp_dispatch (req : Socks5.Request) (hw : closing.Fresh w) :
    wp closing.contract Task.clientTask (dispatch cfg req) (fun _ => closing.Armed) w := by
  rw [dispatch]
  split
  · exact wp_runTcpSession cfg req hw
  · exact wp_armed (only_runUdpAssociate trivial (fun _ _ => trivial) (fun _ => trivial) (inert_member fun _ => rfl)) hw.armed
  · exact wp_armed (.bind (only_sendSocksReply (fun _ _ => trivial) _ _ _) fun _ => trivial) hw.armed

theorem wp_runSession (hw : closing.Fresh w) :
    wp closing.contract Task.clientTask (runSession cfg) (fun
      | .ok true, w' => closing.contract.post Task.clientTask w'
      | .ok false, w' => closing.Armed w'
      | .error _, w' => closing.Armed w') w := by
  have hfinish : ∀ {w}, closing.Fresh w → wp closing.contract Task.clientTask (do
      member finishClientTask; return true) (fun
      | .ok true, w' => closing.contract.post Task.clientTask w'
      | .ok false, w' => closing.Armed w'
      | .error _, w' => closing.Armed w') w :=
    fun hw => wp_then (wp_finishClientTask hw.armed) fun _ _ h => h
  refine wp_seq (wp_fresh (only_onStream trivial (fun _ _ => trivial) (fun _ _ => ⟨rfl, id⟩) _) hw) ?_ fun _ _ h => h.armed
  intro noAuth w hw
  cases noAuth with
  | false => exact wp_seq (wp_fresh (only_writeApp (fun _ _ => trivial) _) hw) (fun _ _ hw => hfinish hw) fun _ _ h => h.armed
  | true =>
      refine wp_seq (wp_fresh (only_writeApp (fun _ _ => trivial) _) hw) ?_ fun _ _ h => h.armed
      intro g w hw
      by_cases hg : g ≤ 0
      · simp only [hg, if_true]
        exact hfinish hw
      · simp only [hg, if_false]
        refine wp_seq (wp_fresh (only_onStream trivial (fun _ _ => trivial) (fun _ _ => ⟨rfl, id⟩) _) hw) ?_ fun _ _ h => h.armed
        intro req w hw
        exact wp_seq (wp_dispatch cfg req hw) (fun _ _ h => h) fun _ _ h => h

theorem wp_clientTask (hw : closing.Fresh w) :
    wp closing.contract Task.clientTask (clientTask cfg)
      (fun _ => closing.contract.post Task.clientTask) w := by
  refine wp_then (R := fun returned w' =>
    if returned then closing.contract.post Task.clientTask w' else closing.Armed w')
    (wp_tryCatch (wp_mono (wp_runSession cfg hw) fun r w' h => ?_)) ?_
  · match r, h with
    | .ok true, h => exact h
    | .ok false, h => exact h
    | .error _, h => exact h
  · intro returned w hw
    cases returned with
    | true => exact hw
    | false => exact wp_returns (wp_finishClientTask hw) fun _ _ h => h

theorem wp_remoteTask (hw : closing.PeerRuns w) :
    wp closing.contract Task.remoteTask remoteTask
      (fun _ => closing.contract.post Task.remoteTask) w := by
  have honly : Only Inert relayRemoteToApp :=
    .bind (.await trivial) fun s => .bind (only_copyStream _ (relays trivial (fun _ => trivial) _ _)) fun _ => trivial
  have hrelay : wp closing.contract Task.remoteTask relayRemoteToApp (fun _ => closing.PeerRuns) w :=
    wp_of_uses Closing.frame_peer honly hw
  refine wp_bind (wp_tryCatch (wp_mono hrelay fun r w hw => ?_))
  have hend : wp closing.contract Task.remoteTask (member finishRemoteTask)
      (fun _ => closing.contract.post Task.remoteTask) w := by
    refine Closing.wp_finishPeer (P := closing) hw.started ?_ ?_
    · cases hm : w.mem.appReadDone <;> cases hc : w.mem.closed <;>
        simp [closing, finishRemoteTask, CloseFlags.finishPeer, hm, hc]
    · cases hm : w.mem.appReadDone <;> simp [closing, finishRemoteTask, hm]
  cases r with
  | ok _ => exact hend
  | error _ => exact hend

theorem fresh_start : closing.Fresh ⟨{}, []⟩ :=
  ⟨⟨rfl, rfl, by simp [closing]⟩, rfl, rfl⟩

end Wp

end Close

/-- `closed_` is set exactly if both coroutines have ended, or the remote task never began. -/
theorem closed_iff (cfg : VlessClientConfig) {p : Pool kind.object} (hp : Reachable cfg p)
    (hstack : p.stack = []) :
    p.world.mem.closed = true ↔
      p.Finished Task.clientTask ∧ (p.frames Task.remoteTask = none ∨ p.Finished Task.remoteTask) :=
  Closing.closed_iff (P := closing) (fun _ => Close.wp_clientTask cfg)
    (fun _ => Close.wp_remoteTask) Close.fresh_start hp hstack

end Socks5Connection

/-- **The close protocol of both connections.** Whenever the event loop has control, `closed_` is set
    exactly if `clientTask` has ended and the other coroutine has ended too or was never started. -/
theorem close_protocol :
    (∀ (cfg : VlessConnection.Config) (p : Pool VlessConnection.kind.object),
      VlessConnection.Reachable cfg p → p.stack = [] →
        (p.world.mem.closed = true ↔ p.Finished VlessConnection.Task.clientTask ∧
          (p.frames VlessConnection.Task.targetTask = none ∨
            p.Finished VlessConnection.Task.targetTask))) ∧
    (∀ (cfg : VlessClientConfig) (p : Pool Socks5Connection.kind.object),
      Socks5Connection.Reachable cfg p → p.stack = [] →
        (p.world.mem.closed = true ↔ p.Finished Socks5Connection.Task.clientTask ∧
          (p.frames Socks5Connection.Task.remoteTask = none ∨
            p.Finished Socks5Connection.Task.remoteTask))) :=
  ⟨fun cfg _ => VlessConnection.closed_iff cfg, fun cfg _ => Socks5Connection.closed_iff cfg⟩

/-- A server whose two peers have both ended is closed. -/
theorem plainServer_closed :
    (VlessConnection.sampleRun VlessConnection.plainServer [VlessConnection.plainRequest] []
      [.clientTask, .clientTask, .clientTask, .clientTask, .clientTask, .targetTask,
        .targetTask]).Finished VlessConnection.Task.clientTask :=
  ((close_protocol.1 _ _ (VlessConnection.sampleRun_reachable _ _ _ _) (by decide +kernel)).1
    (by decide +kernel)).1

end Cppvless
