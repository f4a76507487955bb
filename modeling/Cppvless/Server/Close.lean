import Cppvless.Coroutine.Closing
import Cppvless.Server.Sides

set_option autoImplicit false

/-! # Closing a VLESS connection

`VlessConnection` follows the pattern of `Coroutine.Closing`: `clientTask` is the main coroutine,
`targetTask` the peer. -/

namespace Cppvless

open Coroutine

namespace VlessConnection

def closing : Closing kind.object where
  flags s := ⟨s.closed, s.clientReadDone, s.targetReadDone, s.targetTaskStarted⟩
  main := Task.clientTask
  peer := Task.targetTask
  armed s := s.targetFd ≠ none
  main_ne_peer := nofun
  eq_peer t ht := by
    cases t with
    | clientTask => exact absurd rfl ht
    | targetTask => rfl

namespace Close

/-! ## The parts of a session leave the flags alone -/

theorem inert_setup (o : ObjOp kind.object) (h : Setup o) : closing.Inert o := by
  match o, h with
  | .get, _ => trivial
  | .member f, h =>
      intro s
      obtain ⟨⟨h₁, h₂, h₃, h₄⟩, hfd⟩ := h s
      exact ⟨by simp only [closing, h₁, h₂, h₃, h₄], fun ha => by simpa only [closing, hfd] using ha⟩
  | .io _, _ => trivial

theorem inert_connects (o : ObjOp kind.object) (h : Connects o) : closing.Inert o := by
  match o, h with
  | .get, _ => trivial
  | .member f, h =>
      intro s
      rcases (h s).1 with hs | hs
      · exact ⟨by rw [hs], by rw [hs]; exact id⟩
      · exact ⟨by rw [hs]; rfl, by rw [hs]; simp [closing]⟩
  | .io _, _ => trivial

theorem inert_clientSide (o : ObjOp kind.object) (h : ClientSide o) : closing.Inert o := by
  match o, h with
  | .get, _ => trivial
  | .member f, h =>
      intro s
      obtain ⟨_, _, _, hs⟩ := h s
      exact ⟨by rw [hs]; rfl, by rw [hs]; exact id⟩
  | .io _, _ => trivial

theorem inert_targetSide (o : ObjOp kind.object) (h : TargetSide o) : closing.Inert o := by
  match o, h with
  | .get, _ => trivial
  | .member f, h =>
      intro s
      obtain ⟨_, _, hs⟩ := h s
      exact ⟨by rw [hs]; rfl, by rw [hs]; exact id⟩
  | .io _, _ => trivial

section Wp

variable (cfg : Config) {α : Type} {w : World kind.object}

/-- Nothing but the flag-preserving parts of a session, before the target task. -/
theorem wp_setup {c : Code α} (h : Only Setup c) (hw : closing.Fresh w) :
    wp closing.contract Task.clientTask c (fun _ => closing.Fresh) w :=
  wp_of_uses Closing.frame_fresh (h.mono inert_setup) hw

theorem wp_relaying {c : Code α} (h : Only ClientSide c) (hw : closing.Armed w) :
    wp closing.contract Task.clientTask c (fun _ => closing.Armed) w :=
  wp_of_uses Closing.frame_armed (h.mono inert_clientSide) hw

theorem frame_connects : Frame closing.contract Task.clientTask Connects closing.Fresh :=
  (Closing.frame_fresh (P := closing)).restrict inert_connects

/-- A connection that succeeds leaves a socket that can be shut down. -/
theorem wp_connectTarget (req : Request) (hw : closing.Fresh w) :
    wp closing.contract Task.clientTask (connectTarget req) (fun r w' =>
      closing.Fresh w' ∧ (r = .ok true → w'.mem.targetFd ≠ none)) w := by
  refine wp_mono (wp_connectTarget_of frame_connects req hw) ?_
  intro r w' ⟨hw', hfd⟩
  refine ⟨hw', fun hr => ?_⟩
  rw [hfd hr]
  exact nofun

/-- `startTargetTask`, once there is a socket. -/
theorem wp_startTargetTask (hw : closing.Fresh w) (hfd : w.mem.targetFd ≠ none) :
    wp closing.contract Task.clientTask startTargetTask (Returns fun _ => closing.Armed) w :=
  Closing.wp_startPeer (P := closing) (f := fun s => ({ s with targetTaskStarted := true }, [])) hw
    rfl hfd

theorem wp_runTcpSession (req : Request) (hw : closing.Fresh w) :
    wp closing.contract Task.clientTask (runTcpSession cfg req) (fun _ => closing.Armed) w := by
  refine wp_seq (wp_setup (only_setupVision req) hw) ?_ fun _ _ h => h.armed
  intro vision w hw
  cases vision with
  | false => exact hw.armed
  | true =>
      refine wp_seq (wp_setup (only_setupEncryption cfg req) hw) ?_ fun _ _ h => h.armed
      intro encryption w hw
      cases encryption with
      | false => exact hw.armed
      | true =>
          refine wp_seq (wp_setup (only_sendResponseAndKey cfg _) hw) ?_ fun _ _ h => h.armed
          intro sent w hw
          cases sent with
          | false => exact hw.armed
          | true =>
              refine wp_seq (wp_connectTarget req hw) ?_ fun _ _ h => h.1.armed
              intro connected w hw
              cases connected with
              | false => exact hw.1.armed
              | true =>
                  refine wp_then (wp_startTargetTask hw.1 (hw.2 rfl)) ?_
                  intro _ w hw
                  refine wp_relaying ?_ hw
                  exact .bind only_forwardHandshakeRemaining fun _ =>
                    .ite (fun _ => trivial) fun _ => only_relayClientToTarget cfg

theorem wp_runUdpSession (req : Request) (hw : closing.Fresh w) :
    wp closing.contract Task.clientTask (runUdpSession cfg req) (fun _ => closing.Armed) w := by
  rw [runUdpSession]
  split
  · exact hw.armed
  · refine wp_seq (wp_setup (only_sendResponseAndKey cfg _) hw) ?_ fun _ _ h => h.armed
    intro sent w hw
    cases sent with
    | false => exact hw.armed
    | true =>
        refine wp_seq (wp_connectTarget req hw) ?_ fun _ _ h => h.1.armed
        intro connected w hw
        cases connected with
        | false => exact hw.1.armed
        | true =>
            refine wp_then (wp_startTargetTask hw.1 (hw.2 rfl)) ?_
            intro _ w hw
            exact wp_relaying (only_relayUdpClientToTarget cfg) hw

theorem wp_dispatch (req : Request) (hw : closing.Fresh w) :
    wp closing.contract Task.clientTask (dispatch cfg req) (fun _ => closing.Armed) w := by
  rw [dispatch]
  split
  · exact wp_runTcpSession cfg req hw
  · exact wp_runUdpSession cfg req hw
  · exact hw.armed
  · exact hw.armed

/-- `finishClientTask` is the end of a main coroutine. -/
theorem wp_finishClientTask (hw : closing.Armed w) :
    wp closing.contract Task.clientTask (member finishClientTask) (Returns fun _ =>
      closing.contract.post Task.clientTask) w := by
  refine Closing.wp_finishMain (P := closing) (f := finishClientTask) hw.runs ?_
  have harmed := hw.armed
  revert harmed
  cases hs : w.mem.targetTaskStarted <;> cases hd : w.mem.targetReadDone <;>
    cases hf : w.mem.targetFd <;>
    simp [closing, finishClientTask, CloseFlags.finishMain, hs, hd, hf]

theorem wp_runSession (hw : closing.Fresh w) :
    wp closing.contract Task.clientTask (runSession cfg) (fun
      | .ok true, w' => closing.contract.post Task.clientTask w'
      | .ok false, w' => closing.Armed w'
      | .error _, w' => closing.Armed w') w := by
  refine wp_seq (wp_setup (only_acceptTls cfg) hw) ?_ fun _ _ h => h.armed
  intro accepted w hw
  cases accepted with
  | false => exact wp_then (wp_finishClientTask hw.armed) fun _ _ h => h
  | true =>
      refine wp_seq (wp_setup (only_processHandshake cfg) hw) ?_ fun _ _ h => h.armed
      intro req w hw
      refine wp_seq (wp_setup (only_modify fun _ => ⟨⟨rfl, rfl, rfl, rfl⟩, rfl⟩) hw) ?_
        fun _ _ h => h.armed
      intro _ w hw
      exact wp_seq (wp_dispatch cfg req hw) (fun _ _ h => h) fun _ _ h => h

theorem wp_clientTask (hw : closing.Fresh w) :
    wp closing.contract Task.clientTask (clientTask cfg)
      (fun _ => closing.contract.post Task.clientTask) w := by
  refine wp_clientTask_of (F := closing.Armed) (wp_mono (wp_runSession cfg hw) ?_) ?_
  · intro r w h
    match r, h with
    | .ok true, h => exact h
    | .ok false, h => exact h
    | .error _, h => exact h
  · exact fun w hw => wp_finishClientTask hw ⟨trivial, trivial⟩

theorem wp_targetTask (hw : closing.PeerRuns w) :
    wp closing.contract Task.targetTask (targetTask cfg)
      (fun _ => closing.contract.post Task.targetTask) w := by
  have hrelay : wp closing.contract Task.targetTask (relayTargetToClient cfg)
      (fun _ => closing.PeerRuns) w :=
    wp_of_uses Closing.frame_peer ((only_relayTargetToClient cfg).mono inert_targetSide) hw
  -- whatever ends the relay, the task still counts as started
  refine wp_targetTask_of (F := closing.PeerRuns)
    (G := fun w => (closing.flags w.mem).peerStarted = true) (wp_mono hrelay ?_) ?_ ?_
  · intro r w hw
    cases r with
    | ok _ => exact hw
    | error _ => exact hw.started
  · exact fun w hw => ⟨Closing.guar_peer (P := closing) hw.started (.inl rfl) id, hw.started⟩
  · intro w hs
    have hend : wp closing.contract Task.targetTask (member finishTargetTask)
        (fun _ => closing.contract.post Task.targetTask) w := by
      refine Closing.wp_finishPeer (P := closing) hs ?_ ?_
      · cases hm : w.mem.clientReadDone <;> cases hc : w.mem.closed <;>
          simp [closing, finishTargetTask, CloseFlags.finishPeer, hm, hc]
      · cases hm : w.mem.clientReadDone <;> simp [closing, finishTargetTask, hm]
    exact hend ⟨trivial, trivial⟩

theorem fresh_start : closing.Fresh ⟨{}, []⟩ :=
  ⟨⟨rfl, rfl, by simp [closing]⟩, rfl, rfl⟩

end Wp

end Close

/-- `closed_` is set exactly if both coroutines have ended, or the target task never began. -/
theorem closed_iff (cfg : Config) {p : Pool kind.object} (hp : Reachable cfg p)
    (hstack : p.stack = []) :
    p.world.mem.closed = true ↔
      p.Finished Task.clientTask ∧ (p.frames Task.targetTask = none ∨ p.Finished Task.targetTask) :=
  Closing.closed_iff (P := closing) (fun _ => Close.wp_clientTask cfg)
    (fun _ => Close.wp_targetTask cfg) Close.fresh_start hp hstack

end VlessConnection

end Cppvless
