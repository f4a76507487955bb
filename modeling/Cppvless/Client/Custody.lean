import Cppvless.Client.Socks5Connection
import Cppvless.Net.Ownership

set_option autoImplicit false

/-! # The descriptors of a SOCKS5 session

`clientTask` opens the socket to the server, or the UDP socket that it leaves to the relay. The descriptor
of the application was accepted for the session and is closed by its destructor. -/

namespace Cppvless

open Coroutine

namespace Socks5Connection

/-- What `doClose` closes besides what the relay closes. -/
def doClose (s : Mem) : List Fd := s.remoteFd.toList ++ [.app]

/-- The relay closes the UDP socket from its start on. -/
def see : Event kind.object → Option (FdEvent Fd)
  | .io (.inr .relayStart) _ => some (.handed .udp)
  | e => fdEvent e

def ownership : Sole kind.object (FdEvent Fd) (Option Fd) :=
  kind.ownership Task.clientTask Fd.app Mem.remoteFd see fun _ => rfl

namespace Custody

/-! ## What leaves the descriptors alone -/

theorem quiet_net {o : NetOp Fd} (h : ∀ fd family type, o ≠ .socket fd family type) :
    ownership.Quiet (.io (.inl o)) := by
  intro r
  cases o with
  | socket fd family type => exact absurd rfl (h fd family type)
  | _ => rfl

theorem quiet_reads {o : NetOp Fd} {fd : Fd} (h : o.Reads fd) : ownership.Quiet (.io (.inl o)) :=
  quiet_net fun _ _ _ he => by rw [he] at h; exact h

theorem quiet_writes {o : NetOp Fd} {fd : Fd} (h : o.Writes fd) : ownership.Quiet (.io (.inl o)) :=
  quiet_net fun _ _ _ he => by rw [he] at h; exact h

theorem quiet_shuts {o : NetOp Fd} {fd : Fd} (h : o.Shuts fd) : ownership.Quiet (.io (.inl o)) :=
  quiet_net fun _ _ _ he => by rw [he] at h; exact h

theorem quiet_ext {o : ExtOp} (h : o ≠ .relayStart) : ownership.Quiet (.io (.inr o)) := by
  intro r
  cases o with
  | relayStart => exact absurd rfl h
  | _ => rfl

theorem quiet_modify {f : Mem → Mem} (hf : ∀ s, (f s).remoteFd = s.remoteFd) :
    ownership.Quiet (.member fun s => (f s, [])) := fun s => ⟨hf s, nofun⟩

theorem relays (src dst : Fd) : Relays (K := kind) ownership.Quiet src dst :=
  ⟨trivial, fun _ h => quiet_reads h, fun _ h => quiet_writes h, fun _ h => quiet_shuts h⟩

theorem only_reply (reply : Socks5.Reply) (bind : Address) (port : UInt16) :
    Only ownership.Quiet (sendSocksReply reply bind port) := only_sendSocksReply (fun _ h => quiet_writes h) _ _ _

theorem only_failure (reply : Socks5.Reply) : Only ownership.Quiet (do
    let _ ← sendSocksReply reply anyAddress 0 : Code Unit) :=
  .bind (only_reply _ _ _) fun _ => trivial

theorem only_controlClose : Only ownership.Quiet awaitControlClose :=
  only_awaitControlClose trivial fun _ => quiet_net nofun

theorem quiet_finishClientTask : ownership.Quiet (.member finishClientTask) := by
  intro s
  cases hs : s.remoteTaskStarted <;> cases hd : s.remoteReadDone <;> cases hf : s.remoteFd <;>
    simp [ownership, Kind.ownership, see, fdEvent, finishClientTask, hs, hd, hf]

theorem quiet_finishRemoteTask : ownership.Quiet (.member finishRemoteTask) := by
  intro s
  cases hd : s.appReadDone <;> simp [ownership, Kind.ownership, see, fdEvent, finishRemoteTask, hd]

/-! ## The coroutines -/

section Wp

variable (cfg : VlessClientConfig) {α : Type} {w : World kind.object}

theorem good_start : ownership.Good [] none := custody_start

theorem good_opened {fd : Fd} (h : fd ≠ .app) : ownership.Good [.opened fd] none := custody_opened h nofun

theorem good_connected : ownership.Good [.opened .remote] (some .remote) :=
  custody_opened nofun fun _ hx => (Option.some.inj hx).symm

theorem good_closed {fd : Fd} (h : fd ≠ .app) : ownership.Good [.opened fd, .closed fd] none := custody_closed h

theorem wp_rest {c : Code α} (hc : Only ownership.Quiet c) (hw : ownership.Kept w) :
    wp ownership.contract Task.clientTask c (fun _ => ownership.Kept) w := Sole.wp_rest hc hw

/-- A socket that is open and in no member is closed. -/
theorem wp_close {fd : Fd} {Q : Except Exn Unit → World kind.object → Prop} (h : fd ≠ .app)
    (hw : ownership.At [.opened fd] none w)
    (hQ : ∀ w', ownership.At [.opened fd, .closed fd] none w' → Q (.ok ()) w') :
    wp ownership.contract Task.clientTask (member fun s => (s, [.close fd])) Q w := by
  have hclosed : [Syscall.close fd].filterMap (fun c => ownership.see (.sys c)) = [.closed fd] := rfl
  exact Sole.wp_step _ _ hw hclosed hw.part (good_closed h) hQ

theorem wp_socket {fd : Fd} {family : Family} {type : SockType}
    {Q : Except Exn Bool → World kind.object → Prop} (h : fd ≠ .app) (hw : ownership.At [] none w)
    (hopened : ∀ w', ownership.At [.opened fd] none w' → Q (.ok true) w')
    (hfailed : ∀ w', ownership.At [] none w' → Q (.ok false) w') :
    wp ownership.contract Task.clientTask (awaitNet (.socket fd family type)) Q w := by
  refine Sole.wp_ask (S := ownership) (o := .inl (.socket fd family type)) rfl hw ?_ ?_
  · intro opened
    cases (opened : Bool) with
    | true => exact good_opened h
    | false => exact good_start
  · intro opened w' hw'
    cases hopened' : (opened : Bool) with
    | true =>
        rw [hopened'] at hw'
        exact hopened w' hw'
    | false =>
        rw [hopened'] at hw'
        exact hfailed w' hw'

/-- The socket is open exactly if the handshake succeeds or throws an exception. -/
theorem wp_vlessConnectAndHandshake (req : Request) (hw : ownership.At [] none w) :
    wp ownership.contract Task.clientTask (VlessClient.vlessConnectAndHandshake (K := kind) .remote cfg req)
      (fun r w' => ownership.Kept w' ∧ ∀ x, r = .ok (some x) → ownership.At [.opened .remote] none w') w := by
  have hgood : ownership.Good [.opened .remote] none := good_opened nofun
  have hgiveUp : ∀ {w : World kind.object}, ownership.At [.opened .remote] none w →
      wp ownership.contract Task.clientTask (VlessClient.giveUp (K := kind) (α := NetStream Fd × Bytes) .remote)
        (fun r w' => ownership.Kept w' ∧ ∀ x, r = .ok (some x) → ownership.At [.opened .remote] none w') w :=
    fun hw => wp_bind (wp_close nofun hw fun _ h => ⟨h.good (good_closed nofun), nofun⟩)
  have hopen : ∀ {β : Type} {c : Code β} {f : β → Code (Option (NetStream Fd × Bytes))} {w : World kind.object},
      Only ownership.Quiet c → ownership.At [.opened .remote] none w →
      (∀ b w', ownership.At [.opened .remote] none w' → wp ownership.contract Task.clientTask (f b)
        (fun r w' => ownership.Kept w' ∧ ∀ x, r = .ok (some x) → ownership.At [.opened .remote] none w') w') →
      wp ownership.contract Task.clientTask (c >>= f)
        (fun r w' => ownership.Kept w' ∧ ∀ x, r = .ok (some x) → ownership.At [.opened .remote] none w') w :=
    fun hc hw hf => wp_seq (Sole.wp_quiet hc hgood hw) hf fun _ _ h => ⟨h.good hgood, nofun⟩
  have hresolve : Only ownership.Quiet (VlessClient.resolveRemote (K := kind) cfg) :=
    .bind (.await (quiet_net nofun)) fun _ => trivial
  refine wp_seq (Sole.wp_quiet hresolve good_start hw) ?_ fun _ _ h => ⟨h.good good_start, nofun⟩
  intro addr w hw
  cases addr with
  | none => exact ⟨hw.good good_start, nofun⟩
  | some addr =>
      refine wp_bind (wp_socket nofun hw (fun w hw => ?_) fun w hw => ⟨hw.good good_start, nofun⟩)
      refine hopen (.await (quiet_net nofun)) hw fun connectResult w hw => ?_
      by_cases hneg : connectResult < 0
      · rw [if_pos hneg]
        exact hgiveUp hw
      · rw [if_neg hneg]
        refine hopen (VlessClient.only_openStream _ cfg (quiet_net nofun)) hw fun stream w hw => ?_
        cases stream with
        | none => exact hgiveUp hw
        | some stream =>
            refine hopen (VlessClient.only_exchangeHeaders cfg req stream (fun _ h => quiet_reads h)
              fun _ h => quiet_writes h) hw fun remaining w hw => ?_
            cases remaining with
            | none => exact hgiveUp hw
            | some remaining => exact ⟨hw.good hgood, fun _ _ => hw⟩

theorem wp_runTcpSession (req : Socks5.Request) (hw : ownership.At [] none w) :
    wp ownership.contract Task.clientTask (runTcpSession cfg req) (fun _ => ownership.Kept) w := by
  refine wp_seq (wp_vlessConnectAndHandshake cfg _ hw) ?_ fun _ _ h => h.1
  intro handshake w hw
  cases handshake with
  | none => exact wp_rest (only_failure _) hw.1
  | some handshake =>
      obtain ⟨stream, remaining⟩ := handshake
      refine wp_bind (Sole.wp_step [] (some .remote) (hw.2 _ rfl) rfl rfl good_connected fun w hw => ?_)
      refine wp_rest (.bind (only_reply _ _ _) fun sent => .ite (fun _ => trivial) fun _ => ?_) (hw.good good_connected)
      refine .bind (NetStream.only_writeNonempty _ _ fun _ h => quiet_writes h) fun forwarded => ?_
      refine .ite (fun _ => trivial) fun _ => .bind (.bind (.await (quiet_modify fun _ => rfl)) fun _ => .await nofun) fun _ => ?_
      exact .bind (only_copyStream _ (relays _ _)) fun _ => trivial

theorem wp_runUdpAssociate (hw : ownership.At [] none w) :
    wp ownership.contract Task.clientTask runUdpAssociate (fun _ => ownership.Kept) w := by
  have hgood : ownership.Good [.opened .udp] none := good_opened nofun
  refine wp_bind (wp_socket nofun hw (fun w hw => ?_) fun w hw => wp_rest (only_failure _) (hw.good good_start))
  refine Sole.wp_quiet_then (.await (quiet_ext nofun)) hgood hw fun bound w hw => ?_
  cases bound with
  | false =>
      exact wp_bind (wp_close nofun hw fun _ h => wp_rest (only_failure _) (h.good (good_closed nofun)))
  | true =>
      refine Sole.wp_quiet_then (.await (quiet_ext nofun)) hgood hw fun bndPort w hw => ?_
      refine Sole.wp_quiet_then (only_reply _ _ _) hgood hw fun sent w hw => ?_
      cases sent with
      | false => exact wp_close nofun hw fun _ h => h.good (good_closed nofun)
      | true =>
          have hhanded : ownership.Good [.opened .udp, .handed .udp] none := custody_handed nofun
          refine wp_bind (Sole.wp_ask (S := ownership) (o := .inr .relayStart) rfl hw (fun _ => hhanded) fun _ w hw => ?_)
          refine wp_rest (.bind only_controlClose fun _ => .await (quiet_ext nofun)) (hw.good hhanded)

theorem wp_dispatch (req : Socks5.Request) (hw : ownership.At [] none w) :
    wp ownership.contract Task.clientTask (dispatch cfg req) (fun _ => ownership.Kept) w := by
  rw [dispatch]
  split
  · exact wp_runTcpSession cfg req hw
  · exact wp_runUdpAssociate hw
  · exact wp_rest (only_failure _) (hw.good good_start)

theorem wp_runSession (hw : ownership.At [] none w) :
    wp ownership.contract Task.clientTask (runSession cfg) (fun _ => ownership.Kept) w := by
  have hfinish : Only ownership.Quiet (do member finishClientTask; return true) :=
    .bind (.await quiet_finishClientTask) fun _ => trivial
  have hstream : ∀ {β : Type} (p : Parser β), Only ownership.Quiet (onStream p) := fun p =>
    only_onStream trivial (fun _ h => quiet_reads h) (fun _ => quiet_modify fun _ => rfl) p
  have hwrite : ∀ data, Only ownership.Quiet (appStream.writeFull (K := kind) data) :=
    only_writeApp fun _ h => quiet_writes h
  refine Sole.wp_quiet_then (hstream _) good_start hw fun noAuth w hw => ?_
  cases noAuth with
  | false => exact wp_rest (.bind (hwrite _) fun _ => hfinish) (hw.good good_start)
  | true =>
      refine Sole.wp_quiet_then (hwrite _) good_start hw fun g w hw => ?_
      by_cases hg : g ≤ 0
      · simp only [hg, if_true]
        exact wp_rest hfinish (hw.good good_start)
      · simp only [hg, if_false]
        refine Sole.wp_quiet_then (hstream _) good_start hw fun req w hw => ?_
        exact wp_seq (wp_dispatch cfg req hw) (fun _ _ h => h) fun _ _ h => h

theorem wp_clientTask (hw : ownership.At [] none w) :
    wp ownership.contract Task.clientTask (clientTask cfg) (fun _ => ownership.Kept) w := by
  have hsession : wp ownership.contract Task.clientTask
      (Coro.tryCatch (S := kind.object.sig) (runSession cfg) fun _ => pure false) (fun _ => ownership.Kept) w := by
    refine wp_tryCatch (wp_mono (wp_runSession cfg hw) ?_)
    intro r w' hw'
    cases r with
    | ok _ => exact hw'
    | error _ => exact hw'
  refine wp_seq hsession (fun returned w hw => ?_) fun _ _ h => h
  exact wp_rest (.ite (fun _ => trivial) fun _ => .await quiet_finishClientTask) hw

theorem only_remoteTask : Only ownership.Quiet remoteTask := by
  refine .bind (.tryCatch ?_ fun _ => trivial) fun _ => .await quiet_finishRemoteTask
  exact .bind (.await trivial) fun s => .bind (only_copyStream _ (relays _ _)) fun _ => trivial

end Wp

end Custody

/-- **A session closes only what it holds**, and holds its member, the descriptor of the application, and
    the UDP socket from when it leaves it to the relay. -/
theorem custody (cfg : VlessClientConfig) {p : Pool kind.object} (hp : Reachable cfg p) :
    Cppvless.Custody .app (ownership.seen p.world.trace) p.world.mem.remoteFd := by
  refine Sole.good (S := ownership) rfl custody_start ?_ ?_ hp
  · exact fun w hw => Custody.wp_clientTask cfg hw
  intro t ht
  cases t with
  | clientTask => exact absurd rfl ht
  | remoteTask => exact Custody.only_remoteTask

end Socks5Connection

end Cppvless
