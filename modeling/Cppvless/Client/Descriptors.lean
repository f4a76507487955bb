import Cppvless.Client.Cancellation
import Cppvless.Client.Custody
import Cppvless.Client.Tunnel

set_option autoImplicit false

/-! # The descriptors of a UDP association

The UDP socket belongs to `runUdpAssociate` until it starts the relay, and every other descriptor to the
relay or to one of its coroutines. What `stop` does not close is what only a coroutine knows: its frame is
destroyed with the relay, the socket is not. -/

namespace Cppvless

open Coroutine

namespace Socks5Connection

namespace UdpSocket

/-! ## The socket of the connection -/

/-- The connection closes the UDP socket or leaves it to the relay. -/
inductive Fate
  | closed
  | handed
  deriving DecidableEq

def fate : Event kind.object → Option Fate
  | .sys (.close .udp) => some .closed
  | .io (.inr .relayStart) _ => some .handed
  | _ => none

def fates (tr : List (Event kind.object)) : List Fate := tr.filterMap fate

theorem handed_of_fates {tr : List (Event kind.object)} (h : .handed ∈ fates tr) :
    .handed .udp ∈ ownership.seen tr := by
  obtain ⟨e, he, hfate⟩ := List.mem_filterMap.1 h
  refine List.mem_filterMap.2 ⟨e, he, ?_⟩
  match e, hfate with
  | .io (.inr .relayStart) _, _ => rfl

theorem closed_of_fates {tr : List (Event kind.object)} (h : .closed ∈ fates tr) :
    .closed .udp ∈ ownership.seen tr := by
  obtain ⟨e, he, hfate⟩ := List.mem_filterMap.1 h
  refine List.mem_filterMap.2 ⟨e, he, ?_⟩
  match e, hfate with
  | .sys (.close .udp), _ => rfl

/-- The connection never closes a UDP socket that it has left to the relay. -/
theorem not_closed (cfg : VlessClientConfig) {q : Pool kind.object} (hq : Reachable cfg q)
    (hstarted : .handed ∈ fates q.world.trace) :
    (fates q.world.trace).count .closed = 0 := by
  refine List.count_eq_zero.2 fun hclosed => ?_
  exact ((custody cfg hq).handed .udp (handed_of_fates hstarted)).2 (closed_of_fates hclosed)

end UdpSocket

/-- An application that asks for an association and gets one. -/
def associated : Pool kind.object :=
  run (O := kind.object) (body { remoteHost := [104] }) Task.clientTask {}
    (peers [[5, 1, 0], [5, 3, 0, 1, 0, 0, 0, 0, 0, 0]] []).env 40 (List.replicate 4 .clientTask)

theorem associated_reachable : Reachable { remoteHost := [104] } associated :=
  run_reachable (O := kind.object) (body { remoteHost := [104] }) Task.clientTask {} _ _ _

theorem associated_started : .handed ∈ UdpSocket.fates associated.world.trace := by
  decide +kernel

end Socks5Connection

namespace Socks5UdpRelay

open Sessions Ledger

variable (cfg : VlessClientConfig)

/-! ## Everything is closed -/

/-- How often a descriptor is closed until the relay `p`, started by the connection `q`, is gone. -/
def closesUntil (q : Pool Socks5Connection.kind.object) (p : Pool kind.object) (fd : Fd) : Nat :=
  (if fd = .udp then (Socks5Connection.UdpSocket.fates q.world.trace).count .closed else 0) +
    closes (p.world.call stop).trace fd

/-- **Every descriptor of an association is closed once**, if there was an eventfd and no handshake is under
    way or has thrown an exception, and only then. -/
theorem descriptors_closed_iff {q : Pool Socks5Connection.kind.object} (hq : Socks5Connection.Reachable cfg q)
    (hstarted : .handed ∈ Socks5Connection.UdpSocket.fates q.world.trace)
    {p : Pool kind.object} (hp : ReachableIn Delivered (body cfg) Task.control {} p) (hstack : p.stack = []) :
    (∀ fd, fd = .udp ∨ Opened p.world.trace fd → closesUntil q p fd = 1) ↔
      Opened p.world.trace .event ∧ p.world.mem.connecting = none := by
  have hruns : ReachableIn (Allowed ⟨False, False, False⟩) (body cfg) Task.control {} p :=
    hp.mono fun _ _ h => ⟨h, False.elim, False.elim⟩
  have hrests : Rests ⟨False, False, True⟩ p := rests (sound hruns) hp.reachable hstack
  have hothers := hrests.others_of_stop
  have hinv := hrests.inv_of_stop
  have hopened : ∀ fd, (ledger (p.world.call stop)).opened fd ↔ Opened p.world.trace fd := by
    intro fd
    rw [ledger_call]
    exact Iff.rfl
  have hcloses : ∀ fd, closesUntil q p fd = (ledger (p.world.call stop)).closes fd := by
    intro fd
    rw [closesUntil, Socks5Connection.UdpSocket.not_closed cfg hq hstarted, ite_self, Nat.zero_add]
    rfl
  simp only [hcloses]
  constructor
  · intro hall
    refine ⟨?_, ?_⟩
    · by_contra hevent
      have hudp := hinv.failed (mt (hopened .event).1 hevent)
      exact absurd (hudp.symm.trans (hall .udp (.inl rfl))) (by decide)
    · by_contra hconn
      obtain ⟨n, hn⟩ := Option.ne_none_iff_exists'.1 hconn
      -- the socket of the handshake is known to `recvLoop` alone
      have hlost : (ledger p.world).remoteFd n = none ∧ (ledger p.world).opened (.remote n) ∧
          (ledger p.world).closes (.remote n) = 0 := by
        rcases hrests.recvLoop (hrests.inv.begun n (.inl hn)) with ⟨_, _, _, hparked⟩ | ⟨_, hpost⟩
        · exact (hparked.waits.1 n hn).1
        · exact (hpost.2.2 n hn).1
      have hone := hall (.remote n) (.inr hlost.2.1)
      rw [(hothers.free n hlost.1).2.1, hlost.2.2] at hone
      exact absurd hone (by decide)
  · rintro ⟨hevent, hconn⟩ fd hfd
    have hstopped := hinv.stopped hrests.closed_of_stop ((hopened _).2 hevent)
    cases fd with
    | udp => exact hstopped.1
    | event => exact hstopped.2
    | remote n =>
        have hfd := (hopened _).2 (hfd.resolve_left nofun)
        refine (hinv.released n (hrests.remoteFd_of_stop trivial n) hfd).resolve_right ?_
        rw [hothers.connecting]
        exact fun h => nomatch hconn.symm.trans h

/-- An association with one session. -/
theorem descriptors_closed_session :
    closesUntil Socks5Connection.associated (deliveredRun (List.replicate 5 .recvLoop)) .udp = 1 ∧
      closesUntil Socks5Connection.associated (deliveredRun (List.replicate 5 .recvLoop)) .event = 1 ∧
      closesUntil Socks5Connection.associated (deliveredRun (List.replicate 5 .recvLoop)) (.remote 0) = 1 := by
  have hrun : (deliveredRun (List.replicate 5 .recvLoop)).stack = [] ∧
      (deliveredRun (List.replicate 5 .recvLoop)).world.mem.connecting = none ∧
      .event ∈ (deliveredRun (List.replicate 5 .recvLoop)).world.trace.filterMap opening ∧
      .remote 0 ∈ (deliveredRun (List.replicate 5 .recvLoop)).world.trace.filterMap opening := by
    decide +kernel
  obtain ⟨hstack, hconn, hevent, hremote⟩ := hrun
  have hall := (descriptors_closed_iff _ Socks5Connection.associated_reachable Socks5Connection.associated_started
    (deliveredRun_reachable _) hstack).2 ⟨hevent, hconn⟩
  exact ⟨hall .udp (.inl rfl), hall .event (.inr hevent), hall (.remote 0) (.inr hremote)⟩

/-- The socket of a handshake stays open when the relay is stopped. -/
theorem handshake_socket_leaks :
    ¬ ∀ (cfg : VlessClientConfig) (q : Pool Socks5Connection.kind.object), Socks5Connection.Reachable cfg q →
      .handed ∈ Socks5Connection.UdpSocket.fates q.world.trace → ∀ p : Pool kind.object,
      ReachableIn Delivered (body cfg) Task.control {} p → p.stack = [] →
      ∀ fd, fd = .udp ∨ Opened p.world.trace fd → closesUntil q p fd = 1 := by
  intro h
  have hrun : (deliveredRun [.recvLoop]).stack = [] ∧
      .remote 0 ∈ (deliveredRun [.recvLoop]).world.trace.filterMap opening ∧
      closesUntil Socks5Connection.associated (deliveredRun [.recvLoop]) (.remote 0) = 0 := by
    decide +kernel
  obtain ⟨hstack, hopened, hcloses⟩ := hrun
  have hone := h _ _ Socks5Connection.associated_reachable Socks5Connection.associated_started _
    (deliveredRun_reachable _) hstack (.remote 0) (.inr hopened)
  exact absurd (hcloses.symm.trans hone) (by decide)

/-! ## Nothing is used after that -/

/-- **No operation on a closed descriptor**, in a run in which nobody closes a session before
    `getOrCreateSession` has stored it: whatever is in the table is on a descriptor that was never closed,
    and an operation is entered there when it is submitted. -/
theorem closed_not_used {p : Pool kind.object}
    (hp : ReachableIn (fun w w' => Delivered w w' ∧ Stored w w') (body cfg) Task.control {} p) {fd : Fd} {d : Dir}
    (hd : p.world.mem.pending fd d = true) : Event.sys (O := kind.object) (.close fd) ∉ p.world.trace := by
  have hruns : ReachableIn (Allowed ⟨True, False, False⟩) (body cfg) Task.control {} p :=
    hp.mono fun _ _ h => ⟨h.1, fun _ => h.2, False.elim⟩
  have hzero : closes p.world.trace fd = 0 := ((inv_reachable hruns).stored trivial).2 fd d hd
  intro hclosed
  exact List.count_eq_zero.1 hzero (List.mem_filterMap.2 ⟨_, hclosed, rfl⟩)

/-- A run in which nobody closes a session that is being stored. -/
def storedRun (ts : List Task) : Pool kind.object :=
  runIn (fun w w' => Delivered w w' ∧ Stored w w') (body { remoteHost := [104] }) Task.control {} serves 40 ts

theorem storedRun_reachable (ts : List Task) :
    ReachableIn (fun w w' => Delivered w w' ∧ Stored w w') (body { remoteHost := [104] }) Task.control {}
      (storedRun ts) :=
  runIn_reachableIn _ _ _

/-- A write to a session that is open. -/
theorem closed_not_used_session :
    Event.sys (O := kind.object) (.close (.remote 0)) ∉ (storedRun (List.replicate 4 .recvLoop)).world.trace := by
  have hrun : (storedRun (List.replicate 4 .recvLoop)).world.mem.pending (.remote 0) .write = true := by
    decide +kernel
  exact closed_not_used _ (storedRun_reachable _) hrun

/-- When the relay is stopped during a handshake, the session is closed before the datagram is written. -/
theorem closed_used :
    ¬ ∀ (cfg : VlessClientConfig) (p : Pool kind.object), ReachableIn Delivered (body cfg) Task.control {} p →
      ∀ fd d, p.world.mem.pending fd d = true → Event.sys (O := kind.object) (.close fd) ∉ p.world.trace := by
  intro h
  have hrun : (deliveredRun [.recvLoop, .control, .recvLoop, .recvLoop, .recvLoop]).world.mem.pending (.remote 0) .write = true ∧
      .remote 0 ∈ (deliveredRun [.recvLoop, .control, .recvLoop, .recvLoop, .recvLoop]).world.trace.filterMap closing := by
    decide +kernel
  obtain ⟨hd, hclosed⟩ := hrun
  obtain ⟨e, he, hfd⟩ := List.mem_filterMap.1 hclosed
  have hnot := h _ _ (deliveredRun_reachable _) _ _ hd
  match e, hfd with
  | .sys (.close fd), hfd =>
      obtain rfl : fd = .remote 0 := Option.some.inj hfd
      exact hnot he

end Socks5UdpRelay

end Cppvless
