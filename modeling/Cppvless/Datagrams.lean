import Cppvless.Client.UdpUplink
import Cppvless.Server.Destination
import Cppvless.Server.Gate
import Cppvless.Server.UdpUplink

set_option autoImplicit false

/-! # From the application's datagrams to the target

The UDP relay of the client and the connection of the server that serves one of its sessions, with a channel
between the socket of that session and the server. The relay puts the datagrams for one destination
behind one request, the server takes them off the stream again: between the two they are a stream, cut
anywhere. -/

namespace Cppvless

open Coroutine

namespace Datagrams

open Socks5UdpRelay

/-- The relay and the connection that serves one of its sessions. -/
abbrev Session := Network Socks5UdpRelay.kind.object VlessConnection.kind.object

/-- The states the two reach together, the socket `k` of the relay being connected to the server. -/
def Reachable (client : VlessClientConfig) (server : VlessConnection.Config) (k : Nat) (n : Session) :
    Prop :=
  @Network.Reachable Socks5UdpRelay.kind.object VlessConnection.kind.object _ _
    (Socks5UdpRelay.body client) (VlessConnection.body server)
    (Channel (K := Socks5UdpRelay.kind) (L := VlessConnection.kind) (Fd.remote k)
      VlessConnection.Fd.client)
    Task.control {} VlessConnection.Task.clientTask {} n

/-- What the server has got from the relay. -/
def received (n : Session) : Bytes :=
  readFrom (K := VlessConnection.kind) VlessConnection.Fd.client n.right.world.trace

/-- The datagrams that the target was sent. -/
def delivered (n : Session) : List Bytes := VlessConnection.UdpUplink.delivered n.right.world.trace

/-- The outside world: no write to a session succeeds after a failed one, and the target's socket accepts a
    datagram whole. -/
structure Outside (n : Session) : Prop where
  sticky : ∀ m, Sticky (K := Socks5UdpRelay.kind) (Fd.remote m) n.left.world.trace
  accepted : ∀ x ∈ sends (K := VlessConnection.kind) VlessConnection.Fd.target n.right.world.trace,
    x.2 = x.1.length

variable {client : VlessClientConfig} {server : VlessConnection.Config} {k : Nat} {n : Session}
  {routes : List (Nat × Datagram)} {key : Key} {header : Bytes}

/-! ## The request -/

/-- A request of a user of the server is one for a UDP session. -/
theorem udpRequest_of_encode (huser : client.uuid ∈ server.validator.users)
    (hencode : Encoder.encodeRequest (client.request (vlessRequest key)) = .ok header) :
    ∃ r : VlessConnection.UdpRequest server.validator, r.header = header ∧
      r.req = client.request (vlessRequest key) :=
  ⟨⟨header, _, Encoder.encodeRequest_header (.inr rfl) huser hencode, rfl, rfl⟩, rfl, rfl⟩

/-- There is a request the server would accept from the client. -/
theorem exists_udpRequest (huser : client.uuid ∈ server.validator.users) :
    Nonempty (VlessConnection.UdpRequest server.validator) := by
  obtain ⟨r, -⟩ := @udpRequest_of_encode client server (.ipv4 (List.Vector.replicate 4 0), 0) _ huser rfl
  exact ⟨r⟩

/-- A write brings no datagram of the application. -/
theorem asked_of_written {p : Pool Socks5UdpRelay.kind.object} {w : World Socks5UdpRelay.kind.object}
    (h : Written (K := Socks5UdpRelay.kind) (Fd.remote k) p w) : asked w.trace = asked p.world.trace := by
  cases h with
  | recorded => rfl
  | awaited t o k r hframe hwrites => simp [asked, asks]

/-- What the routes are, and that the server has got the beginning of a request it accepts and of the
    frames for the socket. -/
structure Routed (client : VlessClientConfig) (server : VlessConnection.Config) (k : Nat) (n : Session)
    (routes : List (Nat × Datagram)) (r : VlessConnection.UdpRequest server.validator) : Prop where
  datagrams : routes.map Prod.snd <+: asked n.left.world.trace
  latest : (asked n.left.world.trace).length ≤ routes.length + 1
  sized : ∀ d ∈ asked n.left.world.trace, Sized d
  reads : received n <+: r.header ++ frames ((routed k routes).map Prod.snd)
  request : received n = [] ∨ ∃ key, AllFor key (routed k routes) ∧
    r.req = client.request (vlessRequest key)

theorem exists_routed (huser : client.uuid ∈ server.validator.users)
    (hn : Reachable client server k n) (hout : Outside n) :
    ∃ routes r, Routed client server k n routes r := by
  obtain ⟨w, hwritten, hsticky, hread⟩ := hn.linked.forth
  obtain ⟨routes, hroutes⟩ := routes_of_written client hn.left hwritten
    fun m => hwritten.sticky_of hsticky (hout.sticky m)
  have hasked := asked_of_written hwritten
  have hdatagrams := hasked ▸ hroutes.datagrams
  have hlatest := hasked ▸ hroutes.latest
  have hsized := hasked ▸ hroutes.sized
  obtain ⟨key, hall, hnil | ⟨header, hencode, hwrote⟩⟩ := hroutes.sockets k
  · obtain ⟨r⟩ := exists_udpRequest huser
    have hnone : received n = [] := by
      rw [hnil] at hread
      exact List.prefix_nil.1 hread
    exact ⟨routes, r, hdatagrams, hlatest, hsized, hnone ▸ List.nil_prefix, .inl hnone⟩
  · obtain ⟨r, hheader, hreq⟩ := udpRequest_of_encode huser hencode
    refine ⟨routes, r, hdatagrams, hlatest, hsized, ?_, .inr ⟨key, hall, hreq⟩⟩
    rw [hheader]
    exact hread.trans hwrote

/-- Every payload can be framed, and is not empty. -/
theorem routed_sized {asked : List Datagram} (hroutes : routes.map Prod.snd <+: asked)
    (hsized : ∀ d ∈ asked, Sized d) : ∀ d ∈ (routed k routes).map Prod.snd, d ≠ [] ∧ d.length < 65536 := by
  intro payload hpayload
  obtain ⟨d, hd, rfl⟩ := List.mem_map.1 hpayload
  obtain ⟨x, hx, rfl⟩ := List.mem_map.1 hd
  exact hsized _ (hroutes.subset (List.mem_map.2 ⟨x, List.mem_of_mem_filter hx, rfl⟩))

theorem filter_sized {ds : List Bytes} (h : ∀ d ∈ ds, d ≠ [] ∧ d.length < 65536) :
    ds.filter (fun d => d ≠ []) = ds := by
  refine List.filter_eq_self.2 fun d hd => ?_
  simpa using (h d hd).1

/-! ## The server's side -/

section Server

variable {r : VlessConnection.UdpRequest server.validator} {ds : List Bytes}

/-- The target is sent the beginning of the datagrams. -/
theorem server_safe (hn : Reachable client server k n) (hout : Outside n)
    (hds : ∀ d ∈ ds, d ≠ [] ∧ d.length < 65536) (hreads : received n <+: r.header ++ frames ds) :
    delivered n <+: ds := by
  have hfresh : (VlessConnection.UdpUplink.contract r ds).pre VlessConnection.Task.clientTask
      ⟨{}, []⟩ := ⟨rfl, rfl⟩
  have hsafe := Contract.invariant VlessConnection.UdpUplink.stable
    (VlessConnection.UdpUplink.meets server r fun d hd => (hds d hd).2) hfresh
    (fun w => VlessConnection.UdpUplink.Safe ds w.trace) List.nil_prefix
    (fun t w w' hguar _ hw => by
      cases t with
      | clientTask => exact hguar.1 hw
      | targetTask => exact hguar.2.safe hw) hn.right ⟨hreads, hout.accepted⟩
  rw [VlessConnection.UdpUplink.Safe, filter_sized hds] at hsafe
  exact hsafe

/-- Once everything was read, and no send is under way, all were sent. -/
theorem server_done (hn : Reachable client server k n) (hout : Outside n)
    (hds : ∀ d ∈ ds, d ≠ [] ∧ d.length < 65536) (hreads : received n = r.header ++ frames ds)
    (hstack : n.right.stack = []) (hidle : ¬ VlessConnection.UdpUplink.Sending n.right)
    (hstarted : n.right.world.mem.targetTaskStarted = true) : delivered n = ds := by
  have hfresh : (VlessConnection.UdpUplink.contract r ds).pre VlessConnection.Task.clientTask
      ⟨{}, []⟩ := ⟨rfl, rfl⟩
  have hright := hn.right
  have hsound := Contract.sound VlessConnection.UdpUplink.stable
    (VlessConnection.UdpUplink.meets server r fun d hd => (hds d hd).2) hfresh hright
    ⟨hreads ▸ List.prefix_rfl, hout.accepted⟩
  have hbegun := (frames_ne_none_iff (O := VlessConnection.kind.object) hright
    VlessConnection.Task.clientTask).2 (.inl rfl)
  have hdone : VlessConnection.UdpUplink.Done r ds n.right.world := by
    rcases hsound.suspended_or_finished hstack hbegun with ⟨-, o, c, hframe, hs⟩ | hfinished
    · refine hsound.parked hframe hs rfl ?_
      rintro o rfl hwrites
      exact hidle ⟨o, c, hframe, hwrites⟩
    · exact hsound.post hfinished rfl
  have hall := hdone hstarted hreads
  rwa [filter_sized hds] at hall

/-- Wherever it goes, it is where the request leads. -/
theorem server_aimed (hn : Reachable client server k n) {payload : Bytes}
    (hreads : received n <+: r.header ++ payload) :
    EachStep (VlessConnection.Aimed r.req) n.right.world.trace := by
  have hfresh : (VlessConnection.Destination.contract r.req r.header payload).pre
      VlessConnection.Task.clientTask ⟨{}, []⟩ := ⟨rfl, rfl⟩
  exact Contract.invariant VlessConnection.Destination.stable
    (VlessConnection.Destination.meets server r.wf) hfresh
    (fun w => EachStep (VlessConnection.Aimed r.req) w.trace) eachStep_nil
    (fun _ _ _ hguar _ hw => hguar.1 hw) hn.right hreads

end Server

/-- With nothing read, the client is not answered and no socket is made. -/
theorem gated_of_nothing (hn : Reachable client server k n) (hnone : received n = []) :
    ∀ e ∈ n.right.world.trace, ¬ VlessConnection.Gate.NeedsAuth e := by
  intro e he hneeds
  obtain ⟨before, after, hsplit⟩ := List.append_of_mem he
  obtain ⟨header, req, hheader, hinit, -⟩ :=
    (VlessConnection.Gate.invariant server hn.right before e after hsplit hneeds).mono
      (readFrom_mono (K := VlessConnection.kind) VlessConnection.Fd.client
        (hsplit ▸ List.prefix_append _ _))
  rw [← received, hnone] at hinit
  exact hheader.ne_nil (List.prefix_nil.1 hinit)

end Datagrams

namespace Datagrams

/-! ## One datagram -/

def sampleClient : VlessClientConfig := { remoteHost := [104] }

def sampleStart : Session :=
  @Network.start Socks5UdpRelay.kind.object VlessConnection.kind.object _ _
    (Socks5UdpRelay.body sampleClient) (VlessConnection.body VlessConnection.plainServer)
    Socks5UdpRelay.Task.control {} VlessConnection.Task.clientTask {}

/-- The request for port 53 of `1.2.3.4`, the answer, and the datagram. -/
def exchange : Session :=
  playAll (K := Socks5UdpRelay.kind) (L := VlessConnection.kind) (Socks5UdpRelay.body sampleClient)
    (VlessConnection.body VlessConnection.plainServer)
    (Socks5UdpRelay.resolved
      (Socks5UdpRelay.application [0, 0, 0, 1, 1, 2, 3, 4, 0, 53, 9] 11 fun _ => [[0, 0]]))
    (VlessConnection.peers
      [0 :: List.replicate 16 0 ++ [0, 2, 0, 53, 1, 1, 2, 3, 4], [0, 1, 9]] []).env 40
    (Socks5UdpRelay.Fd.remote 0) VlessConnection.Fd.client
    [.left (List.replicate 3 .recvLoop), .right (List.replicate 3 .clientTask),
      .left (List.replicate 2 .recvLoop), .right (List.replicate 2 .clientTask)] sampleStart

theorem exchange_reachable : Reachable sampleClient VlessConnection.plainServer 0 exchange := by
  have hsettled : Channel.Settled (K := Socks5UdpRelay.kind) (L := VlessConnection.kind)
      (Socks5UdpRelay.Fd.remote 0) VlessConnection.Fd.client sampleStart := by decide +kernel
  exact playAll_reachable (K := Socks5UdpRelay.kind) (L := VlessConnection.kind) _
    ⟨hsettled.channel, .refl⟩ hsettled

theorem exchange_outside : Outside exchange := by
  have hall : ∀ e ∈ exchange.left.world.trace, fails (K := Socks5UdpRelay.kind) e = false := by
    decide +kernel
  exact ⟨fun m => sticky_of_succeeds (K := Socks5UdpRelay.kind) hall _, by decide +kernel⟩

theorem exchange_idle : ¬ VlessConnection.UdpUplink.Sending exchange.right := by
  rintro ⟨o, c, hframe, hwrites⟩
  have hawaits : exchange.right.awaits VlessConnection.Task.clientTask =
      some (.inl (.recv VlessConnection.Fd.client NetStream.readSize)) := by decide +kernel
  rw [Pool.awaits, hframe] at hawaits
  obtain rfl := Sum.inl.inj (Option.some.inj hawaits)
  exact hwrites

end Datagrams

end Cppvless
