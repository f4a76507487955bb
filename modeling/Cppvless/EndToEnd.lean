import Cppvless.Client.Uplink
import Cppvless.Server.Destination
import Cppvless.Server.Gate
import Cppvless.Server.Tunnel

set_option autoImplicit false

/-! # From the application to the target

A SOCKS5 session of the client and the VLESS connection of the server that serves it, with a channel
between them: what each reads from the other is the beginning of what the other has written, no write to
it succeeds after a failed one, and nothing else is known of how the two event loops take turns. -/

namespace Cppvless

open Coroutine

namespace EndToEnd

/-- A session and the connection that serves it. -/
abbrev Session := Network Socks5Connection.kind.object VlessConnection.kind.object

/-- The connection between the two. -/
abbrev channel : Session → Prop :=
  Channel (K := Socks5Connection.kind) (L := VlessConnection.kind) Socks5Connection.Fd.remote
    VlessConnection.Fd.client

/-- The states the two reach together. -/
def Reachable (client : VlessClientConfig) (server : VlessConnection.Config) (n : Session) : Prop :=
  @Network.Reachable Socks5Connection.kind.object VlessConnection.kind.object _ _
    (Socks5Connection.body client) (VlessConnection.body server) channel
    Socks5Connection.Task.clientTask {} VlessConnection.Task.clientTask {} n

/-- On both sides no write to any descriptor succeeds after a failed one. -/
structure Failing (n : Session) : Prop where
  client : ∀ fd, Sticky (K := Socks5Connection.kind) fd n.left.world.trace
  server : ∀ fd, Sticky (K := VlessConnection.kind) fd n.right.world.trace

/-- What the application has sent so far. -/
def fromApp (n : Session) : Bytes :=
  readFrom (K := Socks5Connection.kind) Socks5Connection.Fd.app n.left.world.trace

/-- What the application was sent. -/
def toApp (n : Session) : Bytes :=
  wroteTo (K := Socks5Connection.kind) Socks5Connection.Fd.app n.left.world.trace

/-- What the target has sent so far. -/
def fromTarget (n : Session) : Bytes :=
  readFrom (K := VlessConnection.kind) VlessConnection.Fd.target n.right.world.trace

/-- What the target was sent. -/
def toTarget (n : Session) : Bytes :=
  wroteTo (K := VlessConnection.kind) VlessConnection.Fd.target n.right.world.trace

/-- What the server has got from the client. -/
def received (n : Session) : Bytes :=
  readFrom (K := VlessConnection.kind) VlessConnection.Fd.client n.right.world.trace

variable {client : VlessClientConfig} {server : VlessConnection.Config} {n : Session}

/-- The server has got nothing yet, or the beginning of a request and of what follows the opening of the
    session. -/
theorem received_shape (hn : Reachable client server n) :
    received n = [] ∨ ∃ req g r lost header body,
      Socks5Connection.Opened client req g r lost header n.left.world.trace ∧
        fromApp n = g ++ r ++ lost ++ body ∧ received n <+: header ++ body := by
  obtain ⟨w, hwritten, hsticky, hread⟩ := hn.linked.forth
  have happ := hwritten.answers Socks5Connection.Fd.app
  rcases Socks5Connection.Uplink.sends_of_written client hn.left hwritten hsticky with
    hnil | ⟨req, g, r, lost, header, body, hopened, hbytes, hsent⟩
  · rw [hnil] at hread
    exact .inl (List.prefix_nil.1 hread)
  · refine .inr ⟨req, g, r, lost, header, body, hopened.mono ?_, ?_, hread.trans hsent⟩
    · simp [chunksFrom, happ]
    · rw [← hbytes]
      exact (hwritten.readFrom _).symm

/-- A CONNECT of a user of the server is a request the server accepts. -/
theorem tcpRequest_of_encode (huser : client.uuid ∈ server.validator.users) {req : Socks5.Request}
    {header : Bytes} (hencode : Encoder.encodeRequest (client.request (toVlessRequest req .tcp)) =
      .ok header) :
    ∃ t : VlessConnection.TcpRequest server.validator, t.header = header ∧
      t.req = client.request (toVlessRequest req .tcp) :=
  ⟨⟨header, _, Encoder.encodeRequest_header (.inl rfl) huser hencode, rfl, rfl⟩, rfl, rfl⟩

/-- The server's header of a request that the client encodes, as a server of that user alone knows it. -/
theorem header_of_encode {req : Socks5.Request} {header : Bytes}
    (hencode : Encoder.encodeRequest (client.request (toVlessRequest req .tcp)) = .ok header) :
    ∃ validator req', Header validator header req' ∧ req'.uuid = client.uuid :=
  ⟨⟨[client.uuid], List.nodup_singleton _⟩, _,
    Encoder.encodeRequest_header (.inl rfl) (List.mem_singleton_self _) hencode, rfl⟩

/-! ## The server's side -/

section Server

variable {t : VlessConnection.TcpRequest server.validator} {payload : Bytes}

theorem server_env (hfailing : Failing n) (hreads : received n <+: t.header ++ payload) :
    VlessConnection.Tunnel.Env t payload n.right.world.trace :=
  ⟨hfailing.server, hreads⟩

/-- What the server does with a request and `payload`, wherever the client may have been written to. -/
theorem server_safe (hn : Reachable client server n) (hfailing : Failing n)
    (hreads : received n <+: t.header ++ payload) {w : World VlessConnection.kind.object}
    (hw : Written (K := VlessConnection.kind) VlessConnection.Fd.client n.right w)
    (hsticky : Sticky (K := VlessConnection.kind) VlessConnection.Fd.client w.trace) :
    VlessConnection.Tunnel.SafeUp payload w.trace ∧ VlessConnection.Tunnel.SafeDown w.trace := by
  have henv : VlessConnection.Tunnel.Env t payload w.trace :=
    ⟨hw.sticky hsticky hfailing.server, (hw.readFrom _).symm ▸ hreads⟩
  have hfresh : (VlessConnection.Tunnel.contract t payload).pre VlessConnection.Task.clientTask
      ⟨{}, []⟩ := ⟨rfl, rfl⟩
  refine hw.invariant VlessConnection.Tunnel.stable (VlessConnection.Tunnel.meets server t payload)
    hfresh (fun w => VlessConnection.Tunnel.SafeUp payload w.trace ∧
      VlessConnection.Tunnel.SafeDown w.trace) ⟨List.nil_prefix, List.nil_prefix⟩ ?_ hn.right henv
  intro task w w' hguar _ hw
  cases task with
  | clientTask => exact ⟨hguar.1 hw.1, hguar.2.1 hw.2⟩
  | targetTask =>
      refine ⟨?_, hguar.2.1⟩
      rw [VlessConnection.Tunnel.SafeUp, wroteTo, hguar.2.2.writes]
      exact hw.1

/-- With its event loop in control the server has forwarded everything, unless a write failed. -/
theorem server_done (hn : Reachable client server n) (hfailing : Failing n)
    (hreads : received n <+: t.header ++ payload) (hstack : n.right.stack = []) :
    VlessConnection.Tunnel.Done t payload n.right.world.trace := by
  have henv := server_env hfailing hreads
  have hfresh : (VlessConnection.Tunnel.contract t payload).pre VlessConnection.Task.clientTask
      ⟨{}, []⟩ := ⟨rfl, rfl⟩
  have hright := hn.right
  have hsound := Contract.sound VlessConnection.Tunnel.stable
    (VlessConnection.Tunnel.meets server t payload) hfresh hright henv
  have hstarted := (frames_ne_none_iff (O := VlessConnection.kind.object) hright
    VlessConnection.Task.clientTask).2 (.inl rfl)
  rcases hsound.suspended_or_finished hstack hstarted with hsuspended | hfinished
  · obtain ⟨-, o, k, hframe, hs⟩ := hsuspended
    exact hsound.parked hframe hs rfl
  · exact hsound.post hfinished rfl

end Server

/-- There is a request the server would accept from the client. -/
theorem exists_tcpRequest (huser : client.uuid ∈ server.validator.users) :
    Nonempty (VlessConnection.TcpRequest server.validator) := by
  obtain ⟨t, -⟩ := @tcpRequest_of_encode client server huser
    ⟨.connect, .ipv4 (List.Vector.replicate 4 0), 0⟩ _ rfl
  exact ⟨t⟩

/-- What the server has got is the beginning of an accepted request and of `payload`, what was read from the
    application since the opening. -/
theorem received_request (huser : client.uuid ∈ server.validator.users)
    (hn : Reachable client server n) :
    ∃ t : VlessConnection.TcpRequest server.validator, ∃ payload,
      received n <+: t.header ++ payload ∧ (payload = [] ∨ ∃ req g r lost header,
        Socks5Connection.Opened client req g r lost header n.left.world.trace ∧
          fromApp n = g ++ r ++ lost ++ payload) := by
  rcases received_shape hn with hnil | ⟨req, g, r, lost, header, body, hopened, hbytes, hread⟩
  · obtain ⟨t⟩ := exists_tcpRequest huser
    refine ⟨t, [], ?_, .inl rfl⟩
    rw [hnil]
    exact List.nil_prefix
  · obtain ⟨t, ht, -⟩ := tcpRequest_of_encode huser hopened.encodes
    exact ⟨t, body, ht.symm ▸ hread, .inr ⟨req, g, r, lost, header, hopened, hbytes⟩⟩

/-! ## Back to the application -/

/-- A response header that the server may have sent is the one without addons. -/
theorem response_header {header data sent : Bytes} (hheader : Encoder.ResponseBytes header)
    (h : header ++ data <+: [0, 0] ++ sent) : data <+: sent := by
  obtain ⟨addonsLen, addons, hlen⟩ := hheader
  rw [List.cons_append, List.cons_append, List.cons_append, List.cons_append, List.cons_prefix_cons,
    List.cons_prefix_cons] at h
  obtain ⟨-, rfl, h⟩ := h
  obtain rfl : addons = [] := List.eq_nil_of_length_eq_zero hlen
  exact h

/-- What the server may have sent to the client. -/
theorem sent_back (huser : client.uuid ∈ server.validator.users) (hn : Reachable client server n)
    (hfailing : Failing n) :
    readFrom (K := Socks5Connection.kind) Socks5Connection.Fd.remote n.left.world.trace <+:
      [0, 0] ++ fromTarget n := by
  obtain ⟨t, payload, hreads, -⟩ := received_request huser hn
  obtain ⟨w, hw, hsticky, hread⟩ := hn.linked.back
  have hsafe := (server_safe hn hfailing hreads hw hsticky).2
  rw [VlessConnection.Tunnel.SafeDown, hw.readFrom] at hsafe
  exact hread.trans hsafe

/-- What the application may be told: that it is turned down, that the request is, or that it is
    granted, followed after a CONNECT by what the target sends. -/
inductive Told (req : Socks5.Request → Prop) (sent : Bytes) : Bytes → Prop
  | refused : Told req sent [5, 0xFF]
  | denied (reply : Socks5.Reply) (bind : Address) (port : UInt16) (answer : Bytes)
      (hreply : reply ≠ .success) (hencode : Socks5.Parser.encodeReply reply bind port = .ok answer) :
      Told req sent ([5, 0] ++ answer)
  | associated (r : Socks5.Request) (bind : Address) (port : UInt16) (answer : Bytes)
      (hencode : Socks5.Parser.encodeReply .success bind port = .ok answer) (hreq : req r)
      (hcmd : r.cmd = .udpAssociate) : Told req sent ([5, 0] ++ answer)
  | connected (r : Socks5.Request) (bind : Address) (port : UInt16) (answer : Bytes)
      (hencode : Socks5.Parser.encodeReply .success bind port = .ok answer) (hreq : req r)
      (hcmd : r.cmd = .connect) : Told req sent ([5, 0] ++ answer ++ sent)

theorem told_of_speaks (huser : client.uuid ∈ server.validator.users) (hn : Reachable client server n)
    (hfailing : Failing n) (h : Socks5Connection.Tunnel.Speaks n.left.world) :
    ∃ line, Told (fun r => Socks5Connection.Requested r n.left.world.trace) (fromTarget n) line ∧
      toApp n <+: line := by
  obtain ⟨line, hline, hwrote⟩ := h
  cases hline with
  | refused => exact ⟨_, .refused, hwrote⟩
  | denied reply bind port answer hreply hencode =>
      exact ⟨_, .denied reply bind port answer hreply hencode, hwrote⟩
  | associated req bind port answer hencode hreq hcmd hbound =>
      exact ⟨_, .associated req bind port answer hencode hreq hcmd, hwrote⟩
  | connected req bind port answer header data hencode hreq hcmd hfd hheader hread =>
      refine ⟨_, .connected req bind port answer hencode hreq hcmd, hwrote.trans ?_⟩
      have hback := sent_back huser hn hfailing
      rw [hread] at hback
      exact (List.prefix_append_right_inj _).2 (response_header hheader hback)

end EndToEnd

namespace EndToEnd

/-! ## A conversation -/

/-- What the sample application says, one piece a read. -/
def sampleApp : List Bytes := [[5, 1, 0], Socks5Connection.plainConnect, [42], [43]]

/-- The request the client makes of it. -/
def sampleHeader : Bytes := 0 :: List.replicate 16 0 ++ [0, 1, 0, 80, 1, 127, 0, 0, 1]

/-- Everything that was read is known to be written. -/
abbrev Settled : Session → Prop :=
  Channel.Settled (K := Socks5Connection.kind) (L := VlessConnection.kind) Socks5Connection.Fd.remote
    VlessConnection.Fd.client

def sampleStart : Session :=
  @Network.start Socks5Connection.kind.object VlessConnection.kind.object _ _
    (Socks5Connection.body Socks5Connection.plainClient) (VlessConnection.body VlessConnection.plainServer)
    Socks5Connection.Task.clientTask {} VlessConnection.Task.clientTask {}

/-- The request, the answers, and the rest of what the application says, the target sending `9`. -/
def conversation : Session :=
  playAll (K := Socks5Connection.kind) (L := VlessConnection.kind)
    (Socks5Connection.body Socks5Connection.plainClient) (VlessConnection.body VlessConnection.plainServer)
    ((Socks5Connection.peers sampleApp [[0, 0, 9]]).resolving ⟨.inet, [127, 0, 0, 1], 443⟩)
    (VlessConnection.peers [sampleHeader, [42], [43]] [[9]]).env 40 Socks5Connection.Fd.remote
    VlessConnection.Fd.client
    [.left (List.replicate 5 .clientTask),
      .right (List.replicate 3 .clientTask ++ List.replicate 2 .targetTask),
      .left (List.replicate 9 .clientTask), .right (List.replicate 6 .clientTask)] sampleStart

theorem conversation_reachable :
    Reachable Socks5Connection.plainClient VlessConnection.plainServer conversation := by
  have hsettled : Settled sampleStart := by decide +kernel
  exact playAll_reachable (K := Socks5Connection.kind) (L := VlessConnection.kind) _
    ⟨hsettled.channel, .refl⟩ hsettled

theorem needsAuth_of_wrote {e : Event VlessConnection.kind.object} {x : Bytes × Bool}
    (h : wrote (K := VlessConnection.kind) VlessConnection.Fd.client e = some x) :
    VlessConnection.Gate.NeedsAuth e := by
  cases e with
  | io o r =>
      cases o with
      | inr o => cases h
      | inl o =>
          cases o with
          | send fd data =>
              cases fd with
              | client => exact trivial
              | target => cases h
          | tlsWriteFull fd data =>
              cases fd with
              | client => exact trivial
              | target => cases h
          | _ => cases h
  | sys c => cases h
  | spawned t => cases h

theorem conversation_failing : Failing conversation :=
  ⟨fun fd => by cases fd <;> decide +kernel, fun fd => by cases fd <;> decide +kernel⟩

end EndToEnd

end Cppvless
