import Cppvless.Net.Relay
import Cppvless.Socks5.Protocol
import Cppvless.Vless.Encoder

set_option autoImplicit false

/-! # Connecting to a VLESS server

`src/client/vless_client.cpp`: what the two kinds of SOCKS5 sessions share. -/

namespace Cppvless

open Coroutine

/-- `VlessClientConfig`, with `tlsCtx` for whether the pointer is set. -/
structure VlessClientConfig where
  remoteHost : Bytes
  remotePort : UInt16 := 443
  uuid : Uuid := List.Vector.replicate 16 0
  tlsEnabled : Bool := false
  tlsCtx : Bool := false

def toVlessRequest (req : Socks5.Request) (cmd : Command) : Request :=
  { command := cmd, port := req.port, address := req.address }

/-- The request with the UUID of the user, as it is sent. -/
def VlessClientConfig.request (cfg : VlessClientConfig) (vlessReq : Request) : Request :=
  { vlessReq with uuid := cfg.uuid }

namespace VlessClient

variable {K : Kind} (fd : K.Fd) (cfg : VlessClientConfig)

/-- `resolveRemote`: the first address. -/
def resolveRemote : K.Prog (Option SockAddr) := do
  -- `c_str()` ends at the first zero byte
  let res ← net (.getaddrinfo (cfg.remoteHost.takeWhile (· ≠ 0)) cfg.remotePort .stream)
  return (res : Option (List SockAddr)).bind List.head?

/-- `::close(fd)`, and no result. -/
def giveUp {α : Type} : K.Prog (Option α) := do
  Prog.member (O := K.object) fun s => (s, [.close fd])
  return none

/-- The stream over the connected socket. -/
def openStream : K.Prog (Option (NetStream K.Fd)) :=
  if cfg.tlsEnabled then
    if !cfg.tlsCtx then
      return none
    else do
      let handshake ← net (.tlsHandshake fd)
      return if handshake then some (.tls fd) else none
  else
    return some (.async fd)

/-- The exchange of headers, and what was read beyond the response. -/
def exchangeHeaders (vlessReq : Request) (stream : NetStream K.Fd) : K.Prog (Option Bytes) := do
  let requestBytes ← Coro.ofExcept (Encoder.encodeRequest (cfg.request vlessReq))
  let sent ← stream.writeFull requestBytes
  if sent ≤ 0 then
    return none
  else
    let (ok, buffered) ← UringBufferedStream.parse stream.read Encoder.decodeResponse .empty
    let ok ← Coro.ofExcept ok
    return if ok then some buffered.drainRemaining.1 else none

/-- `vlessConnectAndHandshake`, on the socket `fd`: the stream and the bytes read too far, if it
    succeeds. -/
def vlessConnectAndHandshake (vlessReq : Request) : K.Prog (Option (NetStream K.Fd × Bytes)) := do
  match ← resolveRemote cfg with
  | none => return none
  | some remoteAddr =>
      let opened ← net (.socket fd remoteAddr.family .stream)
      if !opened then
        return none
      else
        let connectResult ← net (.connect fd remoteAddr)
        if (connectResult : Int) < 0 then
          giveUp fd
        else
          match ← openStream fd cfg with
          | none => giveUp fd
          | some stream =>
              match ← exchangeHeaders cfg vlessReq stream with
              | none => giveUp fd
              | some remaining => return some (stream, remaining)

theorem only_openStream {P : ObjOp K.object → Prop} (hhandshake : P (.io (.inl (.tlsHandshake fd)))) :
    Only P (openStream fd cfg) := by
  refine .ite (fun _ => .ite (fun _ => trivial) fun _ => ?_) fun _ => trivial
  exact .bind (.await hhandshake) fun _ => trivial

theorem only_exchangeHeaders {P : ObjOp K.object → Prop} (vlessReq : Request) (stream : NetStream K.Fd)
    (hread : ∀ o : NetOp K.Fd, o.Reads stream.fd → P (.io (.inl o)))
    (hwrite : ∀ o : NetOp K.Fd, o.Writes stream.fd → P (.io (.inl o))) :
    Only P (exchangeHeaders cfg vlessReq stream) := by
  refine .bind (c := Coro.ofExcept _) trivial fun bytes => ?_
  refine .bind (stream.only_writeFull _ hwrite) fun _ => ?_
  refine .ite (fun _ => trivial) fun _ => .bind ?_ fun (ok, buffered) => ?_
  · exact UringBufferedStream.only_parse (stream.only_read _ hread) _ _
  · exact .bind (c := Coro.ofExcept ok) trivial fun _ => trivial

/-- The handshake awaits operations on streams, which end no stream, and closes the socket if it
    fails. -/
theorem only_vlessConnectAndHandshake {P : ObjOp K.object → Prop}
    (hnet : ∀ o : NetOp K.Fd, (∀ fd, ¬ o.Shuts fd) → P (.io (.inl o)))
    (hclose : P (.member fun s => (s, [.close fd]))) (vlessReq : Request) :
    Only P (vlessConnectAndHandshake fd cfg vlessReq) := by
  have hgiveUp : Only P (giveUp (K := K) (α := NetStream K.Fd × Bytes) fd) :=
    .bind (.await hclose) fun _ => trivial
  refine .bind (.bind (.await (hnet _ fun _ => id)) fun _ => trivial) fun addr => ?_
  cases addr with
  | none => trivial
  | some addr =>
      refine .bind (.await (hnet _ fun _ => id)) fun opened => .ite (fun _ => trivial) fun _ => ?_
      refine .bind (.await (hnet _ fun _ => id)) fun result => .ite (fun _ => hgiveUp) fun _ => ?_
      refine .bind (only_openStream fd cfg (hnet _ fun _ => id)) fun stream => ?_
      cases stream with
      | none => exact hgiveUp
      | some stream =>
          refine .bind (only_exchangeHeaders cfg vlessReq stream
            (fun _ ho => hnet _ fun _ => ho.not_shuts) fun _ ho => hnet _ fun _ => ho.not_shuts)
            fun remaining => ?_
          cases remaining with
          | none => exact hgiveUp
          | some remaining => trivial

section Returns

variable {C : Contract K.object} {t : K.Task} {P : ObjOp K.object → Prop}
  {F : World K.object → Prop} {w : World K.object}

theorem wp_openStream_of (hF : Frame C t P F) (hhandshake : P (.io (.inl (.tlsHandshake fd))))
    (hw : F w) :
    wp C t (openStream fd cfg)
      (fun res w' => F w' ∧ ∀ stream, res = .ok (some stream) → stream.fd = fd) w := by
  rw [openStream]
  split
  · split
    · exact ⟨hw, by simp⟩
    · refine wp_seq (wp_of_uses hF (.await hhandshake) hw) ?_ fun _ _ h => ⟨h, by simp⟩
      intro handshake w hw
      refine ⟨hw, fun stream hstream => ?_⟩
      cases handshake with
      | false => simp at hstream
      | true => simp [← Option.some.inj (Except.ok.inj hstream), NetStream.fd]
  · refine ⟨hw, fun stream hstream => ?_⟩
    simp [← Option.some.inj (Except.ok.inj hstream), NetStream.fd]

/-- The stream it returns is on the socket. -/
theorem wp_vlessConnectAndHandshake_of (hF : Frame C t P F)
    (hnet : ∀ o : NetOp K.Fd, (∀ fd, ¬ o.Shuts fd) → P (.io (.inl o)))
    (hclose : P (.member fun s => (s, [.close fd]))) (vlessReq : Request) (hw : F w) :
    wp C t (vlessConnectAndHandshake fd cfg vlessReq) (fun res w' => F w' ∧
      ∀ stream remaining, res = .ok (some (stream, remaining)) → stream.fd = fd) w := by
  have hgiveUp : ∀ {w}, F w → wp C t (giveUp (K := K) (α := NetStream K.Fd × Bytes) fd) (fun res w' =>
      F w' ∧ ∀ stream remaining, res = .ok (some (stream, remaining)) → stream.fd = fd) w := by
    intro w hw
    refine wp_seq (wp_of_uses hF (.await hclose) hw) ?_ fun _ _ h => ⟨h, by simp⟩
    exact fun _ _ h => ⟨h, by simp⟩
  have hresolve : Only P (resolveRemote (K := K) cfg) :=
    .bind (.await (hnet _ fun _ => id)) fun _ => trivial
  refine wp_seq (wp_of_uses hF hresolve hw) ?_ fun _ _ h => ⟨h, by simp⟩
  intro addr w hw
  cases addr with
  | none => exact ⟨hw, by simp⟩
  | some addr =>
      refine wp_seq (wp_of_uses hF (.await (hnet (.socket fd addr.family .stream) fun _ => id)) hw) ?_
        fun _ _ h => ⟨h, by simp⟩
      intro opened w hw
      cases opened with
      | false => exact ⟨hw, by simp⟩
      | true =>
          refine wp_seq (wp_of_uses hF (.await (hnet (.connect fd addr) fun _ => id)) hw) ?_
            fun _ _ h => ⟨h, by simp⟩
          intro connectResult w hw
          split
          · exact hgiveUp hw
          · refine wp_seq (wp_openStream_of fd cfg hF (hnet _ fun _ => id) hw) ?_ fun _ _ h => ⟨h.1, by simp⟩
            intro stream w hw
            cases stream with
            | none => exact hgiveUp hw.1
            | some stream =>
                refine wp_seq (wp_of_uses hF (only_exchangeHeaders cfg vlessReq stream
                  (fun _ ho => hnet _ fun _ => ho.not_shuts)
                  fun _ ho => hnet _ fun _ => ho.not_shuts) hw.1) ?_ fun _ _ h => ⟨h, by simp⟩
                intro remaining w hnext
                cases remaining with
                | none => exact hgiveUp hnext
                | some remaining =>
                    refine ⟨hnext, fun s rest hres => ?_⟩
                    obtain ⟨rfl, rfl⟩ := Prod.mk.inj (Option.some.inj (Except.ok.inj hres))
                    exact hw.2 stream rfl

end Returns

end VlessClient

end Cppvless
