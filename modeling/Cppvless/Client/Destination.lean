import Cppvless.Client.VlessClient

set_option autoImplicit false

/-! # The destination of a session

What the application asks for reaches the VLESS server unchanged. A session reads a greeting and a
request from one buffered stream (`receive`), translates the request, and encodes it for the server,
which decodes it. The two protocols number the address types differently and put port and address in
opposite order; the grammars of both ends speak of one `Address`, and that is what is compared. -/

namespace Cppvless

open Coroutine Coro

namespace Socks5

/-- The parsers of a session on its stream: `readGreeting`, and `readRequest` if the application
    accepts no authentication. -/
def receive (stream : UringBufferedStream) :
    Coro Exn readSig (Except Exn (Option Request) × UringBufferedStream) := do
  let (noAuth, stream) ← UringBufferedStream.parse Source.read Parser.readGreeting stream
  match noAuth with
  | .error e => return (.error e, stream)
  | .ok false => return (.ok none, stream)
  | .ok true =>
      let (req, stream) ← UringBufferedStream.parse Source.read Parser.readRequest stream
      return (req.map some, stream)

/-- On a fresh buffered stream over `src` the parsers end with `res`, nothing being a greeting that
    was turned down, and `rest` is what they leave. -/
def Receives (src : Source) (res : Except Exn (Option Request)) (rest : Bytes) : Prop :=
  ∃ stream src', Eval Source.deliver (receive .empty) src (.ok (res, stream)) src' ∧
    stream.unread ++ src'.bytes = rest

/-- `bytes` is a greeting that offers no authentication, and the request `req`. -/
def Opening (bytes : Bytes) (req : Request) : Prop :=
  ∃ greeting request, GreetingBytes greeting true ∧ RequestBytes request req ∧
    bytes = greeting ++ request

/-- A stream begins with one opening at most. -/
theorem Opening.unique {opening opening' rest rest' : Bytes} {req req' : Request}
    (h : Opening opening req) (h' : Opening opening' req')
    (heq : opening ++ rest = opening' ++ rest') : req = req' ∧ rest = rest' := by
  obtain ⟨greeting, request, hg, hr, rfl⟩ := h
  obtain ⟨greeting', request', hg', hr', rfl⟩ := h'
  rw [List.append_assoc, List.append_assoc] at heq
  obtain ⟨-, -, hrest⟩ := Parser.readGreeting_accepts.unique hg hg' heq
  obtain ⟨-, hreq, hrest⟩ := Parser.readRequest_accepts.unique hr hr' hrest
  exact ⟨hreq, hrest⟩

/-- **What the parsers of a session do**, however the stream is cut: they return the request and leave
    what follows it, if the stream begins with an opening, and otherwise turn the greeting down or
    throw. -/
theorem receives_of (src : Source) :
    (∃ req rest opening, Opening opening req ∧ src.bytes = opening ++ rest ∧
        Receives src (.ok (some req)) rest) ∨
      (∀ opening req rest, Opening opening req → src.bytes ≠ opening ++ rest) ∧
        ∃ res rest, Receives src res rest ∧ (res = .ok none ∨ ∃ e, res = .error e) := by
  obtain ⟨stream, src₁, hev, hleft⟩ :=
    UringBufferedStream.eval_parse Parser.readGreeting .empty src
  have hempty : UringBufferedStream.empty.unread ++ src.bytes = src.bytes := rfl
  rw [hempty] at hev hleft
  -- an opening begins with a greeting that is accepted
  have hgreeting : ∀ opening req rest, Opening opening req → src.bytes = opening ++ rest →
      ∃ request, RequestBytes request req ∧
        Parser.readGreeting.run src.bytes = (.ok true, request ++ rest) := by
    rintro opening req rest ⟨greeting, request, hg, hr, rfl⟩ hsrc
    exact ⟨request, hr, (Parser.readGreeting_accepts _ true _).2
      ⟨greeting, hg, by rw [hsrc, List.append_assoc]⟩⟩
  cases hres : (Parser.readGreeting.run src.bytes).1 with
  | error e =>
      rw [hres] at hev
      refine .inr ⟨fun opening req rest ho hsrc => ?_, .error e, _, ⟨stream, src₁, ?_, rfl⟩,
        .inr ⟨e, rfl⟩⟩
      · obtain ⟨request, -, hrun⟩ := hgreeting opening req rest ho hsrc
        rw [hrun] at hres
        exact nomatch hres
      · exact hev.bind (.done _ _)
  | ok noAuth =>
      rw [hres] at hev
      cases noAuth with
      | false =>
          refine .inr ⟨fun opening req rest ho hsrc => ?_, .ok none, _, ⟨stream, src₁, ?_, rfl⟩,
            .inl rfl⟩
          · obtain ⟨request, -, hrun⟩ := hgreeting opening req rest ho hsrc
            rw [hrun] at hres
            exact nomatch hres
          · exact hev.bind (.done _ _)
      | true =>
          obtain ⟨greeting, hg, hsrc⟩ := (Parser.readGreeting_accepts _ true _).1 (Prod.ext hres rfl)
          obtain ⟨stream', src₂, hev', hleft'⟩ :=
            UringBufferedStream.eval_parse Parser.readRequest stream src₁
          rw [hleft] at hev' hleft'
          have hreceive : Eval Source.deliver (receive .empty) src
              (.ok ((Parser.readRequest.run (Parser.readGreeting.run src.bytes).2).1.map some,
                stream')) src₂ := hev.bind (hev'.bind (.done _ _))
          cases hreq : (Parser.readRequest.run (Parser.readGreeting.run src.bytes).2).1 with
          | error e =>
              rw [hreq] at hreceive
              refine .inr ⟨fun opening req rest ho hsrc' => ?_, .error e, _,
                ⟨stream', src₂, hreceive, rfl⟩, .inr ⟨e, rfl⟩⟩
              obtain ⟨request, hr, hrun⟩ := hgreeting opening req rest ho hsrc'
              have hok := (Parser.readRequest_accepts _ req rest).2 ⟨request, hr, rfl⟩
              rw [hrun, hok] at hreq
              exact nomatch hreq
          | ok req =>
              rw [hreq] at hreceive
              obtain ⟨request, hr, hrest⟩ :=
                (Parser.readRequest_accepts _ req _).1 (Prod.ext hreq rfl)
              refine .inl ⟨req, _, greeting ++ request, ⟨greeting, request, hg, hr, rfl⟩, ?_,
                stream', src₂, hreceive, hleft'⟩
              rw [List.append_assoc, ← hrest]
              exact hsrc

/-- An address that was read is short enough to be written. -/
theorem RequestBytes.encodeRequest {bytes : Bytes} {req : Request} (h : RequestBytes bytes req)
    (cfg : VlessClientConfig) (cmd : Cppvless.Command) :
    ∃ enc, Encoder.encodeRequest (cfg.request (toVlessRequest req cmd)) = .ok enc := by
  cases henc : Encoder.encodeRequest (cfg.request (toVlessRequest req cmd)) with
  | ok enc => exact ⟨enc, rfl⟩
  | error e =>
      obtain ⟨name, hname, hlong⟩ := (Encoder.encodeRequest_error_iff _).1 ⟨e, henc⟩
      obtain ⟨_, _, _, _, bs, address, haddr⟩ := h
      have haddress : address = .domain name := hname
      subst haddress
      cases haddr with
      | domain n _ hlen =>
          have hn := n.toNat_lt
          omega

end Socks5

/-- **The destination survives the translation.** If a stream begins with a greeting that offers no
    authentication and a request, then, however it is cut, the parsers of the session return that
    request and leave exactly what follows. What the session then sends to the VLESS server, over
    TCP or for UDP, is decoded there, however that is cut, to the same address and port. If a
    stream does not begin this way, the greeting is turned down or one of the parsers throws. -/
theorem destination_survives (src : Source) :
    (∀ opening req rest, Socks5.Opening opening req → src.bytes = opening ++ rest →
      Socks5.Receives src (.ok (some req)) rest ∧
      ∀ (validator : Validator) (cfg : VlessClientConfig), cfg.uuid ∈ validator.users →
        ∀ cmd : Command, cmd = .tcp ∨ cmd = .udp →
          ∃ enc, Encoder.encodeRequest (cfg.request (toVlessRequest req cmd)) = .ok enc ∧
            ∀ (src' : Source) (more : Bytes), src'.bytes = enc ++ more →
              ∃ vreq, Decodes validator src' (.ok vreq) more ∧ vreq.address = req.address ∧
                vreq.port = req.port ∧ vreq.command = cmd ∧ vreq.uuid = cfg.uuid) ∧
    ((∀ opening req rest, Socks5.Opening opening req → src.bytes ≠ opening ++ rest) →
      ∃ res rest, Socks5.Receives src res rest ∧ (res = .ok none ∨ ∃ e, res = .error e)) := by
  have hreceives := Socks5.receives_of src
  refine ⟨fun opening req rest ho hsrc => ⟨?_, ?_⟩, fun hnot => ?_⟩
  · rcases hreceives with ⟨req', rest', opening', ho', hsrc', hreceived⟩ | ⟨hnot, -⟩
    · obtain ⟨rfl, rfl⟩ := ho'.unique ho (hsrc'.symm.trans hsrc)
      exact hreceived
    · exact absurd hsrc (hnot opening req rest ho)
  · intro validator cfg huser cmd hcmd
    obtain ⟨_, request, -, hr, -⟩ := ho
    obtain ⟨enc, henc⟩ := hr.encodeRequest cfg cmd
    refine ⟨enc, henc, fun src' more hsrc' => ?_⟩
    have hdecodes := (decodes_encodeRequest validator _ hcmd huser).2 enc more src' henc hsrc'
    exact ⟨_, hdecodes, rfl, rfl, rfl, rfl⟩
  · rcases hreceives with ⟨req, rest, opening, ho, hsrc, -⟩ | ⟨-, hreceived⟩
    · exact absurd hsrc (hnot opening req rest ho)
    · exact hreceived

/-- A greeting and a request for port 53 of the empty domain, cut in the greeting, and a byte more. -/
def emptyDomainOpening : Source :=
  ⟨[⟨[5], by decide⟩, ⟨[1, 0, 5, 1, 0, 3, 0, 0, 53, 9], by decide⟩], ⟨.ofBytes [], RecvResult.not_ok_ofBytes_nil⟩⟩

/-- The header a client with the UUID of sevens sends for it, for UDP, cut in the UUID, and a byte
    more. -/
def emptyDomainHeader : Source :=
  ⟨[⟨0 :: List.replicate 9 7, by decide⟩,
    ⟨List.replicate 7 7 ++ [0, 2, 0, 53, 2, 0, 0xAA], by decide⟩], ⟨.ofBytes [], RecvResult.not_ok_ofBytes_nil⟩⟩

theorem destination_survives_emptyDomain :
    Socks5.Receives emptyDomainOpening (.ok (some ⟨.connect, .domain [], 53⟩)) [9] ∧
      ∃ vreq, Decodes ⟨[List.Vector.replicate 16 7], List.nodup_singleton _⟩ emptyDomainHeader
        (.ok vreq) [0xAA] ∧ vreq.address = .domain [] ∧ vreq.port = 53 := by
  have hopening : Socks5.Opening [5, 1, 0, 5, 1, 0, 3, 0, 0, 53] ⟨.connect, .domain [], 53⟩ :=
    ⟨[5, 1, 0], [5, 1, 0, 3, 0, 0, 53], .methods 1 [0] (by decide) rfl,
      .mk 1 0 0 53 [3, 0] _ (.domain 0 [] rfl), rfl⟩
  obtain ⟨hreceived, hsurvives⟩ :=
    (destination_survives emptyDomainOpening).1 _ _ [9] hopening (by decide)
  obtain ⟨enc, henc, hdecoded⟩ := hsurvives
    ⟨[List.Vector.replicate 16 7], List.nodup_singleton _⟩
    ⟨[], 443, List.Vector.replicate 16 7, false, false⟩ (by decide) .udp (.inr rfl)
  have hbytes : enc = 0 :: List.replicate 16 7 ++ [0, 2, 0, 53, 2, 0] :=
    Except.ok.inj (henc.symm.trans (by decide))
  have hsplit : emptyDomainHeader.bytes = enc ++ [0xAA] := by
    rw [hbytes]
    decide
  obtain ⟨vreq, hvreq, haddress, hport, -⟩ := hdecoded emptyDomainHeader [0xAA] hsplit
  exact ⟨hreceived, vreq, hvreq, haddress, hport⟩

end Cppvless
