import Cppvless.Client.Socks5Connection

set_option autoImplicit false

/-! # The handshakes of a SOCKS5 session

A session speaks two protocols before it relays: with the application it reads a greeting and a
request from `stream_`, with the VLESS server it exchanges headers. Each rule is for a time in which
nobody else is there. What was read is cut where the messages end, however it arrived: the rest is
in the buffer (`Listening`), or is returned with the stream (`Exchanged`). -/

namespace Cppvless

open Coroutine

/-- `bytes` were written to `fd`, or what went through before a write failed. -/
def Wrote {K : Kind} (fd : K.Fd) (bytes : Bytes) (tr : List (Event K.object)) : Prop :=
  wroteTo fd tr = bytes ∨ WriteFailed fd tr ∧ wroteTo fd tr <+: bytes

/-- What was written of a flow before its loop. -/
theorem Wrote.carries {K : Kind} {f : Flow K.Fd} {body : Bytes} {tr : List (Event K.object)}
    (h : Wrote f.dst (f.lead ++ body) tr) (hread : readFrom f.src tr = f.skip ++ body) :
    f.Carries [] tr := by
  rcases h with hwrote | ⟨hfailed, hwrote⟩
  · exact .inl ⟨body, hread, by rw [List.append_nil, hwrote]⟩
  · exact .inr ⟨body, hread, hfailed, hwrote⟩

theorem Wrote.written {K : Kind} {fd : K.Fd} {bytes : Bytes} {tr : List (Event K.object)}
    (h : Wrote fd bytes tr) : wroteTo fd tr <+: bytes := by
  rcases h with rfl | ⟨-, hwrote⟩
  · exact List.prefix_rfl
  · exact hwrote

namespace VlessClient

variable {K : Kind} {C : Contract K.object} {t : K.Task} {fd : K.Fd} {B : Bytes → Prop}
  {I : World K.object → Prop} {w : World K.object}

/-- `I` holds while `t` alone is there and deals with `fd`, what it has written there being in `B`. -/
structure Opens (C : Contract K.object) (t : K.Task) (fd : K.Fd) (B : Bytes → Prop)
    (I : World K.object → Prop) : Prop where
  alone : ∀ w w', I w → ¬ C.rely t w w'
  parked : ∀ (o : NetOp K.Fd) w, I w → C.parked t (.inl o) w
  guar : ∀ w w', I w → I w' → C.guar t w w'
  push : ∀ w e, I w → (∀ fd', fd' ≠ fd → heard fd' e = none) →
    (∀ fd', fd' ≠ fd → wrote fd' e = none) → B (wroteTo fd (w.push e).trace) → I (w.push e)
  close : ∀ w, I w → I (w.call fun s => (s, [.close fd]))

/-- `bs` is the beginning of a request. -/
def Beginning (cfg : VlessClientConfig) (vlessReq : Request) (bs : Bytes) : Prop :=
  bs = [] ∨ ∃ request, Encoder.encodeRequest (cfg.request vlessReq) = .ok request ∧ bs <+: request

/-- The request was sent, and `remaining` is what was read beyond the response. -/
structure Exchanged (fd : K.Fd) (cfg : VlessClientConfig) (vlessReq : Request) (remaining : Bytes)
    (tr : List (Event K.object)) : Prop where
  sent : ∃ bytes, Encoder.encodeRequest (cfg.request vlessReq) = .ok bytes ∧ Wrote fd bytes tr
  response : ∃ header, Encoder.ResponseBytes header ∧ readFrom fd tr = header ++ remaining

/-- Nothing was read from the server yet, and `bytes` are still to be written of the request
    `written ++ bytes`. -/
structure Sending (fd : K.Fd) (I : World K.object → Prop) (request bytes : Bytes)
    (w : World K.object) : Prop where
  kept : I w
  pieces : chunksFrom fd w.trace = []
  wrote : wroteTo fd w.trace ++ bytes = request

/-- The pieces read from the server are `chunks`. -/
structure Receiving (fd : K.Fd) (I : World K.object → Prop) (request : Bytes) (chunks : List Bytes)
    (w : World K.object) : Prop where
  kept : I w
  pieces : chunksFrom fd w.trace = chunks
  wrote : Wrote fd request w.trace

theorem Opens.stays (hC : Opens C t fd B I) (S : NetOp K.Fd → Prop) {J : World K.object → Prop}
    (hJ : ∀ w, J w → I w) : Stays C t S J :=
  ⟨fun w w' hw hr => absurd hr (hC.alone w w' (hJ w hw)), fun o w _ hw => hC.parked o w (hJ w hw)⟩

/-- An answer that moves no byte. -/
theorem Sending.quiet (hC : Opens C t fd B I) {request bytes : Bytes} (hB : B (wroteTo fd w.trace))
    (hw : Sending fd I request bytes w) {e : Event K.object} (he : IsQuiet e) :
    Sending fd I request bytes (w.push e) where
  kept := by
    refine hC.push w e hw.kept (fun _ _ => he.heard_none _) (fun _ _ => he.wrote_none _) ?_
    rwa [World.push_trace, wroteTo_append, wroteTo_other (he.wrote_none _), List.append_nil]
  pieces := by simp [chunksFrom_other (he.heard_none _), hw.pieces]
  wrote := by simpa [wroteTo_other (he.wrote_none _)] using hw.wrote

theorem Sending.wrote_nil (hw : Sending fd I [] [] w) : wroteTo fd w.trace = [] := by
  simpa using hw.wrote

theorem encodeRequest_ne_nil {req : Request} {bytes : Bytes}
    (h : Encoder.encodeRequest req = .ok bytes) : bytes ≠ [] := by
  obtain ⟨abs, -, rfl⟩ := Encoder.writeAddress_bytes h
  simp

section Wp

variable (cfg : VlessClientConfig) (vlessReq : Request)

theorem wp_sendRequest (hC : Opens C t fd B I) {stream : NetStream K.Fd} (hstream : stream.fd = fd)
    {request : Bytes} (hrequest : request ≠ []) (hB : ∀ bs, bs <+: request → B bs)
    (hw : Sending fd I request request w) :
    wp C t (stream.writeFull request) (Returns fun _ w' => Receiving fd I request [] w') w := by
  refine wp_returns (stream.wp_writeFull (P := Sending fd I request)
    (F := Receiving fd I request []) ?_ ?_ hrequest hw) ?_
  · exact fun rest => hC.stays _ fun w hw => hw.kept
  · intro w e out rest failed hw he henv
    rw [hstream] at he
    have hpieces : chunksFrom fd (w.push e).trace = [] := by
      simp [chunksFrom_other (he.heard_none _), hw.pieces]
    have hwrote : wroteTo fd (w.push e).trace ++ rest = request := by
      rw [← hw.wrote, World.push_trace, wroteTo_append, wroteTo_single he.wrote_self,
        List.append_assoc]
    have hkept := hC.push w e hw.kept (fun _ _ => he.heard_none _) (fun fd' h => he.wrote_other fd' h)
      (hB _ ⟨rest, hwrote⟩)
    refine ⟨hC.guar _ _ hw.kept hkept, ?_⟩
    cases failed with
    | false => exact ⟨hkept, hpieces, hwrote⟩
    | true =>
        refine ⟨hkept, hpieces, .inr ⟨?_, rest, hwrote⟩⟩
        exact (writeFailed_append _ _ _).2 (.inr ((writeFailed_single he.wrote_self).2 rfl))
  · intro n w' hw'
    have hdone : Sending fd I request [] w' → Receiving fd I request [] w' := by
      intro hw'
      exact ⟨hw'.kept, hw'.pieces, .inl (by simpa using hw'.wrote)⟩
    rcases hw' with ⟨-, hw' | hw'⟩ | ⟨-, hw'⟩
    · exact hdone hw'
    · exact hw'
    · exact hw'

theorem wp_read_response (hC : Opens C t fd B I) {stream : NetStream K.Fd} (hstream : stream.fd = fd)
    {request : Bytes} {chunks : List Bytes} (hB : ∀ bs, bs <+: request → B bs)
    (hw : Receiving fd I request chunks w) :
    wp C t (stream.read (K := K)) (Returns fun rr w' => if rr.ok
      then Receiving fd I request (chunks ++ [rr.data]) w' else Receiving fd I request chunks w') w := by
  refine stream.wp_read _ (hC.stays _ fun w (hw : Receiving fd I request chunks w) => hw.kept) hw ?_
  intro w e rr hw he _ _
  rw [hstream] at he
  have hwrote : Wrote fd request (w.push e).trace := by
    have hnone := he.wrote_none fd
    simpa [Wrote, wroteTo_other hnone, writeFailed_other hnone] using hw.wrote
  have hkept := hC.push w e hw.kept (fun fd' h => he.heard_other fd' h) (fun _ _ => he.wrote_none _)
    (hB _ hwrote.written)
  refine ⟨hC.guar _ _ hw.kept hkept, ?_⟩
  have hpieces := chunksFrom_single he.heard_self
  show if rr.ok = true then _ else _
  split
  · next hok =>
      rw [if_pos hok] at hpieces
      exact ⟨hkept, by rw [World.push_trace, chunksFrom_append, hw.pieces, hpieces], hwrote⟩
  · next hok =>
      rw [if_neg hok] at hpieces
      exact ⟨hkept, by rw [World.push_trace, chunksFrom_append, hw.pieces, hpieces, List.append_nil],
        hwrote⟩

theorem wp_exchangeHeaders (hC : Opens C t fd (Beginning cfg vlessReq) I) {stream : NetStream K.Fd}
    (hstream : stream.fd = fd)
    (hw : Sending fd I [] [] w) :
    wp C t (exchangeHeaders cfg vlessReq stream) (Ends (fun res w' => I w' ∧
      ∀ remaining, res = some remaining → Exchanged fd cfg vlessReq remaining w'.trace) I) w := by
  unfold exchangeHeaders
  cases hencode : Encoder.encodeRequest (cfg.request vlessReq) with
  | error e => exact hw.kept
  | ok request =>
      have hsending : Sending fd I request request w := by
        refine ⟨hw.kept, hw.pieces, ?_⟩
        have hnone := hw.wrote
        rw [List.append_nil] at hnone
        rw [hnone, List.nil_append]
      show wp C t (stream.writeFull request >>= _) _ w
      have hB : ∀ bs, bs <+: request → Beginning cfg vlessReq bs :=
        fun bs hbs => .inr ⟨request, hencode, hbs⟩
      refine wp_then (wp_sendRequest hC hstream (encodeRequest_ne_nil hencode) hB hsending) ?_
      intro sent w hw
      split
      · exact ⟨hw.kept, nofun⟩
      · have hparse := UringBufferedStream.wp_parse_of (C := C)
          (Φ := Receiving fd I request) (Ψ := Receiving fd I request)
          (fun chunks w hw => wp_read_response hC hstream hB hw)
          Encoder.decodeResponse_stopsShort .empty hw (.inl rfl)
        refine wp_then hparse ?_
        rintro ⟨res, buffered⟩ w ⟨got, hrun, -, hread⟩
        have hw : Receiving fd I request got w := hread.elim id (·.2)
        cases res with
        | error e => exact hw.kept
        | ok ok =>
            refine ⟨hw.kept, fun remaining hremaining => ⟨⟨request, hencode, hw.wrote⟩, ?_⟩⟩
            cases ok with
            | false => cases hremaining
            | true =>
                obtain ⟨header, hheader, hbytes⟩ := Encoder.decodeResponse_header hrun
                refine ⟨header, hheader, ?_⟩
                obtain rfl : buffered.drainRemaining.1 = remaining := Option.some.inj hremaining
                rw [readFrom, hw.pieces, UringBufferedStream.drainRemaining_fst]
                simpa using hbytes

theorem wp_giveUp {α : Type} (hC : Opens C t fd B I) (hw : I w) :
    wp C t (giveUp (K := K) (α := α) fd) (Returns fun res w' => I w' ∧ ∀ a, res ≠ some a) w := by
  have hclosed := hC.close w hw
  exact wp_member_seq fun _ => ⟨hC.guar _ _ hw hclosed, hclosed, nofun⟩

/-- A blocking call. -/
theorem wp_blocking (hC : Opens C t fd B I) {o : NetOp K.Fd} (hs : o.suspends = false)
    (hr : ∀ fd, ¬ o.Reads fd) (hwr : ∀ fd, ¬ o.Writes fd) (hB : B []) (hw : Sending fd I [] [] w) :
    wp C t (net o) (Returns fun _ w' => Sending fd I [] [] w') w := by
  refine wp_call (O := K.object) hs fun r _ => ?_
  have hnext := hw.quiet hC (hw.wrote_nil ▸ hB) (isQuiet_net hr hwr r)
  exact ⟨hC.guar _ _ hw.kept hnext.kept, hnext⟩

/-- An operation that moves no byte. -/
theorem wp_quiet (hC : Opens C t fd B I) {o : NetOp K.Fd} (hs : o.suspends = true)
    (hr : ∀ fd, ¬ o.Reads fd) (hwr : ∀ fd, ¬ o.Writes fd) (hB : B []) (hw : Sending fd I [] [] w) :
    wp C t (net o) (Returns fun _ w' => Sending fd I [] [] w') w := by
  refine wp_net hs (hC.stays (fun _ => True) fun w (hw : Sending fd I [] [] w) => hw.kept) trivial hw ?_
  intro w r hw _
  have hnext := hw.quiet hC (hw.wrote_nil ▸ hB) (isQuiet_net hr hwr r)
  exact ⟨hC.guar _ _ hw.kept hnext.kept, hnext⟩

theorem wp_openStream (hC : Opens C t fd B I) (hB : B []) (hw : Sending fd I [] [] w) :
    wp C t (openStream fd cfg) (Returns fun stream w' => Sending fd I [] [] w' ∧
      ∀ s, stream = some s → s.fd = fd) w := by
  unfold openStream
  split
  · split
    · exact ⟨hw, nofun⟩
    · refine wp_then (wp_quiet hC rfl (fun _ => id) (fun _ => id) hB hw) ?_
      intro handshake w hw
      refine ⟨hw, fun s hs => ?_⟩
      split at hs
      · rw [← Option.some.inj hs]
        rfl
      · cases hs
  · refine ⟨hw, fun s hs => ?_⟩
    rw [← Option.some.inj hs]
    rfl

/-- **The handshake with the server**: if it returns a stream, that stream is on the socket, the
    request was sent, and a response was read and no byte of what follows it is lost. -/
theorem wp_vlessConnectAndHandshake (hC : Opens C t fd (Beginning cfg vlessReq) I)
    (hw : Sending fd I [] [] w) :
    wp C t (vlessConnectAndHandshake fd cfg vlessReq) (Ends (fun res w' => I w' ∧
      ∀ stream remaining, res = some (stream, remaining) →
        stream.fd = fd ∧ Exchanged fd cfg vlessReq remaining w'.trace) I) w := by
  have hgiveUp : ∀ w, I w → wp C t (giveUp (K := K) (α := NetStream K.Fd × Bytes) fd) (Ends
      (fun res w' => I w' ∧ ∀ stream remaining, res = some (stream, remaining) →
        stream.fd = fd ∧ Exchanged fd cfg vlessReq remaining w'.trace) I) w :=
    fun w hw => wp_returns (wp_giveUp hC hw) fun _ _ hw => ⟨hw.1, fun _ _ h => absurd h (hw.2 _)⟩
  have hB : Beginning cfg vlessReq [] := .inl rfl
  unfold vlessConnectAndHandshake resolveRemote
  refine wp_then (R := fun _ w' => Sending fd I [] [] w')
    (wp_then (wp_blocking hC rfl (fun _ => id) (fun _ => id) hB hw) fun _ _ hw => hw) ?_
  intro addr w hw
  cases addr with
  | none => exact ⟨hw.kept, nofun⟩
  | some remoteAddr =>
      refine wp_then (wp_blocking hC rfl (fun _ => id) (fun _ => id) hB hw) ?_
      intro opened w hw
      split
      · exact ⟨hw.kept, nofun⟩
      · refine wp_then (wp_quiet hC rfl (fun _ => id) (fun _ => id) hB hw) ?_
        intro connectResult w hw
        split
        · exact hgiveUp w hw.kept
        · refine wp_then (wp_openStream cfg hC hB hw) ?_
          intro stream w ⟨hw, hstream⟩
          cases stream with
          | none => exact hgiveUp w hw.kept
          | some stream =>
              refine wp_seq (wp_exchangeHeaders cfg vlessReq hC (hstream stream rfl) hw) ?_
                fun _ _ hw => hw
              intro remaining w ⟨hw, hexchanged⟩
              cases remaining with
              | none => exact hgiveUp w hw
              | some remaining =>
                  refine ⟨hw, fun s rest hres => ?_⟩
                  obtain ⟨rfl, rfl⟩ := Prod.mk.inj (Option.some.inj hres)
                  exact ⟨hstream stream rfl, hexchanged remaining rfl⟩

end Wp

end VlessClient

namespace Socks5Connection

variable {C : Contract kind.object} {J : World kind.object → Prop} {w : World kind.object}

/-- `J` holds while `clientTask` alone is there and reads the application. -/
structure Listens (C : Contract kind.object) (J : World kind.object → Prop) : Prop where
  alone : ∀ w w', J w → ¬ C.rely Task.clientTask w w'
  parked : ∀ o w, J w → ¬ EofOn (K := kind) Fd.app w.trace → C.parked Task.clientTask (.inl o) w
  guar : ∀ w w', J w → J w' → C.guar Task.clientTask w w'
  push : ∀ w e, J w → (∀ fd, fd ≠ Fd.app → heard (K := kind) fd e = none) →
    (∀ fd, wrote (K := kind) fd e = none) → J (w.push e)
  modify : ∀ w stream, J w → J (w.call fun s => ({ s with stream }, []))

/-- The pieces read from the application are `chunks`. -/
structure Hearing (J : World kind.object → Prop) (chunks : List Bytes) (w : World kind.object) :
    Prop where
  kept : J w
  pieces : chunksFrom (K := kind) Fd.app w.trace = chunks

/-- Of what was read, `consumed` is used up and the rest is in `stream_`, which holds less than the
    last piece. -/
structure Listening (J : World kind.object → Prop) (consumed : Bytes) (w : World kind.object) :
    Prop where
  kept : J w
  noEof : ¬ EofOn (K := kind) Fd.app w.trace
  bytes : readFrom (K := kind) Fd.app w.trace = consumed ++ w.mem.stream.unread
  within : UringBufferedStream.Within (chunksFrom (K := kind) Fd.app w.trace) w.mem.stream.unread

theorem wp_read_app (hC : Listens C J) {chunks : List Bytes}
    (hw : Hearing J chunks w ∧ ¬ EofOn (K := kind) Fd.app w.trace) :
    wp C Task.clientTask (appStream.read (K := kind)) (Returns fun rr w' => if rr.ok
      then Hearing J (chunks ++ [rr.data]) w' ∧ ¬ EofOn (K := kind) Fd.app w'.trace
      else Hearing J chunks w') w := by
  have hstays : Stays C Task.clientTask (NetOp.Reads Fd.app) fun w =>
      Hearing J chunks w ∧ ¬ EofOn (K := kind) Fd.app w.trace :=
    ⟨fun w w' hw hr => absurd hr (hC.alone w w' hw.1.kept),
      fun o w _ hw => hC.parked o w hw.1.kept hw.2⟩
  refine NetStream.wp_read (K := kind) _ _ hstays hw ?_
  intro w e rr hw he _ _
  have he : IsRead Fd.app rr e := he
  have hkept := hC.push w e hw.1.kept he.heard_other he.wrote_none
  have hpieces := chunksFrom_single he.heard_self
  refine ⟨hC.guar _ _ hw.1.kept hkept, ?_⟩
  show if rr.ok = true then _ else _
  split
  · next hok =>
      rw [if_pos hok] at hpieces
      refine ⟨⟨hkept, by rw [World.push_trace, chunksFrom_append, hw.1.pieces, hpieces]⟩, ?_⟩
      intro heof
      rcases (eofOn_append _ _ _).1 heof with heof | heof
      · exact hw.2 heof
      · rw [rr.ok_eq, (eofOn_single he.heard_self).1 heof] at hok
        exact nomatch hok
  · next hok =>
      rw [if_neg hok] at hpieces
      exact ⟨hkept, by
        rw [World.push_trace, chunksFrom_append, hw.1.pieces, hpieces, List.append_nil]⟩

/-- What was read after `consumed` does not begin with a word of `G`. -/
def Malformed {α : Type} (G : Bytes → α → Prop) (consumed : Bytes) (tr : List (Event kind.object)) :
    Prop :=
  ∃ s, readFrom (K := kind) Fd.app tr = consumed ++ s ∧ ∀ b a rest, G b a → s ≠ b ++ rest

/-- **A parser on `stream_`** takes what its grammar says off what was read, or what was read does not
    begin with a word of it. -/
theorem wp_onStream {α : Type} {p : Parser α} {G : Bytes → α → Prop} (hstrict : p.Strict)
    (haccepts : p.Accepts G) (hC : Listens C J) {consumed : Bytes} (hw : Listening J consumed w) :
    wp C Task.clientTask (onStream p) (Ends
      (fun a w' => ∃ b, G b a ∧ Listening J (consumed ++ b) w')
      (fun w' => J w' ∧ Malformed G consumed w'.trace)) w := by
  have hparse := UringBufferedStream.wp_parse (C := C)
    (Φ := fun chunks w => Hearing J chunks w ∧ ¬ EofOn (K := kind) Fd.app w.trace)
    (Ψ := Hearing J) (fun chunks w hw => wp_read_app hC hw) hstrict w.mem.stream
    ⟨⟨hw.kept, rfl⟩, hw.noEof⟩ hw.within
  refine wp_get_seq (O := kind.object) (wp_then hparse ?_)
  rintro ⟨res, stream⟩ w' ⟨got, hrun, hwithin, hread⟩
  have hhearing := hread.elim (·.1) (·.2)
  have hkept := hC.modify w' stream hhearing.kept
  -- the pieces before the parser ran make up `consumed` and the buffer
  have hbytes : readFrom (K := kind) Fd.app w'.trace =
      consumed ++ (w.mem.stream.unread ++ got.flatten) := by
    rw [readFrom, hhearing.pieces, List.flatten_append, ← readFrom, hw.bytes, List.append_assoc]
  refine wp_member_seq fun _ => ⟨hC.guar _ _ hhearing.kept hkept, ?_⟩
  cases res with
  | error e =>
      refine ⟨hkept, w.mem.stream.unread ++ got.flatten, ?_, fun b a rest hG heq => ?_⟩
      · rw [readFrom, chunksFrom, answers_call, ← chunksFrom, ← readFrom, hbytes]
      · have hok := (haccepts _ a rest).2 ⟨b, hG, heq⟩
        rw [hrun] at hok
        cases hok
  | ok a =>
      obtain ⟨b, hG, hsplit⟩ := (haccepts _ _ _).1 hrun
      refine ⟨b, hG, hkept, ?_, ?_, ?_⟩
      · rcases hread with ⟨-, hnoEof⟩ | ⟨⟨e, he⟩, -⟩
        · rw [EofOn, answers_call]
          exact hnoEof
        · cases he
      · rw [readFrom, chunksFrom, answers_call, ← chunksFrom, ← readFrom, hbytes, hsplit,
          List.append_assoc]
        rfl
      · rw [chunksFrom, answers_call, ← chunksFrom, hhearing.pieces]
        exact hwithin

end Socks5Connection

end Cppvless
