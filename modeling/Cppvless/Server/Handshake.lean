import Cppvless.Server.Sides
import Cppvless.Vless.Decoder

set_option autoImplicit false

/-! # The handshake

If what is read from the client begins with the header of a request, the handshake returns that
request, however the bytes are cut, and leaves in `handshakeRemaining` what was read beyond the
header; otherwise it fails. `Handshakes` is what a contract has to say of the time before the response
for this to be shown once for all of them. Of a known client, one that sends the header of a given
request and then `payload`, it follows that the request is that one. -/

namespace Cppvless

open Coroutine

namespace VlessConnection

section Given

variable (cfg : Config) (given : Request → Request)

/-- `runSession`, but with `given req` put in place of the request `req` that was decoded. The decoder sets
    no `encryption`, so in the program the branches that ask for one are never taken; filled in by hand,
    they are. -/
def runSessionAs : Code Bool := do
  if !(← acceptTls cfg) then
    member finishClientTask
    return true
  else
    let req ← processHandshake cfg
    let req := given req
    modify fun s => { s with command := req.command }
    let _normalEnd ← dispatch cfg req
    return false

/-- `clientTask`, likewise. -/
def clientTaskAs : Code Unit := endSession (runSessionAs cfg given)

/-- The coroutines, likewise: not the program itself unless `given` changes nothing (`bodyAs_id`). -/
def bodyAs : Task → Code Unit
  | .clientTask => clientTaskAs cfg given
  | .targetTask => targetTask cfg

/-- With the request as it was decoded this is the program. -/
theorem bodyAs_id : bodyAs cfg id = body cfg := by
  funext t
  cases t <;> rfl

end Given

namespace Handshake

/-- The client is read, or TLS is agreed with it. -/
def Serves (e : Event kind.object) : Prop :=
  ∃ (o : NetOp Fd) (r : o.Res), e = .io (.inl o) r ∧ (o.Reads Fd.client ∨ o = .tlsHandshake .client)

/-- `J` holds while the client alone is read, and nobody else is there yet. -/
structure Handshakes (C : Contract kind.object) (J : World kind.object → Prop) : Prop where
  alone : ∀ w w', J w → ¬ C.rely Task.clientTask w w'
  parked : ∀ o w, J w → ¬ EofOn (K := kind) Fd.client w.trace → C.parked Task.clientTask (.inl o) w
  guar : ∀ w w', J w → J w' → w.trace <+: w'.trace → C.guar Task.clientTask w w'
  push : ∀ w e, J w → (∀ fd, fd ≠ Fd.client → heard (K := kind) fd e = none) →
    (∀ fd, wrote (K := kind) fd e = none) → (∀ fd, ¬ CutOff (K := kind) fd [e]) → Serves e →
    J (w.push e)
  modify : ∀ w (f : Mem → Mem), J w → (∀ s, ∃ stream handshakeRemaining,
    f s = { s with stream, handshakeRemaining }) → J (w.call fun s => (f s, []))

/-- The pieces read so far are `chunks`, and nothing is left over yet. -/
structure Shaking (J : World kind.object → Prop) (chunks : List Bytes) (w : World kind.object) :
    Prop where
  kept : J w
  remaining : w.mem.handshakeRemaining = []
  pieces : chunksFrom (K := kind) Fd.client w.trace = chunks

/-- What the handshake leaves: the bytes behind the header are in `handshakeRemaining`, less than the
    last piece, and none in `stream_`. -/
structure Shaken (header : Bytes) (J : World kind.object → Prop) (w : World kind.object) : Prop where
  kept : J w
  noEof : ¬ EofOn (K := kind) Fd.client w.trace
  bytes : readFrom (K := kind) Fd.client w.trace = header ++ w.mem.handshakeRemaining
  within : UringBufferedStream.Within (chunksFrom (K := kind) Fd.client w.trace)
    w.mem.handshakeRemaining
  drained : w.mem.stream.unread = []

/-- `bytes` begins with the header of a request. -/
def Headed (validator : Validator) (bytes : Bytes) : Prop :=
  ∃ header req payload, Header validator header req ∧ bytes = header ++ payload

variable {C : Contract kind.object} {J : World kind.object → Prop} {w w' : World kind.object}
  {chunks : List Bytes} {validator : Validator} {header payload : Bytes} {req : Request}

theorem Shaking.readFrom_eq (h : Shaking J chunks w) :
    readFrom (K := kind) Fd.client w.trace = chunks.flatten := by
  rw [readFrom, h.pieces]

/-- An answer that is no piece of the stream. -/
theorem Shaking.quiet (hC : Handshakes C J) (h : Shaking J chunks w)
    {e : Event kind.object} (he : IsQuiet e) (hcut : ∀ fd, ¬ CutOff (K := kind) fd [e])
    (hserves : Serves e) : Shaking J chunks (w.push e) where
  kept := hC.push w e h.kept (fun _ _ => he.heard_none _) he.wrote_none hcut hserves
  remaining := h.remaining
  pieces := by simp [chunksFrom_other (he.heard_none _), h.pieces]

theorem Shaking.read (hC : Handshakes C J) (h : Shaking J chunks w) {e : Event kind.object}
    {rr : RecvResult} (he : IsRead Fd.client rr e) :
    Shaking J (if rr.ok then chunks ++ [rr.data] else chunks) (w.push e) where
  kept := by
    obtain ⟨o, r, heq, hreads⟩ := he.read
    exact hC.push w e h.kept he.heard_other he.wrote_none he.not_cutOff ⟨o, r, heq, .inl hreads⟩
  remaining := h.remaining
  pieces := by
    rw [World.push_trace, chunksFrom_append, chunksFrom_single he.heard_self, h.pieces]
    cases rr.ok with
    | true => rfl
    | false => exact List.append_nil chunks

theorem Shaking.modify (hC : Handshakes C J) (h : Shaking J chunks w) {f : Mem → Mem}
    (hf : ∀ s, ∃ stream, f s = { s with stream }) :
    Shaking J chunks (w.call fun s => (f s, [])) where
  kept := by
    refine hC.modify w f h.kept fun s => ?_
    obtain ⟨stream, hs⟩ := hf s
    exact ⟨stream, s.handshakeRemaining, hs⟩
  remaining := by
    obtain ⟨stream, hs⟩ := hf w.mem
    rw [World.call_mem, hs]
    exact h.remaining
  pieces := by simpa using h.pieces

/-- Before the end of the stream the handshake may suspend. -/
theorem stays_shaking (hC : Handshakes C J) (S : NetOp Fd → Prop) {I : World kind.object → Prop}
    (hI : ∀ w, I w → J w ∧ ¬ EofOn (K := kind) Fd.client w.trace) :
    Stays C Task.clientTask S I :=
  ⟨fun w w' hw hr => absurd hr (hC.alone w w' (hI w hw).1),
    fun o w _ hw => hC.parked o w (hI w hw).1 (hI w hw).2⟩

theorem not_eofOn_push {e : Event kind.object} {rr : RecvResult} (he : IsRead Fd.client rr e)
    (hok : rr.ok = true) (hw : ¬ EofOn (K := kind) Fd.client w.trace) :
    ¬ EofOn (K := kind) Fd.client (w.push e).trace := by
  intro heof
  rcases (eofOn_append _ _ _).1 heof with heof | heof
  · exact hw heof
  · rw [rr.ok_eq, (eofOn_single he.heard_self).1 heof] at hok
    exact nomatch hok

section Wp

variable (cfg : Config)

theorem wp_read_shaking (hC : Handshakes C J) (chunks : List Bytes)
    (hw : Shaking J chunks w) (hnoEof : ¬ EofOn (K := kind) Fd.client w.trace) :
    wp C Task.clientTask (cfg.clientStream.read (K := kind)) (Returns fun rr w' => if rr.ok
      then Shaking J (chunks ++ [rr.data]) w' ∧ ¬ EofOn (K := kind) Fd.client w'.trace
      else Shaking J chunks w') w := by
  refine NetStream.wp_read _ _ (stays_shaking hC _ (I := fun w => Shaking J chunks w ∧
    ¬ EofOn (K := kind) Fd.client w.trace) fun w hw => ⟨hw.1.kept, hw.2⟩) ⟨hw, hnoEof⟩ ?_
  intro w e rr hw he _ _
  rw [clientStream_fd] at he
  have hnext := hw.1.read hC he
  refine ⟨hC.guar _ _ hw.1.kept hnext.kept (List.prefix_append _ _), ?_⟩
  show if rr.ok = true then _ else _
  cases hok : rr.ok with
  | true =>
      simp only [hok, if_true] at hnext ⊢
      exact ⟨hnext, not_eofOn_push he hok hw.2⟩
  | false =>
      simp only [hok, Bool.false_eq_true, if_false] at hnext ⊢
      exact hnext

/-- What the decoder makes of the bytes read. -/
theorem decode_bytes {bytes : Bytes} {res : Except Exn Request} {rest : Bytes}
    (hrun : (Decoder.decode validator).run bytes = (res, rest)) :
    (∀ req, res = .ok req → ∃ header, Header validator header req ∧ bytes = header ++ rest) ∧
      (∀ e, res = .error e → ¬ Headed validator bytes) := by
  have haccepts := Decoder.decode_accepts validator
  constructor
  · rintro req rfl
    exact (haccepts _ _ _).1 hrun
  · rintro e rfl ⟨header, req, payload, hwf, rfl⟩
    rw [(haccepts _ req payload).2 ⟨header, hwf, rfl⟩] at hrun
    exact nomatch (Prod.mk.inj hrun).1

theorem wp_decode (hC : Handshakes C J) (hw : Shaking J [] w)
    (hnoEof : ¬ EofOn (K := kind) Fd.client w.trace) (hmem : w.mem.stream.unread = []) :
    wp C Task.clientTask (onStream cfg (Decoder.decode cfg.validator))
      (Ends (fun req w' => ∃ header chunks, Header cfg.validator header req ∧ Shaking J chunks w' ∧
        ¬ EofOn (K := kind) Fd.client w'.trace ∧
        chunks.flatten = header ++ w'.mem.stream.unread ∧
        UringBufferedStream.Within chunks w'.mem.stream.unread) fun w' =>
        J w' ∧ ¬ Headed cfg.validator (readFrom (K := kind) Fd.client w'.trace)) w := by
  have hparse := UringBufferedStream.wp_parse (C := C)
    (Φ := fun chunks w => Shaking J chunks w ∧ ¬ EofOn (K := kind) Fd.client w.trace)
    (Ψ := Shaking J) (fun chunks w hw => wp_read_shaking cfg hC chunks hw.1 hw.2)
    (Decoder.decode_strict cfg.validator) w.mem.stream ⟨hw, hnoEof⟩ (.inl hmem)
  refine wp_get_seq (O := kind.object) (wp_then hparse ?_)
  rintro ⟨res, stream⟩ w' ⟨got, hrun, hwithin, hread⟩
  rw [hmem, List.nil_append] at hrun
  rw [List.nil_append] at hread hwithin
  have hshaking : Shaking J got w' := hread.elim (·.1) (·.2)
  obtain ⟨hok, herror⟩ := decode_bytes hrun
  have hshaking' := hshaking.modify hC (f := fun s => { s with stream }) fun s => ⟨stream, rfl⟩
  refine wp_bind (wp_member fun _ =>
    ⟨hC.guar _ _ hshaking.kept hshaking'.kept (List.prefix_append _ _), ?_⟩)
  cases res with
  | error e =>
      refine ⟨hshaking'.kept, ?_⟩
      rw [hshaking'.readFrom_eq]
      exact herror e rfl
  | ok req =>
      obtain ⟨header, hwf, hflatten⟩ := hok req rfl
      rcases hread with ⟨-, hread⟩ | ⟨⟨e, he⟩, -⟩
      · refine ⟨header, got, hwf, hshaking', ?_, hflatten, hwithin⟩
        rw [EofOn, answers_call]
        exact hread
      · cases he

/-- **The handshake**: the request whose header was read, or no header was. -/
theorem wp_processHandshake (hC : Handshakes C J) (hw : Shaking J [] w)
    (hnoEof : ¬ EofOn (K := kind) Fd.client w.trace) (hmem : w.mem.stream.unread = []) :
    wp C Task.clientTask (processHandshake cfg)
      (Ends (fun req w' => ∃ header, Header cfg.validator header req ∧ Shaken header J w') fun w' =>
        J w' ∧ ¬ Headed cfg.validator (readFrom (K := kind) Fd.client w'.trace)) w := by
  refine wp_seq (wp_decode cfg hC hw hnoEof hmem) ?_ fun _ _ h => h
  rintro req w ⟨header, chunks, hwf, hw, hnoEof, hchunks, hwithin⟩
  -- draining changes nothing but the buffer
  have hdrained := hw.modify hC (f := fun s => { s with stream := s.stream.drainRemaining.2 })
    fun s => ⟨_, rfl⟩
  refine wp_bind (wp_update (O := kind.object) fun _ =>
    ⟨hC.guar _ _ hw.kept hdrained.kept (List.prefix_append _ _), ?_⟩)
  set rest := w.mem.stream.drainRemaining.1 with hrest
  rw [UringBufferedStream.drainRemaining_fst] at hrest
  rw [← hrest] at hchunks hwithin
  show wp C Task.clientTask (if rest ≠ [] then _ else _) _ _
  by_cases hnil : rest ≠ []
  · rw [if_pos hnil]
    have hkept := hC.modify _ (fun s => { s with handshakeRemaining := rest }) hdrained.kept
      fun s => ⟨s.stream, rest, rfl⟩
    refine wp_bind (wp_member fun _ => ⟨hC.guar _ _ hdrained.kept hkept (List.prefix_append _ _),
      header, hwf, hkept, ?_, ?_, ?_, ?_⟩)
    · rwa [EofOn, answers_call, answers_call]
    · rw [readFrom, chunksFrom, answers_call, ← chunksFrom, hdrained.pieces]
      exact hchunks
    · rw [chunksFrom, answers_call, ← chunksFrom, hdrained.pieces]
      exact hwithin
    · exact UringBufferedStream.unread_drainRemaining _
  · rw [if_neg hnil]
    have hremaining := hdrained.remaining
    refine ⟨header, hwf, hdrained.kept, ?_, ?_, .inl hremaining,
      UringBufferedStream.unread_drainRemaining _⟩
    · rwa [EofOn, answers_call]
    · rw [hdrained.readFrom_eq, hremaining, hchunks, not_not.1 hnil]

theorem wp_acceptTls (hC : Handshakes C J) (hw : Shaking J [] w)
    (hnoEof : ¬ EofOn (K := kind) Fd.client w.trace) (hmem : w.mem.stream.unread = []) :
    wp C Task.clientTask (acceptTls cfg) (Returns fun _ w' => Shaking J [] w' ∧
      ¬ EofOn (K := kind) Fd.client w'.trace ∧ w'.mem.stream.unread = []) w := by
  rw [acceptTls]
  split
  · refine wp_net rfl (stays_shaking hC (fun _ => True) (I := fun w => Shaking J [] w ∧
      ¬ EofOn (K := kind) Fd.client w.trace ∧ w.mem.stream.unread = [])
      fun w hw => ⟨hw.1.kept, hw.2.1⟩) trivial ⟨hw, hnoEof, hmem⟩ ?_
    intro w answer ⟨hw, hnoEof, hmem⟩ _
    have hquiet : IsQuiet (.io (O := kind.object) (.inl (.tlsHandshake Fd.client)) answer) :=
      isQuiet_net (K := kind) (o := .tlsHandshake Fd.client) (fun _ => id) (fun _ => id) answer
    have hnext := hw.quiet hC hquiet (fun fd => cutOff_io (K := kind) fd _ _)
      ⟨_, answer, rfl, .inr rfl⟩
    refine ⟨hC.guar _ _ hw.kept hnext.kept (List.prefix_append _ _), hnext, fun heof => ?_, hmem⟩
    rcases (eofOn_append _ _ _).1 heof with heof | heof
    · exact hnoEof heof
    · exact eofOn_other (hquiet.heard_none _) heof
  · exact ⟨hw, hnoEof, hmem⟩

/-- **The session of any client.** Whatever `clientTask` does after the handshake is `dispatch` of the
    request it was `given`; `D` is what it finds when it finishes, and `Q` what it leaves. -/
theorem wp_anyClientTaskAs (given : Request → Request) (hC : Handshakes C J) (henv : C.env w.trace)
    (hmem : w.mem = {}) (htrace : w.trace = []) (hJ : J w) {D Q : World kind.object → Prop}
    (hfail : ∀ w, J w → (EofOn (K := kind) Fd.client w.trace →
      ¬ Headed cfg.validator (readFrom (K := kind) Fd.client w.trace)) → D w)
    (hsession : ∀ header req w, Header cfg.validator header req → Shaken header J w →
      C.env w.trace →
      C.guar Task.clientTask w (w.call fun s => ({ s with command := (given req).command }, [])) ∧
        wp C Task.clientTask (dispatch cfg (given req)) (fun _ => D)
          (w.call fun s => ({ s with command := (given req).command }, [])))
    (hfinish : ∀ w, D w → C.guar Task.clientTask w (w.call finishClientTask) ∧
      Q (w.call finishClientTask)) :
    wp C Task.clientTask (clientTaskAs cfg given) (fun _ => Q) w := by
  have hshaking : Shaking J [] w := by
    refine ⟨hJ, by rw [hmem], ?_⟩
    rw [htrace]
    rfl
  have hnoEof : ¬ EofOn (K := kind) Fd.client w.trace := by simp [htrace, EofOn, answers]
  have hunread : w.mem.stream.unread = [] := by simp [hmem]
  have hsessionAll : wp C Task.clientTask (runSessionAs cfg given)
      (Ends (fun returned w' => if returned then Q w' else D w') D) w := by
    refine wp_then (wp_returns_env henv (wp_acceptTls cfg hC hshaking hnoEof hunread)) ?_
    rintro accepted w ⟨⟨hw, hnoEof, hunread⟩, henv⟩
    cases accepted with
    | false =>
        obtain ⟨hg, hq⟩ := hfinish w (hfail w hw.kept fun heof => absurd heof hnoEof)
        exact wp_bind (wp_member fun _ => ⟨hg, hq⟩)
    | true =>
        refine wp_seq (wp_env henv (wp_processHandshake cfg hC hw hnoEof hunread)) ?_ ?_
        · rintro req w ⟨⟨header, hwf, hw⟩, henv⟩
          obtain ⟨hg, hdispatch⟩ := hsession header req w hwf hw henv
          refine wp_bind (wp_member fun _ => ⟨hg, ?_⟩)
          exact wp_seq hdispatch (fun _ _ h => h) fun _ _ h => h
        · exact fun _ w hw => hfail w hw.1.1 fun _ => hw.1.2
  exact wp_endSession hsessionAll fun w hw => wp_member fun _ => hfinish w hw

/-- **The session of a known client**: the request is the one it sends. -/
theorem wp_clientTaskAs (given : Request → Request) (hC : Handshakes C J)
    (hreads : ∀ tr, C.env tr → readFrom (K := kind) Fd.client tr <+: header ++ payload)
    (hwf : Header cfg.validator header req) (henv : C.env w.trace) (hmem : w.mem = {})
    (htrace : w.trace = []) (hJ : J w) {D Q : World kind.object → Prop}
    (hfail : ∀ w, J w → (EofOn (K := kind) Fd.client w.trace →
      readFrom (K := kind) Fd.client w.trace ≠ header ++ payload) → D w)
    (hsession : ∀ w, Shaken header J w → C.env w.trace →
      C.guar Task.clientTask w (w.call fun s => ({ s with command := (given req).command }, [])) ∧
        wp C Task.clientTask (dispatch cfg (given req)) (fun _ => D)
          (w.call fun s => ({ s with command := (given req).command }, [])))
    (hfinish : ∀ w, D w → C.guar Task.clientTask w (w.call finishClientTask) ∧
      Q (w.call finishClientTask)) :
    wp C Task.clientTask (clientTaskAs cfg given) (fun _ => Q) w := by
  refine wp_anyClientTaskAs cfg given hC henv hmem htrace hJ ?_ ?_ hfinish
  · intro w hw hnone
    exact hfail w hw fun heof hread => hnone heof ⟨header, req, payload, hwf, hread⟩
  · intro header' req' w hwf' hw henv
    obtain ⟨more, hmore⟩ := hreads _ henv
    rw [hw.bytes, List.append_assoc] at hmore
    obtain ⟨rfl, rfl, -⟩ := (Decoder.decode_accepts cfg.validator).unique hwf' hwf hmore
    exact hsession w hw henv

/-- The same for the request that was decoded. -/
theorem wp_clientTask (hC : Handshakes C J)
    (hreads : ∀ tr, C.env tr → readFrom (K := kind) Fd.client tr <+: header ++ payload)
    (hwf : Header cfg.validator header req) (henv : C.env w.trace) (hmem : w.mem = {})
    (htrace : w.trace = []) (hJ : J w) {D Q : World kind.object → Prop}
    (hfail : ∀ w, J w → (EofOn (K := kind) Fd.client w.trace →
      readFrom (K := kind) Fd.client w.trace ≠ header ++ payload) → D w)
    (hsession : ∀ w, J w → ¬ EofOn (K := kind) Fd.client w.trace →
      readFrom (K := kind) Fd.client w.trace = header ++ w.mem.handshakeRemaining →
      C.guar Task.clientTask w (w.call fun s => ({ s with command := req.command }, [])) ∧
        wp C Task.clientTask (dispatch cfg req) (fun _ => D)
          (w.call fun s => ({ s with command := req.command }, [])))
    (hfinish : ∀ w, D w → C.guar Task.clientTask w (w.call finishClientTask) ∧
      Q (w.call finishClientTask)) :
    wp C Task.clientTask (clientTask cfg) (fun _ => Q) w :=
  wp_clientTaskAs cfg id hC hreads hwf henv hmem htrace hJ hfail
    (fun w hw _ => hsession w hw.kept hw.noEof hw.bytes) hfinish

end Wp

end Handshake

end VlessConnection

end Cppvless
