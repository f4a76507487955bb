import Cppvless.Server.Sides

set_option autoImplicit false

/-! # The authentication gate

Until the decoder has returned a request that one of the sessions accepts, a VLESS connection sends
the client nothing and makes no target socket. The proof is a contract in which every step of either
coroutine keeps `Gated`: before the decoder has returned, `clientTask` is known to come to nothing
that would need it, and afterwards anything goes. -/

namespace Cppvless

open Coroutine

namespace VlessConnection

namespace Gate

/-- A write to the client, or the creation or connection of a socket. -/
def NeedsAuth : Event kind.object → Prop
  | .io (.inl (.send .client _)) _ => True
  | .io (.inl (.tlsWriteFull .client _)) _ => True
  | .io (.inl (.socket _ _ _)) _ => True
  | .io (.inl (.connect _ _)) _ => True
  | _ => False

/-- A request that `runTcpSession` or `runUdpSession` goes on with. -/
def Permitted (req : Request) : Prop :=
  req.command = .tcp ∧ (req.flow = [] ∨ req.flow = flowVision) ∨ req.command = .udp ∧ req.flow = []

/-- The decoder has returned `req` on the bytes `s`. -/
def Decoded (validator : Validator) (req : Request) (s : Bytes) : Prop :=
  ∃ rest, (Decoder.decode validator).run s = (.ok req, rest)

/-- `s` starts with the header of a permitted request, and the decoder has returned it. -/
def Authorised (validator : Validator) (s : Bytes) : Prop :=
  ∃ header req, Header validator header req ∧ header <+: s ∧ Permitted req ∧
    Decoded validator req s

/-- Whatever needs authorisation came after the bytes that give it. -/
def Gated (validator : Validator) (tr : List (Event kind.object)) : Prop :=
  ∀ before e after, tr = before ++ e :: after → NeedsAuth e →
    Authorised validator (readFrom (K := kind) Fd.client before)

variable {validator : Validator} {req : Request}

theorem Decoded.mono {s s' : Bytes} (h : Decoded validator req s) (hs : s <+: s') :
    Decoded validator req s' := by
  obtain ⟨rest, hrun⟩ := h
  obtain ⟨more, rfl⟩ := hs
  obtain ⟨header, hheader, rfl⟩ := (Decoder.decode_accepts validator s req rest).1 hrun
  exact ⟨rest ++ more, (Decoder.decode_accepts validator _ req _).2 ⟨header, hheader, by simp⟩⟩

theorem Decoded.authorised {s : Bytes} (h : Decoded validator req s) (hreq : Permitted req) :
    Authorised validator s := by
  obtain ⟨rest, hrun⟩ := h
  obtain ⟨header, hheader, rfl⟩ := (Decoder.decode_accepts validator s req rest).1 hrun
  exact ⟨header, req, hheader, List.prefix_append _ _, hreq, rest, hrun⟩

theorem Authorised.mono {s s' : Bytes} (h : Authorised validator s) (hs : s <+: s') :
    Authorised validator s' := by
  obtain ⟨header, req, hheader, hinit, hreq, hdecoded⟩ := h
  exact ⟨header, req, hheader, hinit.trans hs, hreq, hdecoded.mono hs⟩

theorem gated_nil : Gated validator [] := eachStep_nil

theorem Gated.push {tr : List (Event kind.object)} {e : Event kind.object}
    (h : Gated validator tr) (he : NeedsAuth e → Authorised validator (readFrom (K := kind) Fd.client tr)) :
    Gated validator (tr ++ [e]) :=
  eachStep_concat.2 ⟨h, he⟩

theorem Gated.pushAll {tr es : List (Event kind.object)} (h : Gated validator tr)
    (hes : ∀ e ∈ es, ¬ NeedsAuth e) : Gated validator (tr ++ es) := by
  induction es generalizing tr with
  | nil => simpa using h
  | cons e es ih =>
      have hpush := h.push fun he => absurd he (hes e (by simp))
      simpa using ih hpush fun e' he' => hes e' (by simp [he'])

/-- The pieces read from the client so far. -/
def Pieces (chunks : List Bytes) (w : World kind.object) : Prop :=
  chunksFrom (K := kind) Fd.client w.trace = chunks

/-- Each coroutine keeps the gate, and the target task leaves the stream of the client alone. -/
def gate (validator : Validator) : Contract kind.object where
  env _ := True
  guar t w w' := w.trace <+: w'.trace ∧ (Gated validator w.trace → Gated validator w'.trace) ∧
    (t = Task.targetTask →
      chunksFrom (K := kind) Fd.client w'.trace = chunksFrom (K := kind) Fd.client w.trace ∧
        w'.mem.stream = w.mem.stream)
  parked _ _ _ := True
  pre t w := match t with
    | .clientTask => Pieces [] w ∧ w.mem.stream.unread = []
    | .targetTask => Authorised validator (readFrom (K := kind) Fd.client w.trace)
  post _ _ := True

theorem gate_stable : (gate validator).Stable :=
  ⟨fun _ _ _ => trivial, fun _ _ _ _ _ _ => trivial, fun _ _ _ _ _ => trivial⟩

/-! ## Frames -/

/-- Operations that need no authorisation. -/
def Harmless : ObjOp kind.object → Prop
  | .io o => ∀ r, ¬ NeedsAuth (.io o r)
  | .spawn _ => False
  | _ => True

theorem guar_client {w w' : World kind.object} (hinit : w.trace <+: w'.trace)
    (hgated : Gated validator w.trace → Gated validator w'.trace) :
    (gate validator).guar Task.clientTask w w' :=
  ⟨hinit, hgated, by simp⟩

theorem guar_call {t : Task} (w : World kind.object) (f : Mem → Mem × List (Syscall Fd))
    (hf : t = Task.targetTask → (f w.mem).1.stream = w.mem.stream) :
    (gate validator).guar t w (w.call f) := by
  refine ⟨List.prefix_append _ _, fun h => h.pushAll ?_, fun ht => ⟨?_, hf ht⟩⟩
  · intro e he
    obtain ⟨c, -, rfl⟩ := List.mem_map.1 he
    exact id
  · rw [chunksFrom, chunksFrom, answers_call]

theorem rely_reads {t : Task} {w w' : World kind.object} (h : (gate validator).rely t w w') :
    readFrom (K := kind) Fd.client w.trace <+: readFrom (K := kind) Fd.client w'.trace := by
  obtain ⟨u, -, hg, -⟩ := h
  exact readFrom_mono (K := kind) _ hg.1

/-- What is said about the bytes read from the client is kept by what is harmless. -/
theorem frame_harmless {G : Bytes → Prop} (hG : ∀ s s', G s → s <+: s' → G s') :
    Frame (gate validator) Task.clientTask Harmless fun w => G (readFrom (K := kind) Fd.client w.trace) where
  rely _ _ hw hr := hG _ _ hw (rely_reads hr)
  parked _ _ _ _ _ := trivial
  member f w _ hw _ := ⟨guar_call w f nofun, hG _ _ hw (readFrom_mono _ (List.prefix_append _ _))⟩
  io _ r _ ho hw _ :=
    ⟨guar_client (List.prefix_append _ _) fun h => h.push fun he => absurd he (ho r),
      hG _ _ hw (readFrom_mono _ (List.prefix_append _ _))⟩
  spawn _ _ h := h.elim

/-- With authorisation `clientTask` may do anything. -/
theorem frame_authorised : Frame (gate validator) Task.clientTask StartsTarget
    fun w => Authorised validator (readFrom (K := kind) Fd.client w.trace) where
  rely _ _ hw hr := hw.mono (rely_reads hr)
  parked _ _ _ _ _ := trivial
  member f w _ hw _ := ⟨guar_call w f nofun, hw.mono (readFrom_mono _ (List.prefix_append _ _))⟩
  io o r w _ hw _ :=
    ⟨guar_client (List.prefix_append _ _) fun h => h.push fun _ => hw,
      hw.mono (readFrom_mono _ (List.prefix_append _ _))⟩
  spawn u w hu hw _ := by
    have hw' : Authorised validator (readFrom (K := kind) Fd.client (w.start u).trace) :=
      hw.mono (readFrom_mono _ (List.prefix_append _ _))
    refine ⟨guar_client (List.prefix_append _ _) fun h => h.push nofun, ?_, hw'⟩
    cases u with
    | clientTask => exact absurd rfl hu
    | targetTask => exact hw'

theorem frame_targetSide : Frame (gate validator) Task.targetTask TargetSide
    fun w => Authorised validator (readFrom (K := kind) Fd.client w.trace) where
  rely _ _ hw hr := hw.mono (rely_reads hr)
  parked _ _ _ _ _ := trivial
  member f w hf hw _ := by
    refine ⟨guar_call w f fun _ => ?_, hw.mono (readFrom_mono _ (List.prefix_append _ _))⟩
    obtain ⟨_, _, hs⟩ := hf w.mem
    rw [hs]
  io o r w ho hw _ := by
    refine ⟨⟨List.prefix_append _ _, fun h => h.push fun _ => hw, fun _ => ⟨?_, rfl⟩⟩,
      hw.mono (readFrom_mono _ (List.prefix_append _ _))⟩
    cases o with
    | inl o => simp [chunksFrom_other (heard_eq_none ho.apart.1 r)]
    | inr o => simp [chunksFrom_other ((isQuiet_ext (K := kind) o r).heard_none _)]
  spawn _ _ h := h.elim

/-! ## The coroutines -/

section Wp

variable (cfg : Config) {w : World kind.object}

theorem stays_pieces (S : NetOp Fd → Prop) (chunks : List Bytes) :
    Stays (gate validator) Task.clientTask S (Pieces chunks) := by
  refine ⟨fun w w' hw hr => ?_, fun _ _ _ _ => trivial⟩
  obtain ⟨u, hu, hg, -⟩ := hr
  cases u with
  | clientTask => exact absurd rfl hu
  | targetTask => exact (hg.2.2 rfl).1.trans hw

theorem not_needsAuth_of_heard {fd : Fd} {e : Event kind.object} {rr : RecvResult}
    (h : heard fd e = some rr) : ¬ NeedsAuth e := by
  match e with
  | .io (.inl o) r =>
      cases o with
      | recv _ _ => exact id
      | tlsRead _ _ => exact id
      | _ => exact nomatch h
  | .io (.inr _) _ => exact id
  | .sys _ => exact id
  | .spawned _ => exact id

theorem wp_read_pieces (chunks : List Bytes) (hw : Pieces chunks w) :
    wp (gate validator) Task.clientTask (cfg.clientStream.read (K := kind)) (Returns fun rr w' =>
      if rr.ok then Pieces (chunks ++ [rr.data]) w' else Pieces chunks w') w := by
  refine NetStream.wp_read _ _ (stays_pieces _ chunks) hw ?_
  intro w e rr hw he _ _
  rw [clientStream_fd] at he
  refine ⟨guar_client (List.prefix_append _ _) fun h =>
    h.push fun hneeds => absurd hneeds (not_needsAuth_of_heard he.heard_self), ?_⟩
  have hpieces : chunksFrom (K := kind) Fd.client (w.push e).trace =
      chunks ++ if rr.ok then [rr.data] else [] := by
    rw [World.push_trace, chunksFrom_append, chunksFrom_single (K := kind) he.heard_self, hw]
  show if rr.ok = true then Pieces (chunks ++ [rr.data]) (w.push e) else Pieces chunks (w.push e)
  cases hok : rr.ok with
  | false => simpa only [Pieces, hok, Bool.false_eq_true, if_false, List.append_nil] using hpieces
  | true => simpa only [Pieces, hok, if_true] using hpieces

/-- `processHandshake` returns what the decoder makes of the bytes read. -/
theorem wp_processHandshake (hw : Pieces [] w) (hmem : w.mem.stream.unread = []) :
    wp (gate cfg.validator) Task.clientTask (processHandshake cfg) (fun
      | .ok req, w' => Decoded cfg.validator req (readFrom (K := kind) Fd.client w'.trace)
      | .error _, _ => True) w := by
  have hparse := UringBufferedStream.wp_parse (C := gate cfg.validator)
    (fun chunks _ => wp_read_pieces cfg chunks)
    (Decoder.decode_strict cfg.validator) w.mem.stream hw (.inl hmem)
  have hstream : wp (gate cfg.validator) Task.clientTask (onStream cfg (Decoder.decode cfg.validator))
      (fun
        | .ok req, w' => Decoded cfg.validator req (readFrom (K := kind) Fd.client w'.trace)
        | .error _, _ => True) w := by
    refine wp_get_seq (O := kind.object) (wp_then hparse ?_)
    rintro ⟨res, stream⟩ w' ⟨got, hrun, -, hread⟩
    refine wp_bind (wp_member fun _ => ⟨guar_call w' _ nofun, ?_⟩)
    cases res with
    | error e => trivial
    | ok req =>
        rcases hread with hread | ⟨⟨e, he⟩, -⟩
        · refine ⟨stream.unread, ?_⟩
          rw [hmem, List.nil_append] at hrun
          rw [← hrun, World.call_trace, List.map_nil, List.append_nil, readFrom, hread, List.nil_append]
        · cases he
  refine wp_seq hstream ?_ fun _ _ _ => trivial
  intro req w hw
  -- what is drained is kept, or there is nothing to keep
  refine wp_seq (wp_of_uses (frame_harmless fun _ _ => Decoded.mono)
    (only_update trivial trivial) hw) ?_ fun _ _ _ => trivial
  intro remaining w hw
  by_cases hnil : remaining ≠ []
  · rw [if_pos hnil]
    exact wp_bind (wp_member fun _ =>
      ⟨guar_call w _ nofun, hw.mono (readFrom_mono _ (List.prefix_append _ _))⟩)
  · rw [if_neg hnil]
    exact hw

/-- A session that is not permitted ends at once, any other has authorisation. -/
theorem wp_dispatch (req : Request)
    (hw : Decoded cfg.validator req (readFrom (K := kind) Fd.client w.trace)) :
    wp (gate cfg.validator) Task.clientTask (dispatch cfg req) (fun _ _ => True) w := by
  have hauth : ∀ {β : Type} {c : Code β}, Permitted req → Only StartsTarget c →
      wp (gate cfg.validator) Task.clientTask c (fun _ _ => True) w := by
    intro β c hreq hc
    exact wp_mono (wp_of_uses frame_authorised hc (hw.authorised hreq)) fun _ _ _ => trivial
  rw [dispatch]
  cases hcommand : req.command with
  | tcp =>
      by_cases hreq : Permitted req
      · exact hauth hreq (only_runTcpSession cfg req)
      · simp only [Permitted, hcommand, true_and, not_or, reduceCtorEq, false_and, or_false] at hreq
        have hvision : setupVision req = pure false := by
          rw [setupVision, if_neg hreq.2]
          simp [hreq.1]
        rw [runTcpSession, hvision]
        trivial
  | udp =>
      by_cases hreq : Permitted req
      · exact hauth hreq (only_runUdpSession cfg req)
      · simp only [Permitted, hcommand, true_and, reduceCtorEq, false_and, false_or] at hreq
        rw [runUdpSession, if_pos (.inl hreq)]
        trivial
  | mux => trivial
  | rvs => trivial

/-- The TLS handshake delivers no piece of the stream above it. -/
theorem wp_acceptTls (hw : Pieces [] w) (hmem : w.mem.stream.unread = []) :
    wp (gate cfg.validator) Task.clientTask (acceptTls cfg) (fun _ w' =>
      Pieces [] w' ∧ w'.mem.stream.unread = []) w := by
  rw [acceptTls]
  split
  · have hstays : Stays (gate cfg.validator) Task.clientTask (fun _ => True) fun w =>
        Pieces [] w ∧ w.mem.stream.unread = [] := by
      refine ⟨fun w w' hw hr => ⟨(stays_pieces (fun _ => True) []).rely w w' hw.1 hr, ?_⟩,
        fun _ _ _ _ => trivial⟩
      obtain ⟨u, hu, hg, -⟩ := hr
      cases u with
      | clientTask => exact absurd rfl hu
      | targetTask => rw [(hg.2.2 rfl).2, hw.2]
    refine wp_net rfl hstays trivial ⟨hw, hmem⟩ ?_
    intro w r hw _
    refine ⟨guar_client (List.prefix_append _ _) fun h => h.push nofun, ?_, hw.2⟩
    simpa [Pieces, chunksFrom, answers, heard] using hw.1
  · exact ⟨hw, hmem⟩

theorem wp_runSession (hw : Pieces [] w) (hmem : w.mem.stream.unread = []) :
    wp (gate cfg.validator) Task.clientTask (runSession cfg) (fun _ _ => True) w := by
  refine wp_seq (wp_acceptTls cfg hw hmem) ?_ fun _ _ _ => trivial
  rintro accepted w ⟨hw, hmem⟩
  cases accepted with
  | false => exact wp_bind (wp_member fun _ => ⟨guar_call w _ nofun, trivial⟩)
  | true =>
      refine wp_seq (wp_processHandshake cfg hw hmem) ?_ fun _ _ _ => trivial
      intro req w hw
      refine wp_bind (wp_member fun _ => ⟨guar_call w _ nofun, ?_⟩)
      have hw' : Decoded cfg.validator req (readFrom (K := kind) Fd.client
          (w.call fun s => ({ s with command := req.command }, [])).trace) :=
        hw.mono (readFrom_mono _ (List.prefix_append _ _))
      exact wp_seq (wp_dispatch cfg req hw') (fun _ _ _ => trivial) fun _ _ _ => trivial

theorem wp_clientTask (hw : Pieces [] w) (hmem : w.mem.stream.unread = []) :
    wp (gate cfg.validator) Task.clientTask (clientTask cfg) (fun _ _ => True) w := by
  refine wp_clientTask_of (F := fun _ => True) (Q := fun _ => True)
    (wp_mono (wp_runSession cfg hw hmem) ?_) fun w _ => ⟨guar_call w _ nofun, trivial⟩
  intro r _ _
  cases r with
  | ok returned =>
      cases returned with
      | true => trivial
      | false => trivial
  | error _ => trivial

theorem wp_targetTask (hw : Authorised cfg.validator (readFrom (K := kind) Fd.client w.trace)) :
    wp (gate cfg.validator) Task.targetTask (targetTask cfg) (fun _ _ => True) w := by
  refine wp_targetTask_of (F := fun _ => True) (G := fun _ => True) (Q := fun _ => True) ?_ ?_ ?_
  · refine wp_mono (wp_of_uses frame_targetSide (only_relayTargetToClient cfg) hw) ?_
    intro r _ _
    cases r with
    | ok _ => trivial
    | error _ => trivial
  · exact fun w _ => ⟨guar_call w _ fun _ => rfl, trivial⟩
  · refine fun w _ => ⟨guar_call w _ fun _ => ?_, trivial⟩
    simp only [finishTargetTask]
    split <;> rfl

end Wp

end Gate

namespace Gate

theorem invariant (cfg : Config) {p : Pool kind.object} (hp : Reachable cfg p) :
    Gated cfg.validator p.world.trace := by
  have hstart : (gate cfg.validator).pre Task.clientTask ⟨{}, []⟩ := ⟨rfl, rfl⟩
  refine Contract.invariant gate_stable ?_ hstart (fun w => Gated cfg.validator w.trace) gated_nil
    (fun t w w' hg _ hw => hg.2.1 hw) hp trivial
  intro t w hpre _
  cases t with
  | clientTask => exact wp_clientTask cfg hpre.1 hpre.2
  | targetTask => exact wp_targetTask cfg hpre

end Gate

/-- **Nothing before authentication.** In every run, whenever something is written to the client or a
    socket is created or connected, the decoder has returned a permitted request on the bytes read
    from the client before; and if these never give one, nothing of the kind happens. -/
theorem nothing_before_authentication (cfg : Config) {p : Pool kind.object}
    (hp : Reachable cfg p) :
    Gate.Gated cfg.validator p.world.trace ∧
      (¬ Gate.Authorised cfg.validator (readFrom (K := kind) Fd.client p.world.trace) →
        ∀ e ∈ p.world.trace, ¬ Gate.NeedsAuth e) := by
  have hgated := Gate.invariant cfg hp
  refine ⟨hgated, fun hnot e he hneeds => hnot ?_⟩
  obtain ⟨before, after, hsplit⟩ := List.append_of_mem he
  refine (hgated before e after hsplit hneeds).mono (readFrom_mono _ ?_)
  rw [hsplit]
  exact List.prefix_append _ _

/-- A run that gets to the response. -/
theorem plainServer_gated :
    wroteTo (K := kind) Fd.client
        (sampleRun plainServer [plainRequest] [] [.clientTask, .clientTask]).world.trace = [0, 0] ∧
      Gate.Gated plainServer.validator
        (sampleRun plainServer [plainRequest] [] [.clientTask, .clientTask]).world.trace :=
  ⟨by decide +kernel,
    (nothing_before_authentication plainServer (sampleRun_reachable plainServer _ _ _)).1⟩

end VlessConnection

end Cppvless
