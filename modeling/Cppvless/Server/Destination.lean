import Cppvless.Server.Handshake
import Cppvless.Vless.Encoder

set_option autoImplicit false

/-! # Where a session goes

What a session does beyond the client is decided by the request. It asks the name service for the name in
it and for nothing else, it makes and connects one kind of socket, to the address in the request or to the
first usable one that the name service has answered, and it moves bytes there only after the connection
was made. Every event is judged by what comes before it (`Aimed`). -/

namespace Cppvless

open Coroutine

namespace VlessConnection

/-- `SOCK_DGRAM` for UDP, `SOCK_STREAM` otherwise. -/
def Request.socketType (req : Request) : SockType :=
  if req.command = .udp then .dgram else .stream

/-- An address that `createTargetSocket` uses. -/
def Usable (addr : SockAddr) : Prop := addr.family = .inet ∨ addr.family = .inet6

instance : DecidablePred Usable := fun addr =>
  inferInstanceAs (Decidable (addr.family = .inet ∨ addr.family = .inet6))

/-- `req` leads to the address it names, or to the first usable one the name service has answered for the
    name in it. -/
inductive Leads (req : Request) (tr : List (Event kind.object)) : SockAddr → Prop
  | ipv4 (ip : List.Vector UInt8 4) (haddress : req.address = .ipv4 ip) :
      Leads req tr ⟨.inet, ip.toList, req.port⟩
  | ipv6 (ip : List.Vector UInt8 16) (haddress : req.address = .ipv6 ip) :
      Leads req tr ⟨.inet6, ip.toList, req.port⟩
  | domain (name : Bytes) (res : List SockAddr) (addr : SockAddr) (haddress : req.address = .domain name)
      (hres : .io (.inl (.getaddrinfo (name.takeWhile (· ≠ 0)) req.port (Request.socketType req)))
        (some res) ∈ tr) (hfind : res.find? Usable = some addr) : Leads req tr addr

/-- The target socket was connected to where `req` leads. -/
def Connected (req : Request) (tr : List (Event kind.object)) : Prop :=
  ∃ addr, ∃ result : Int, Leads req tr addr ∧ 0 ≤ result ∧
    .io (.inl (.connect .target addr)) result ∈ tr

/-- What `e` does beyond the client is what `req` asks for, after `before`. -/
def Aimed (req : Request) (before : List (Event kind.object)) : Event kind.object → Prop
  | .io (.inl (.getaddrinfo host port type)) _ =>
      ∃ name, req.address = .domain name ∧ host = name.takeWhile (· ≠ 0) ∧ port = req.port ∧
        type = Request.socketType req
  | .io (.inl (.socket fd family type)) _ =>
      fd = .target ∧ type = Request.socketType req ∧ ∃ addr, Leads req before addr ∧ family = addr.family
  | .io (.inl (.connect fd addr)) _ => fd = .target ∧ Leads req before addr
  | .io (.inl (.send .target _)) _ => Connected req before
  | .io (.inl (.tlsWriteFull .target _)) _ => Connected req before
  | .io (.inl (.recv .target _)) _ => Connected req before
  | .io (.inl (.tlsRead .target _)) _ => Connected req before
  | _ => True

variable {req : Request} {tr tr' : List (Event kind.object)} {addr : SockAddr}

theorem Leads.mono (h : Leads req tr addr) (htrace : tr <+: tr') : Leads req tr' addr := by
  cases h with
  | ipv4 ip haddress => exact .ipv4 ip haddress
  | ipv6 ip haddress => exact .ipv6 ip haddress
  | domain name res addr haddress hres hfind =>
      exact .domain name res addr haddress (htrace.subset hres) hfind

theorem Connected.mono (h : Connected req tr) (htrace : tr <+: tr') : Connected req tr' := by
  obtain ⟨addr, result, hleads, hresult, hconnect⟩ := h
  exact ⟨addr, result, hleads.mono htrace, hresult, htrace.subset hconnect⟩

namespace Destination

variable {w w' : World kind.object} {header payload : Bytes}

/-- An event that needs no request: the client is served, or something is done that nobody sees. -/
def Harmless : Event kind.object → Prop
  | .io (.inl o) _ => ¬ o.Reads .target ∧ ¬ o.Writes .target ∧
      (∀ host port type, o ≠ .getaddrinfo host port type) ∧
      (∀ fd family type, o ≠ .socket fd family type) ∧ ∀ fd addr, o ≠ .connect fd addr
  | _ => True

/-- What an operation does is aimed if the socket is connected, and if it is of no concern to the target. -/
theorem aimed_net {o : NetOp Fd} (r : o.Res) (hname : ∀ host port type, o ≠ .getaddrinfo host port type)
    (hsocket : ∀ fd family type, o ≠ .socket fd family type) (hconnect : ∀ fd addr, o ≠ .connect fd addr)
    (h : o.Reads .target ∨ o.Writes .target → Connected req tr) : Aimed req tr (.io (.inl o) r) := by
  cases o with
  | getaddrinfo host port type => exact absurd rfl (hname host port type)
  | socket fd family type => exact absurd rfl (hsocket fd family type)
  | connect fd addr => exact absurd rfl (hconnect fd addr)
  | recv fd n =>
      cases fd with
      | client => trivial
      | target => exact h (.inl rfl)
  | tlsRead fd n =>
      cases fd with
      | client => trivial
      | target => exact h (.inl rfl)
  | send fd data =>
      cases fd with
      | client => trivial
      | target => exact h (.inr rfl)
  | tlsWriteFull fd data =>
      cases fd with
      | client => trivial
      | target => exact h (.inr rfl)
  | shutdownWr fd => trivial
  | tlsHandshake fd => trivial
  | tlsShutdownWrite fd => trivial

theorem Harmless.aimed {e : Event kind.object} (h : Harmless e) : Aimed req tr e := by
  cases e with
  | sys c => trivial
  | spawned t => trivial
  | io o r =>
      cases o with
      | inr o => trivial
      | inl o =>
          obtain ⟨hreads, hwrites, hname, hsocket, hconnect⟩ := h
          exact aimed_net r hname hsocket hconnect fun h => absurd h (not_or.2 ⟨hreads, hwrites⟩)

/-- Once the socket is connected, bytes may move. -/
theorem aimed_of_connected {o : NetOp Fd} (h : Connected req tr) (r : o.Res)
    (ho : ∃ fd, o.Reads fd ∨ o.Writes fd ∨ o.Shuts fd) : Aimed req tr (.io (.inl o) r) := by
  refine aimed_net r ?_ ?_ ?_ fun _ => h
  · rintro host port type rfl
    simp [NetOp.Reads, NetOp.Writes, NetOp.Shuts] at ho
  · rintro fd family type rfl
    simp [NetOp.Reads, NetOp.Writes, NetOp.Shuts] at ho
  · rintro fd addr rfl
    simp [NetOp.Reads, NetOp.Writes, NetOp.Shuts] at ho

/-! ## The contract -/

/-- Whatever happens is aimed, and what is connected stays so. -/
def contract (req : Request) (header payload : Bytes) : Contract kind.object where
  env tr := readFrom (K := kind) Fd.client tr <+: header ++ payload
  guar t w w' := (EachStep (Aimed req) w.trace → EachStep (Aimed req) w'.trace) ∧
    (Connected req w.trace → Connected req w'.trace) ∧
    (w.mem.targetTaskStarted = true → w'.mem.targetTaskStarted = true) ∧
    (t = Task.targetTask → w.mem.targetTaskStarted = true)
  parked _ _ _ := True
  pre
    | .clientTask, w => w.mem = {} ∧ w.trace = []
    | .targetTask, w => w.mem.targetTaskStarted = true ∧ Connected req w.trace
  post _ _ := True

theorem stable : (contract req header payload).Stable := by
  refine ⟨fun tr tr' h => ?_, fun _ _ _ _ _ _ => trivial, fun _ _ _ _ _ => trivial⟩
  exact (readFrom_mono (K := kind) Fd.client (List.prefix_append tr tr')).trans h

/-- An aimed event. -/
theorem guar_push {t : Task} {e : Event kind.object} (he : Aimed req w.trace e)
    (ht : t = Task.targetTask → w.mem.targetTaskStarted = true) :
    (contract req header payload).guar t w (w.push e) :=
  ⟨fun h => eachStep_concat.2 ⟨h, he⟩, fun h => h.mono (List.prefix_append _ _), id, ht⟩

theorem eachStep_sys (h : EachStep (Aimed req) tr) (calls : List (Syscall Fd)) :
    EachStep (Aimed req) (tr ++ calls.map (Event.sys (O := kind.object))) := by
  induction calls generalizing tr with
  | nil => simpa using h
  | cons c calls ih =>
      have haimed : Aimed req tr (.sys c) := trivial
      have hnext := ih (eachStep_concat.2 ⟨h, haimed⟩)
      simpa using hnext

theorem guar_call {t : Task} (f : Mem → Mem × List (Syscall Fd))
    (hf : w.mem.targetTaskStarted = true → (f w.mem).1.targetTaskStarted = true)
    (ht : t = Task.targetTask → w.mem.targetTaskStarted = true) :
    (contract req header payload).guar t w (w.call f) :=
  ⟨fun h => eachStep_sys h _, fun h => h.mono (List.prefix_append _ _), hf, ht⟩

theorem rely_client (h : (contract req header payload).rely Task.clientTask w w') :
    w.mem.targetTaskStarted = true ∧ (Connected req w.trace → Connected req w'.trace) := by
  obtain ⟨u, hu, hg, -⟩ := h
  cases u with
  | clientTask => exact absurd rfl hu
  | targetTask => exact ⟨hg.2.2.2 rfl, hg.2.1⟩

/-! ## Before the connection -/

/-- Until it connects, `clientTask` is alone and has done nothing beyond the client. -/
structure Serving (w : World kind.object) : Prop where
  started : w.mem.targetTaskStarted = false
  harmless : ∀ e ∈ w.trace, Harmless e

theorem Serving.aimed (h : Serving w) : EachStep (Aimed req) w.trace := by
  intro before e after hsplit
  exact (h.harmless e (by simp [hsplit])).aimed

theorem Serving.not_connected (h : Serving w) : ¬ Connected req w.trace := by
  rintro ⟨addr, result, -, -, hconnect⟩
  exact (h.harmless _ hconnect).2.2.2.2 _ _ rfl

theorem Serving.push (h : Serving w) {e : Event kind.object} (he : Harmless e) :
    Serving (w.push e) where
  started := h.started
  harmless e' he' := by
    rcases List.mem_append.1 he' with he' | he'
    · exact h.harmless e' he'
    · exact List.mem_singleton.1 he' ▸ he

theorem Serving.call (h : Serving w) {f : Mem → Mem × List (Syscall Fd)}
    (hf : (f w.mem).1.targetTaskStarted = w.mem.targetTaskStarted) : Serving (w.call f) where
  started := hf.trans h.started
  harmless e he := by
    rcases List.mem_append.1 he with he | he
    · exact h.harmless e he
    · obtain ⟨c, -, rfl⟩ := List.mem_map.1 he
      trivial

/-- What only concerns the client. -/
theorem harmless_net {o : NetOp Fd} (r : o.Res)
    (ho : o.Reads .client ∨ o.Writes .client ∨ o = .tlsHandshake .client) :
    Harmless (.io (.inl o) r) := by
  rcases ho with ho | ho | rfl
  · refine ⟨fun h => absurd (ho.unique h) (by simp), ho.not_writes, ?_, ?_, ?_⟩
    · rintro host port type rfl
      exact ho
    · rintro fd family type rfl
      exact ho
    · rintro fd addr rfl
      exact ho
  · refine ⟨fun h => h.not_writes ho, fun h => absurd (ho.unique h) (by simp), ?_, ?_, ?_⟩
    · rintro host port type rfl
      exact ho
    · rintro fd family type rfl
      exact ho
    · rintro fd addr rfl
      exact ho
  · exact ⟨id, id, by simp, by simp, by simp⟩

theorem handshakes : Handshake.Handshakes (contract req header payload) Serving where
  alone w w' hw hr := absurd (rely_client hr).1 (by simp [hw.started])
  parked _ _ _ _ := trivial
  guar w w' hw hw' _ :=
    ⟨fun _ => hw'.aimed, fun h => absurd h hw.not_connected,
      fun h => absurd (hw.started.symm.trans h) (by simp), fun h => absurd h (by simp)⟩
  push w e hw _ _ _ hserves := by
    obtain ⟨o, r, rfl, ho⟩ := hserves
    exact hw.push (harmless_net r (ho.imp_right .inr))
  modify w f hw hf := by
    obtain ⟨stream, handshakeRemaining, hs⟩ := hf w.mem
    exact hw.call (by rw [hs])

theorem frame_serving :
    Frame (contract req header payload) Task.clientTask Setup Serving where
  rely w w' hw hr := absurd (rely_client hr).1 (by simp [hw.started])
  parked _ _ _ _ _ := trivial
  member f w hf hw _ := by
    obtain ⟨⟨-, -, -, hstarted⟩, -⟩ := hf w.mem
    exact ⟨guar_call f (fun h => hstarted.trans h) nofun, hw.call hstarted⟩
  io o r w ho hw _ := by
    cases o with
    | inl o =>
        have hharmless := harmless_net r ho
        exact ⟨guar_push hharmless.aimed nofun, hw.push hharmless⟩
    | inr o =>
        have hharmless : Harmless (.io (O := kind.object) (.inr o) r) := trivial
        exact ⟨guar_push hharmless.aimed nofun, hw.push hharmless⟩
  spawn _ _ h := h.elim

/-! ## Connecting -/

/-- `clientTask` is alone, and the request leads to `addr`. -/
def Bound (req : Request) (addr : SockAddr) (w : World kind.object) : Prop :=
  w.mem.targetTaskStarted = false ∧ Leads req w.trace addr

theorem Bound.push {e : Event kind.object} (h : Bound req addr w) : Bound req addr (w.push e) :=
  ⟨h.1, h.2.mono (List.prefix_append _ _)⟩

theorem wp_openTargetSocket (hw : Bound req addr w) :
    wp (contract req header payload) Task.clientTask
      (openTargetSocket addr (Request.socketType req)) (Returns fun res w' =>
        w'.mem.targetTaskStarted = false ∧ ∀ a, res = some a → Bound req a w') w := by
  refine wp_bind (wp_call (O := kind.object) rfl fun opened _ => ⟨guar_push ?_ nofun, hw.1, ?_⟩)
  · exact ⟨rfl, rfl, addr, hw.2, rfl⟩
  · intro a ha
    split at ha
    · exact Option.some.inj ha ▸ hw.push
    · exact nomatch ha

theorem wp_createTargetSocket (hw : Serving w) :
    wp (contract req header payload) Task.clientTask (createTargetSocket req) (Returns fun res w' =>
      w'.mem.targetTaskStarted = false ∧ ∀ a, res = some a → Bound req a w') w := by
  unfold createTargetSocket
  cases haddress : req.address with
  | ipv4 ip => exact wp_openTargetSocket ⟨hw.started, .ipv4 ip haddress⟩
  | ipv6 ip => exact wp_openTargetSocket ⟨hw.started, .ipv6 ip haddress⟩
  | domain name =>
      refine wp_bind (wp_call (O := kind.object) rfl fun res _ => ⟨guar_push ?_ nofun, ?_⟩)
      · exact ⟨name, haddress, rfl, rfl, rfl⟩
      · have hres : .io (.inl (.getaddrinfo (name.takeWhile (· ≠ 0)) req.port (Request.socketType req)))
            res ∈ (w.answer (.inl (.getaddrinfo (name.takeWhile (· ≠ 0)) req.port
              (Request.socketType req))) res).trace :=
          List.mem_append_right _ (List.mem_singleton.2 rfl)
        cases res with
        | none => exact ⟨hw.started, nofun⟩
        | some res =>
            dsimp only
            split
            · exact ⟨hw.started, nofun⟩
            · next addr hfind =>
                exact wp_openTargetSocket ⟨hw.started, .domain name res addr haddress hres hfind⟩

theorem wp_connectTarget (hw : Serving w) :
    wp (contract req header payload) Task.clientTask (connectTarget req) (Returns fun connected w' =>
      w'.mem.targetTaskStarted = false ∧ (connected = true → Connected req w'.trace)) w := by
  refine wp_then (wp_createTargetSocket hw) ?_
  rintro res w ⟨hstarted, hres⟩
  cases res with
  | none => exact ⟨hstarted, nofun⟩
  | some addr =>
      have hstays : Stays (contract req header payload) Task.clientTask (fun _ => True)
          (Bound req addr) :=
        ⟨fun w w' hw hr => absurd (rely_client hr).1 (by simp [hw.1]), fun _ _ _ _ => trivial⟩
      refine wp_net_seq rfl hstays trivial (hres addr rfl) ?_
      intro w result hw _
      refine ⟨guar_push ⟨rfl, hw.2⟩ nofun, ?_⟩
      split
      · exact wp_member_seq fun _ => ⟨guar_call _ id nofun, hw.1, nofun⟩
      · next hresult =>
          refine wp_member_seq fun _ => ⟨guar_call _ id nofun, hw.1, fun _ => ?_⟩
          refine Connected.mono ⟨addr, result, hw.2.mono (List.prefix_append _ _),
            Int.not_lt.1 hresult, ?_⟩ (List.prefix_append _ _)
          exact List.mem_append_right _ (List.mem_singleton.2 rfl)

/-! ## Relaying -/

theorem frame_clientSide :
    Frame (contract req header payload) Task.clientTask ClientSide fun w => Connected req w.trace where
  rely w w' hw hr := (rely_client hr).2 hw
  parked _ _ _ _ _ := trivial
  member f w hf hw _ := by
    obtain ⟨_, _, _, hs⟩ := hf w.mem
    exact ⟨guar_call f (fun h => by rw [hs]; exact h) nofun, hw.mono (List.prefix_append _ _)⟩
  io o r w ho hw _ := by
    refine ⟨guar_push ?_ nofun, hw.mono (List.prefix_append _ _)⟩
    cases o with
    | inr o => trivial
    | inl o =>
        refine aimed_of_connected hw r ?_
        rcases ho with ho | ho | ho
        · exact ⟨_, .inl ho⟩
        · exact ⟨_, .inr (.inl ho)⟩
        · exact ⟨_, .inr (.inr ho)⟩
  spawn _ _ h := h.elim

theorem wp_startTargetTask (hw : Connected req w.trace) :
    wp (contract req header payload) Task.clientTask startTargetTask (Returns fun _ w' =>
      Connected req w'.trace) w := by
  refine wp_member_seq fun _ => ⟨guar_call _ (fun _ => rfl) nofun, wp_spawn fun _ => ?_⟩
  have hconnected : Connected req (w.call fun s => ({ s with targetTaskStarted := true }, [])).trace :=
    hw.mono (List.prefix_append _ _)
  have hnext := hconnected.mono (List.prefix_append _ [Event.spawned (O := kind.object) Task.targetTask])
  refine ⟨guar_push trivial nofun, ⟨rfl, hnext⟩, fun w₁ hl => ?_⟩
  exact frame_clientSide.later hnext hl

/-- From a connected socket on. -/
theorem wp_relay {α : Type} {c : Code α} (hc : Only ClientSide c) (hw : Connected req w.trace) :
    wp (contract req header payload) Task.clientTask c (fun _ _ => True) w :=
  wp_mono (wp_of_uses frame_clientSide hc hw) fun _ _ _ => trivial

theorem wp_setup {α : Type} {c : Code α} (hc : Only Setup c) (hw : Serving w) :
    wp (contract req header payload) Task.clientTask c (fun _ => Serving) w :=
  wp_of_uses frame_serving hc hw

section Session

variable (cfg : Config)

theorem wp_runTcpSession (hw : Serving w) :
    wp (contract req header payload) Task.clientTask (runTcpSession cfg req) (fun _ _ => True) w := by
  refine wp_seq (wp_setup (only_setupVision req) hw) ?_ fun _ _ _ => trivial
  intro vision w hw
  split
  · trivial
  · refine wp_seq (wp_setup (only_setupEncryption cfg req) hw) ?_ fun _ _ _ => trivial
    intro encryption w hw
    split
    · trivial
    · refine wp_seq (wp_setup (only_sendResponseAndKey cfg req.version) hw) ?_ fun _ _ _ => trivial
      intro sent w hw
      split
      · trivial
      · refine wp_then (wp_connectTarget hw) ?_
        rintro connected w ⟨-, hconnected⟩
        cases connected with
        | false => trivial
        | true =>
            refine wp_then (wp_startTargetTask (hconnected rfl)) fun _ w hw => ?_
            refine wp_seq (wp_of_uses frame_clientSide only_forwardHandshakeRemaining hw) ?_
              fun _ _ _ => trivial
            intro forwarded w hw
            split
            · trivial
            · exact wp_relay (only_relayClientToTarget cfg) hw

theorem wp_runUdpSession (hw : Serving w) :
    wp (contract req header payload) Task.clientTask (runUdpSession cfg req) (fun _ _ => True) w := by
  unfold runUdpSession
  split
  · trivial
  · refine wp_seq (wp_setup (only_sendResponseAndKey cfg req.version) hw) ?_ fun _ _ _ => trivial
    intro sent w hw
    split
    · trivial
    · refine wp_then (wp_connectTarget hw) ?_
      rintro connected w ⟨-, hconnected⟩
      cases connected with
      | false => trivial
      | true =>
          refine wp_then (wp_startTargetTask (hconnected rfl)) fun _ w hw => ?_
          exact wp_relay (only_relayUdpClientToTarget cfg) hw

theorem wp_dispatch (hw : Serving w) :
    wp (contract req header payload) Task.clientTask (dispatch cfg req) (fun _ _ => True) w := by
  unfold dispatch
  split
  · exact wp_runTcpSession cfg hw
  · exact wp_runUdpSession cfg hw
  · trivial
  · trivial

theorem finishClientTask_started (s : Mem) (h : s.targetTaskStarted = true) :
    (finishClientTask s).1.targetTaskStarted = true := by
  unfold finishClientTask
  dsimp only
  split
  · exact h
  · split
    · exact h
    · exact h

theorem wp_clientTask (hwf : Header cfg.validator header req) (hw : w.mem = {} ∧ w.trace = [])
    (henv : (contract req header payload).env w.trace) :
    wp (contract req header payload) Task.clientTask (clientTask cfg) (fun _ _ => True) w := by
  obtain ⟨hmem, htrace⟩ := hw
  have hserving : Serving w := ⟨by rw [hmem], by simp [htrace]⟩
  refine Handshake.wp_clientTask cfg handshakes (fun _ h => h) hwf henv hmem htrace hserving (D := fun _ => True)
    (Q := fun _ => True) (fun _ _ _ => trivial) ?_ ?_
  · intro w hw _ _
    refine ⟨guar_call _ id nofun, wp_dispatch cfg (hw.call rfl)⟩
  · exact fun w _ => ⟨guar_call _ (finishClientTask_started w.mem) nofun, trivial⟩

/-! ## The target task -/

theorem frame_targetSide : Frame (contract req header payload) Task.targetTask TargetSide
    fun w => w.mem.targetTaskStarted = true ∧ Connected req w.trace where
  rely w w' hw hr := by
    obtain ⟨_, -, hg, -⟩ := hr
    exact ⟨hg.2.2.1 hw.1, hg.2.1 hw.2⟩
  parked _ _ _ _ _ := trivial
  member f w hf hw _ := by
    obtain ⟨_, _, hs⟩ := hf w.mem
    refine ⟨guar_call f (fun h => by rw [hs]; exact h) fun _ => hw.1, ?_,
      hw.2.mono (List.prefix_append _ _)⟩
    rw [World.call_mem, hs]
    exact hw.1
  io o r w ho hw _ := by
    refine ⟨guar_push ?_ fun _ => hw.1, hw.1, hw.2.mono (List.prefix_append _ _)⟩
    cases o with
    | inr o => trivial
    | inl o =>
        refine aimed_of_connected hw.2 r ?_
        rcases ho with ho | ho | ho
        · exact ⟨_, .inl ho⟩
        · exact ⟨_, .inr (.inl ho)⟩
        · exact ⟨_, .inr (.inr ho)⟩
  spawn _ _ h := h.elim

theorem wp_targetTask (hw : w.mem.targetTaskStarted = true ∧ Connected req w.trace) :
    wp (contract req header payload) Task.targetTask (targetTask cfg) (fun _ _ => True) w := by
  have hcall : ∀ (f : Mem → Mem × List (Syscall Fd)) (w : World kind.object),
      (f w.mem).1.targetTaskStarted = w.mem.targetTaskStarted →
      w.mem.targetTaskStarted = true ∧ Connected req w.trace →
      (contract req header payload).guar Task.targetTask w (w.call f) ∧
        (w.call f).mem.targetTaskStarted = true ∧ Connected req (w.call f).trace :=
    fun f w hf hw => ⟨guar_call f (fun h => hf.trans h) fun _ => hw.1, hf.trans hw.1,
      hw.2.mono (List.prefix_append _ _)⟩
  refine wp_mono (wp_targetTask_of
    (F := fun w => w.mem.targetTaskStarted = true ∧ Connected req w.trace)
    (G := fun w => w.mem.targetTaskStarted = true ∧ Connected req w.trace)
    (Q := fun w => w.mem.targetTaskStarted = true ∧ Connected req w.trace) ?_ ?_ ?_)
    fun _ _ _ => trivial
  · refine wp_mono (wp_of_uses frame_targetSide (only_relayTargetToClient cfg) hw) ?_
    intro res w hw
    cases res with
    | ok _ => exact hw
    | error _ => exact hw
  · exact fun w hw => hcall _ w rfl hw
  · intro w hw
    refine hcall _ w ?_ hw
    cases hc : w.mem.clientReadDone with
    | true => simp [finishTargetTask, hc]
    | false => simp [finishTargetTask, hc]

theorem meets (hwf : Header cfg.validator header req) (t : Task) (w : World kind.object)
    (hpre : (contract req header payload).pre t w) (henv : (contract req header payload).env w.trace) :
    wp (contract req header payload) t (body cfg t)
      (fun _ => (contract req header payload).post t) w := by
  cases t with
  | clientTask => exact wp_clientTask cfg hwf hpre henv
  | targetTask => exact wp_targetTask cfg hpre

end Session

end Destination

/-- **A session goes where its request says.** Let the client send the header of a request and whatever it
    likes behind it. In every reachable state, and for every command and flow, the name service was asked
    only for the name in the request, a socket was made and connected only to where the request leads,
    and bytes passed between the session and the target only after that connection had succeeded. -/
theorem session_destination (cfg : Config) {header payload : Bytes} {req : Request}
    (hwf : Header cfg.validator header req) {p : Pool kind.object} (hp : Reachable cfg p)
    (hclient : readFrom (K := kind) Fd.client p.world.trace <+: header ++ payload) :
    EachStep (Aimed req) p.world.trace := by
  have hfresh : (Destination.contract req header payload).pre Task.clientTask ⟨{}, []⟩ := ⟨rfl, rfl⟩
  exact Contract.invariant Destination.stable (Destination.meets cfg hwf) hfresh
    (fun w => EachStep (Aimed req) w.trace) eachStep_nil (fun t w w' hguar _ hw => hguar.1 hw) hp hclient

/-- A request for the name `a`, port 80. -/
def nameRequest : Request :=
  { uuid := List.Vector.replicate 16 0, command := .tcp, port := 80, address := .domain [97] }

def nameHeader : Bytes := 0 :: List.replicate 16 0 ++ [0, 1, 0, 80, 2, 1, 97]

/-- The name service answers with an address the session cannot use and two that it can. -/
def nameRun : Pool kind.object :=
  run (O := kind.object) (body plainServer) Task.clientTask {}
    (fun w o => match o with
      | .inl (.getaddrinfo _ _ _) => some [⟨.other, [], 80⟩, ⟨.inet6, List.replicate 16 1, 80⟩,
          ⟨.inet, [10, 0, 0, 1], 80⟩]
      | o => (peers [nameHeader ++ [1, 2]] [[3]]).env w o) 300
    [.clientTask, .clientTask, .clientTask, .clientTask, .targetTask, .targetTask]

theorem session_destination_name :
    wroteTo (K := kind) Fd.target nameRun.world.trace = [1, 2] ∧
      EachStep (Aimed nameRequest) nameRun.world.trace := by
  have hheader : Header plainServer.validator nameHeader nameRequest := by
    have hencode : Encoder.encodeRequest nameRequest = .ok nameHeader := by decide
    exact Encoder.encodeRequest_header (.inl rfl) (by decide) hencode
  have hreachable : Reachable plainServer nameRun :=
    run_reachable (O := kind.object) (body plainServer) Task.clientTask {} _ _ _
  have hclient : readFrom (K := kind) Fd.client nameRun.world.trace <+: nameHeader ++ [1, 2] := by
    decide +kernel
  exact ⟨by decide +kernel, session_destination plainServer hheader hreachable hclient⟩

end VlessConnection

end Cppvless
