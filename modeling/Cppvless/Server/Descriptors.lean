import Cppvless.Coroutine.Turns
import Cppvless.Server.Registry
import Cppvless.Server.Sides

set_option autoImplicit false

/-! # The descriptors of a VLESS connection

`clientTask` opens the target socket and keeps it in `targetFd`, unless connecting fails. The client
descriptor was accepted for the connection and is closed by its destructor. -/

namespace Cppvless

open Coroutine

namespace VlessConnection

/-- What `doClose` closes. -/
def doClose (s : Mem) : List Fd := s.targetFd.toList ++ [.client]

def ownership : Sole kind.object (FdEvent Fd) (Option Fd) :=
  kind.ownership Task.clientTask Fd.client Mem.targetFd fdEvent fun _ => rfl

/-- What it does with its descriptors, the client descriptor being there before. -/
def fdEvents (p : Pool kind.object) : List (FdEvent Fd) := p.world.trace.filterMap (fdEvent (K := kind))

namespace Descriptors

/-! ## What leaves the descriptors alone -/

theorem quiet_modify {f : Mem → Mem} (hf : ∀ s, (f s).targetFd = s.targetFd) :
    ownership.Quiet (.member fun s => (f s, [])) := fun s => ⟨hf s, nofun⟩

theorem quiet_net {o : NetOp Fd} (h : ∀ fd family type, o ≠ .socket fd family type) :
    ownership.Quiet (.io (.inl o)) := by
  intro r
  cases o with
  | socket fd family type => exact absurd rfl (h fd family type)
  | _ => rfl

theorem quiet_reads {o : NetOp Fd} {fd : Fd} (h : o.Reads fd) : ownership.Quiet (.io (.inl o)) :=
  quiet_net fun _ _ _ he => by rw [he] at h; exact h

theorem quiet_writes {o : NetOp Fd} {fd : Fd} (h : o.Writes fd) : ownership.Quiet (.io (.inl o)) :=
  quiet_net fun _ _ _ he => by rw [he] at h; exact h

theorem quiet_shuts {o : NetOp Fd} {fd : Fd} (h : o.Shuts fd) : ownership.Quiet (.io (.inl o)) :=
  quiet_net fun _ _ _ he => by rw [he] at h; exact h

theorem setsUp : SetsUp ownership.Quiet where
  get := trivial
  net o ho := by
    rcases ho with h | h | rfl
    · exact quiet_reads h
    · exact quiet_writes h
    · exact quiet_net nofun
  ext _ _ := rfl
  modify _ hf := quiet_modify fun s => (hf s).2

theorem quiet_clientSide (o : ObjOp kind.object) (h : ClientSide o) : ownership.Quiet o := by
  match o, h with
  | .get, _ => trivial
  | .member f, h =>
      intro s
      obtain ⟨_, _, _, hs⟩ := h s
      rw [hs]
      exact ⟨rfl, nofun⟩
  | .io (.inl o), h =>
      rcases h with h | h | h
      · exact quiet_reads h
      · exact quiet_writes h
      · exact quiet_shuts h
  | .io (.inr o), _ => exact fun _ => rfl

theorem quiet_targetSide (o : ObjOp kind.object) (h : TargetSide o) : ownership.Quiet o := by
  match o, h with
  | .get, _ => trivial
  | .member f, h =>
      intro s
      obtain ⟨_, _, hs⟩ := h s
      rw [hs]
      exact ⟨rfl, nofun⟩
  | .io (.inl o), h =>
      rcases h with h | h | h
      · exact quiet_reads h
      · exact quiet_writes h
      · exact quiet_shuts h
  | .io (.inr o), _ => exact fun _ => rfl

theorem quiet_finishClientTask : ownership.Quiet (.member finishClientTask) := by
  intro s
  cases hs : s.targetTaskStarted <;> cases hd : s.targetReadDone <;> cases hf : s.targetFd <;>
    simp [ownership, Kind.ownership, fdEvent, finishClientTask, hs, hd, hf]

theorem quiet_finishTargetTask : ownership.Quiet (.member finishTargetTask) := by
  intro s
  cases hd : s.clientReadDone <;> simp [ownership, Kind.ownership, fdEvent, finishTargetTask, hd]

theorem only_startTargetTask : Only ownership.Quiet startTargetTask :=
  .bind (only_modify (quiet_modify fun _ => rfl)) fun _ => .await nofun

/-! ## The coroutines -/

section Wp

variable (cfg : Config) {α : Type} {w : World kind.object}

/-- A socket was opened if there is an address to connect it to. -/
theorem wp_openTargetSocket (addr : SockAddr) (type : SockType) (hw : ownership.At [] none w) :
    wp ownership.contract Task.clientTask (openTargetSocket addr type) (fun r w' =>
      ownership.Kept w' ∧ ∀ a, r = .ok (some a) → ownership.At [.opened .target] none w') w := by
  refine wp_bind (Sole.wp_ask (S := ownership) (o := .inl (.socket .target addr.family type)) rfl hw ?_ ?_)
  · intro opened
    cases (opened : Bool) with
    | true => exact custody_opened nofun nofun
    | false => exact custody_start
  · intro opened w' hw'
    cases hopened : (opened : Bool) with
    | true =>
        rw [hopened] at hw'
        exact ⟨hw'.good (custody_opened nofun nofun), fun _ _ => hw'⟩
    | false =>
        rw [hopened] at hw'
        exact ⟨hw'.good custody_start, nofun⟩

theorem wp_createTargetSocket (req : Request) (hw : ownership.At [] none w) :
    wp ownership.contract Task.clientTask (createTargetSocket req) (fun r w' =>
      ownership.Kept w' ∧ ∀ a, r = .ok (some a) → ownership.At [.opened .target] none w') w := by
  simp only [createTargetSocket]
  cases req.address with
  | ipv4 ip => exact wp_openTargetSocket _ _ hw
  | ipv6 ip => exact wp_openTargetSocket _ _ hw
  | domain domain =>
      refine wp_seq (Sole.wp_quiet (.await (quiet_net (by simp))) custody_start hw) ?_ fun _ _ h =>
        ⟨h.good custody_start, by simp⟩
      intro res w hw
      cases res with
      | none => exact ⟨hw.good custody_start, by simp⟩
      | some res =>
          simp only
          cases res.find? fun a => a.family = .inet ∨ a.family = .inet6 with
          | none => exact ⟨hw.good custody_start, by simp⟩
          | some addr => exact wp_openTargetSocket _ _ hw

/-- A socket that could not be connected is closed. -/
theorem wp_connectTarget (req : Request) (hw : ownership.At [] none w) :
    wp ownership.contract Task.clientTask (connectTarget req) (fun _ => ownership.Kept) w := by
  refine wp_seq (wp_createTargetSocket req hw) ?_ fun _ _ h => h.1
  intro addr w hw
  cases addr with
  | none => exact hw.1
  | some addr =>
      have hopened := hw.2 addr rfl
      have hgood : ownership.Good [.opened .target] none := custody_opened nofun nofun
      refine wp_seq (Sole.wp_quiet (.await (quiet_net nofun)) hgood hopened) ?_ fun _ _ h => h.good hgood
      intro connectResult w hw
      by_cases hneg : connectResult < 0
      · rw [if_pos hneg]
        refine wp_bind (Sole.wp_step [.closed .target] none hw rfl ?_ (custody_closed nofun) ?_)
        · exact hw.part
        · exact fun w' hw' => hw'.good (custody_closed nofun)
      · rw [if_neg hneg]
        have hmember : ∀ x, some Fd.target = some x → x = Fd.target := fun x hx => (Option.some.inj hx).symm
        refine wp_bind (Sole.wp_step [] (some .target) hw rfl rfl (custody_opened nofun hmember) ?_)
        exact fun w' hw' => hw'.good (custody_opened nofun hmember)

theorem wp_rest {c : Code α} (hc : Only ownership.Quiet c) (hw : ownership.Kept w) :
    wp ownership.contract Task.clientTask c (fun _ => ownership.Kept) w := Sole.wp_rest hc hw

theorem only_response (version : UInt8) : Only ownership.Quiet (sendResponseAndKey cfg version) :=
  VlessConnection.only_response cfg version trivial (fun _ h => quiet_writes h) fun _ _ => rfl

theorem wp_runTcpSession (req : Request) (hw : ownership.At [] none w) :
    wp ownership.contract Task.clientTask (runTcpSession cfg req) (fun _ => ownership.Kept) w := by
  refine Sole.wp_quiet_then (setsUp.setupVision req) custody_start hw fun vision w hw => ?_
  cases vision with
  | false => exact hw.good custody_start
  | true =>
      refine Sole.wp_quiet_then (setsUp.setupEncryption cfg req) custody_start hw fun encryption w hw => ?_
      cases encryption with
      | false => exact hw.good custody_start
      | true =>
          refine Sole.wp_quiet_then (only_response cfg _) custody_start hw fun sent w hw => ?_
          cases sent with
          | false => exact hw.good custody_start
          | true =>
              refine wp_seq (wp_connectTarget req hw) ?_ fun _ _ h => h
              intro connected w hw
              cases connected with
              | false => exact hw
              | true =>
                  refine wp_rest (.bind only_startTargetTask fun _ => ?_) hw
                  refine .bind (only_forwardHandshakeRemaining.mono quiet_clientSide) fun _ => ?_
                  exact .ite (fun _ => trivial) fun _ => (only_relayClientToTarget cfg).mono quiet_clientSide

theorem wp_runUdpSession (req : Request) (hw : ownership.At [] none w) :
    wp ownership.contract Task.clientTask (runUdpSession cfg req) (fun _ => ownership.Kept) w := by
  rw [runUdpSession]
  split
  · exact hw.good custody_start
  · refine Sole.wp_quiet_then (only_response cfg _) custody_start hw fun sent w hw => ?_
    cases sent with
    | false => exact hw.good custody_start
    | true =>
        refine wp_seq (wp_connectTarget req hw) ?_ fun _ _ h => h
        intro connected w hw
        cases connected with
        | false => exact hw
        | true =>
            exact wp_rest (.bind only_startTargetTask fun _ =>
              (only_relayUdpClientToTarget cfg).mono quiet_clientSide) hw

theorem wp_dispatch (req : Request) (hw : ownership.At [] none w) :
    wp ownership.contract Task.clientTask (dispatch cfg req) (fun _ => ownership.Kept) w := by
  rw [dispatch]
  split
  · exact wp_runTcpSession cfg req hw
  · exact wp_runUdpSession cfg req hw
  · exact hw.good custody_start
  · exact hw.good custody_start

theorem wp_runSession (hw : ownership.At [] none w) :
    wp ownership.contract Task.clientTask (runSession cfg) (fun _ => ownership.Kept) w := by
  refine Sole.wp_quiet_then (setsUp.acceptTls cfg) custody_start hw fun accepted w hw => ?_
  cases accepted with
  | false =>
      exact wp_rest (.bind (only_member quiet_finishClientTask) fun _ => trivial) (hw.good custody_start)
  | true =>
      refine Sole.wp_quiet_then (setsUp.processHandshake cfg) custody_start hw fun req w hw => ?_
      refine Sole.wp_quiet_then (only_modify (quiet_modify fun _ => rfl)) custody_start hw fun _ w hw => ?_
      exact wp_seq (wp_dispatch cfg req hw) (fun _ _ h => h) fun _ _ h => h

theorem wp_clientTask (hw : ownership.At [] none w) :
    wp ownership.contract Task.clientTask (clientTask cfg) (fun _ => ownership.Kept) w := by
  have hsession : wp ownership.contract Task.clientTask
      (Coro.tryCatch (S := kind.object.sig) (runSession cfg) fun _ => pure false) (fun _ => ownership.Kept) w := by
    refine wp_tryCatch (wp_mono (wp_runSession cfg hw) ?_)
    intro r w' hw'
    cases r with
    | ok _ => exact hw'
    | error _ => exact hw'
  refine wp_seq hsession (fun returned w hw => ?_) fun _ _ h => h
  exact wp_rest (.ite (fun _ => trivial) fun _ => only_member quiet_finishClientTask) hw

theorem only_targetTask : Only ownership.Quiet (targetTask cfg) := by
  refine .bind (.tryCatch ?_ fun _ => trivial) fun _ => only_member quiet_finishTargetTask
  refine .bind ((only_relayTargetToClient cfg).mono quiet_targetSide) fun _ => ?_
  exact only_modify (quiet_modify fun _ => rfl)

end Wp

end Descriptors

/-- **A connection closes only what it holds**, and holds its client descriptor and its member. -/
theorem custody (cfg : Config) {p : Pool kind.object} (hp : Reachable cfg p) :
    Custody .client (fdEvents p) p.world.mem.targetFd := by
  refine Sole.good (S := ownership) rfl custody_start ?_ ?_ hp
  · exact fun w hw => Descriptors.wp_clientTask cfg hw
  intro t ht
  cases t with
  | clientTask => exact absurd rfl ht
  | targetTask => exact Descriptors.only_targetTask cfg

/-! ## In the event loop -/

/-- What the event loop sees of a VLESS connection. -/
def connectionKind (cfg : Config) : ConnectionKind where
  State := Pool kind.object
  Fd := Fd
  fdEq := inferInstance
  client := .client
  isClosed p := p.world.mem.closed
  starts es p :=
    Starts (O := kind.object) (fun _ _ => True) (body cfg) Task.clientTask {} p ∧ fdEvents p = es
  completes p es p' :=
    Completes (O := kind.object) (fun _ _ => True) (body cfg) p p' ∧ fdEvents p' = fdEvents p ++ es
  doClose p := doClose p.world.mem

/-- From the accept on it closes only what it holds. -/
def careful (cfg : Config) : (connectionKind cfg).Careful where
  Ok p := ReachableIn (O := kind.object) (fun _ _ => True) (body cfg) Task.clientTask {} p
  history p := .opened Fd.client :: fdEvents p
  starts := by
    rintro es p ⟨hstarts, rfl⟩
    have hcustody := custody cfg hstarts.reachableIn.reachable
    exact ⟨hstarts.reachableIn, hcustody.valid, hcustody.kept.1, fun _ => List.mem_cons⟩
  completes := by
    rintro p es p' hp ⟨hcompletes, hes⟩
    have hcustody := custody cfg (hcompletes.reachableIn hp).reachable
    rw [hes] at hcustody
    have hmem : ∀ e : FdEvent Fd, e ∈ .opened .client :: fdEvents p' ↔ e ∈ .opened .client :: fdEvents p ∨ e ∈ es := by
      rw [hes]
      exact fun e => List.mem_append (s := .opened .client :: fdEvents p)
    exact ⟨hcompletes.reachableIn hp, hcustody.later.1, hcustody.later.2, hmem⟩
  closes hp := (custody cfg hp.reachable).doClose
  client hp := (custody cfg hp.reachable).holds

end VlessConnection

end Cppvless
