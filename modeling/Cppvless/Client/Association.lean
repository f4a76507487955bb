import Cppvless.Client.Custody
import Cppvless.Client.SessionTasks
import Cppvless.Coroutine.Turns
import Cppvless.Server.Registry

set_option autoImplicit false

/-! # A SOCKS5 session with its relay

For the event loop a session and the relay it may start are one connection: the destructor of the session
stops the relay. Of the two only the relay closes the UDP socket once it is started. -/

namespace Cppvless

open Coroutine FdEvent

namespace Socks5UdpRelay

open Sessions

/-! ## The relay closes only what it holds -/

def see (e : Event kind.object) : Option (FdEvent Fd) :=
  match opening e with
  | some fd => some (.opened fd)
  | none => (closing e).map .closed

def fdEvents (w : World kind.object) : List (FdEvent Fd) := w.trace.filterMap see

theorem see_opened {e : Event kind.object} {fd : Fd} : see e = some (.opened fd) ↔ opening e = some fd := by
  unfold see
  cases opening e <;> simp

theorem see_sys (c : Syscall Fd) : see (.sys c) = (closing (.sys c)).map .closed := rfl

theorem filterMap_see_sys (calls : List (Syscall Fd)) :
    (calls.map Event.sys).filterMap see = ((calls.map Event.sys).filterMap closing).map .closed := by
  rw [List.map_filterMap, List.filterMap_map, List.filterMap_map]
  rfl

theorem not_see_handed (e : Event kind.object) (fd : Fd) : see e ≠ some (.handed fd) := by
  unfold see
  cases opening e <;> simp

theorem opened_mem {w : World kind.object} {fd : Fd} : .opened fd ∈ fdEvents w ↔ Opened w.trace fd := by
  simp only [fdEvents, Opened, List.mem_filterMap, see_opened]

theorem closing_of_opening {e : Event kind.object} {fd : Fd} (h : opening e = some fd) : closing e = none := by
  match e with
  | .io _ _ => rfl
  | .sys _ => exact nomatch h
  | .spawned _ => rfl

theorem closes_eq (tr : List (Event kind.object)) (fd : Fd) :
    closes tr fd = (tr.filterMap see).count (.closed fd) := by
  induction tr with
  | nil => rfl
  | cons e tr ih =>
      have ih : (tr.filterMap closing).count fd = (tr.filterMap see).count (.closed fd) := ih
      show ((e :: tr).filterMap closing).count fd = _
      cases hopening : opening e with
      | some fd' => simp [closing_of_opening hopening, see, hopening, ih]
      | none =>
          cases hclosing : closing e with
          | none => simp [hclosing, see, hopening, ih]
          | some fd' => simp [hclosing, see, hopening, ih, List.count_cons]

/-- A member function of the relay that leaves the invariant true. -/
theorem valid_call {w : World kind.object} {f : Mem → Mem × List (Syscall Fd)} {a : Ledger.Assumed}
    (h : Valid [.opened .udp] (fdEvents w)) (hinv : Ledger.Inv a (ledger (w.call f))) :
    Valid [.opened .udp] (fdEvents (World.call (O := kind.object) w f)) := by
  have hevents : fdEvents (World.call (O := kind.object) w f) =
      fdEvents w ++ ((f w.mem).2.map Event.sys).filterMap see := List.filterMap_append
  rw [hevents]
  refine valid_append.2 ⟨h, valid_iff.2 fun es₁ e es₂ hes => ?_⟩
  have he : e ∈ ((f w.mem).2.map Event.sys).filterMap see := by simp [hes]
  -- the calls only close
  obtain ⟨_, hcall, hsee⟩ := List.mem_filterMap.1 he
  obtain ⟨c, _, rfl⟩ := List.mem_map.1 hcall
  rw [see_sys, Option.map_eq_some_iff] at hsee
  obtain ⟨fd, _, rfl⟩ := hsee
  obtain ⟨honce, hopened⟩ := hinv.once fd
  have hcount : (ledger (w.call f)).closes fd = (fdEvents w ++ (es₁ ++ .closed fd :: es₂)).count (.closed fd) := by
    show closes _ fd = _
    rw [closes_eq, ← hes, ← hevents]
    rfl
  rw [hcount] at honce hopened
  have hzero : .closed fd ∉ fdEvents w ++ es₁ := by
    rw [← List.append_assoc, List.count_append, List.count_cons_self] at honce
    exact List.count_eq_zero.1 (by omega)
  refine ⟨?_, by simpa using hzero⟩
  rcases hopened (List.count_pos_iff.2 (by simp)) with rfl | hopened
  · simp
  · have hopened : Opened w.trace fd := by
      rw [ledger_call] at hopened
      exact hopened
    exact List.mem_append_left _ (List.mem_append_right _ (opened_mem.2 hopened))

variable {cfg : VlessClientConfig} {p : Pool kind.object}

theorem valid_push {w : World kind.object} {e : Event kind.object} (h : Valid [.opened .udp] (fdEvents w))
    (he : closing e = none) : Valid [.opened .udp] (fdEvents (w.push e)) := by
  have hevents : fdEvents (w.push e) = fdEvents w ++ [e].filterMap see := List.filterMap_append
  rw [hevents]
  refine valid_append.2 ⟨h, ?_⟩
  cases hopening : opening e with
  | none => simp [see, hopening, he]
  | some fd => simp [see, hopening, Valid, FdEvent.Allowed]

/-- **The relay closes only what it holds**, the UDP socket being open from the start. -/
theorem valid_fdEvents (hp : ReachableIn Delivered (body cfg) Task.control {} p) :
    Valid [.opened .udp] (fdEvents p.world) := by
  induction hp with
  | refl => trivial
  | @tail q p hq hstep ih =>
      have hp : ReachableIn Delivered (body cfg) Task.control {} p := .tail hq hstep
      have hinv := inv_reachable (a := ⟨False, False, False⟩) (hp.mono fun _ _ h => ⟨h, False.elim, False.elim⟩)
      rcases hstep.1.world with h | ⟨f, h⟩ | ⟨o, r, h⟩ | ⟨t, h⟩ <;> rw [h] at hinv ⊢
      · exact ih
      · exact valid_call ih hinv
      · exact valid_push ih rfl
      · exact valid_push ih rfl

/-- So does its destructor. -/
theorem valid_stop (hp : ReachableIn Delivered (body cfg) Task.control {} p) (hstack : p.stack = []) :
    Valid [.opened .udp] (fdEvents (World.call (O := kind.object) p.world stop)) := by
  have hruns : ReachableIn (Sessions.Allowed ⟨False, False, False⟩) (body cfg) Task.control {} p :=
    hp.mono fun _ _ h => ⟨h, False.elim, False.elim⟩
  have hrests : Rests ⟨False, False, True⟩ p := rests (sound hruns) hp.reachable hstack
  exact valid_call (valid_fdEvents hp) hrests.inv_of_stop

end Socks5UdpRelay

namespace Socks5Connection

/-! ## Both together -/

/-- The descriptors of a session and its relay. -/
inductive Descriptor
  | app
  | remote
  | udp
  | event
  | session (n : Nat)
  deriving DecidableEq

def Fd.descriptor : Fd → Descriptor
  | .app => .app
  | .remote => .remote
  | .udp => .udp

def relayDescriptor : Socks5UdpRelay.Fd → Descriptor
  | .udp => .udp
  | .event => .event
  | .remote n => .session n

/-- A session, and `udpRelay_`. -/
structure Whole where
  session : Pool kind.object
  relay : Option (Pool Socks5UdpRelay.kind.object)

/-- What the session does with its descriptors, that of the application being there before. -/
def fdEvents (w : World kind.object) : List (FdEvent Fd) := w.trace.filterMap (fdEvent (K := kind))

def relayEvents (r : Option (Pool Socks5UdpRelay.kind.object)) : List (FdEvent Socks5UdpRelay.Fd) :=
  r.elim [] fun p => Socks5UdpRelay.fdEvents p.world

def relayStarted (tr : List (Event kind.object)) : Bool :=
  tr.any fun
    | .io (.inr .relayStart) _ => true
    | _ => false

/-- The descriptors that `stop` closes. -/
def stopCloses (m : Socks5UdpRelay.Mem) : List Socks5UdpRelay.Fd :=
  ((Socks5UdpRelay.stop m).2.map (Event.sys (O := Socks5UdpRelay.kind.object))).filterMap Socks5UdpRelay.closing

/-- `doClose`, which stops the relay first -/
def Whole.doClose (s : Whole) : List Descriptor :=
  (s.relay.elim [] fun p => (stopCloses p.world.mem).map relayDescriptor) ++
    (Socks5Connection.doClose s.session.world.mem).map Fd.descriptor

/-- What a relay does in one turn of the session or its own; `b` says whether the session has started
    it. -/
inductive RelayMoves (cfg : VlessClientConfig) : Bool → Option (Pool Socks5UdpRelay.kind.object) →
    List (FdEvent Socks5UdpRelay.Fd) → Option (Pool Socks5UdpRelay.kind.object) → Prop
  | absent : RelayMoves cfg false none [] none
  | starts (p : Pool Socks5UdpRelay.kind.object)
      (hp : ReachableIn Socks5UdpRelay.Delivered (Socks5UdpRelay.body cfg) Socks5UdpRelay.Task.control {} p)
      (hstack : p.stack = []) : RelayMoves cfg true none (Socks5UdpRelay.fdEvents p.world) (some p)
  | runs (b : Bool) (p p' : Pool Socks5UdpRelay.kind.object) (es : List (FdEvent Socks5UdpRelay.Fd))
      (hruns : Relation.ReflTransGen (Completes Socks5UdpRelay.Delivered (Socks5UdpRelay.body cfg)) p p')
      (hes : Socks5UdpRelay.fdEvents p'.world = Socks5UdpRelay.fdEvents p.world ++ es) :
      RelayMoves cfg b (some p) es (some p')

/-- What a session and its relay do, in the names of both. -/
def together (es : List (FdEvent Fd)) (es' : List (FdEvent Socks5UdpRelay.Fd)) : List (FdEvent Descriptor) :=
  es.map (map Fd.descriptor) ++ es'.map (map relayDescriptor)

/-- What the event loop sees of a SOCKS5 connection. -/
def connectionKind (cfg : VlessClientConfig) : ConnectionKind where
  State := Whole
  Fd := Descriptor
  fdEq := inferInstance
  client := .app
  isClosed s := s.session.world.mem.closed
  starts es s :=
    Starts (O := kind.object) (fun _ _ => True) (body cfg) Task.clientTask {} s.session ∧
      ∃ es', RelayMoves cfg (relayStarted s.session.world.trace) none es' s.relay ∧
        together (fdEvents s.session.world) es' = es
  completes s es s' :=
    (s'.session = s.session ∨ Completes (O := kind.object) (fun _ _ => True) (body cfg) s.session s'.session) ∧
      ∃ es₁ es₂, fdEvents s'.session.world = fdEvents s.session.world ++ es₁ ∧
        RelayMoves cfg (relayStarted (s'.session.world.trace.drop s.session.world.trace.length)) s.relay es₂ s'.relay ∧
        together es₁ es₂ = es
  doClose := Whole.doClose

section Together

variable {cfg : VlessClientConfig} {p : Pool kind.object} {l es : List (FdEvent Fd)}
  {l' es' : List (FdEvent Socks5UdpRelay.Fd)}

theorem fdEvents_eq (w : World kind.object) :
    fdEvents w = (ownership.seen w.trace).filter fun e => !e.isHanded := by
  show _ = (w.trace.filterMap see).filter _
  rw [List.filter_filterMap]
  refine List.filterMap_congr fun e _ => ?_
  match e with
  | .io (.inl o) r =>
      cases o with
      | socket fd family type => cases (r : Bool) <;> rfl
      | _ => rfl
  | .io (.inr o) r => cases o <;> rfl
  | .sys c => cases c <;> rfl
  | .spawned t => rfl

theorem custody_fdEvents (hp : Reachable cfg p) : Cppvless.Custody .app (fdEvents p.world) p.world.mem.remoteFd :=
  fdEvents_eq p.world ▸ (custody cfg hp).filter

/-- The session does not close the UDP socket of its relay. -/
theorem held_udp (hp : Reachable cfg p) (hstarted : relayStarted p.world.trace = true) :
    Held (fdEvents p.world) .udp ∧ p.world.mem.remoteFd ≠ some .udp := by
  have hcustody := custody cfg hp
  have hhanded : .handed .udp ∈ ownership.seen p.world.trace := by
    obtain ⟨e, he, hstart⟩ := List.any_eq_true.1 hstarted
    refine List.mem_filterMap.2 ⟨e, he, ?_⟩
    match e, hstart with
    | .io (.inr .relayStart) _, _ => rfl
  refine ⟨fdEvents_eq p.world ▸ held_filter.2 (hcustody.handed _ hhanded), fun hfd => ?_⟩
  exact (hcustody.member _ hfd).2.1 hhanded

theorem descriptor_inj {fd fd' : Fd} (h : fd.descriptor = fd'.descriptor) : fd = fd' := by
  cases fd <;> cases fd' <;> first | rfl | exact nomatch h

theorem relayDescriptor_inj {fd fd' : Socks5UdpRelay.Fd} (h : relayDescriptor fd = relayDescriptor fd') : fd = fd' := by
  cases fd <;> cases fd' <;> simp_all [relayDescriptor]

/-- The UDP socket is all they share. -/
theorem descriptor_eq_relay {fd : Fd} {fd' : Socks5UdpRelay.Fd} (h : fd.descriptor = relayDescriptor fd') :
    fd = .udp ∧ fd' = .udp := by
  cases fd <;> cases fd' <;> first | exact ⟨rfl, rfl⟩ | exact nomatch h

theorem opened_together {d : Descriptor} :
    .opened d ∈ together l l' ↔
      (∃ fd, fd.descriptor = d ∧ .opened fd ∈ l) ∨ ∃ fd, relayDescriptor fd = d ∧ .opened fd ∈ l' := by
  rw [together, List.mem_append, opened_mem_map, opened_mem_map]

theorem closed_together {d : Descriptor} :
    .closed d ∈ together l l' ↔
      (∃ fd, fd.descriptor = d ∧ .closed fd ∈ l) ∨ ∃ fd, relayDescriptor fd = d ∧ .closed fd ∈ l' := by
  rw [together, List.mem_append, closed_mem_map, closed_mem_map]

/-- What the session holds, unless the relay may have closed it. -/
theorem held_session {fd : Fd} (h : Held (.opened .app :: l) fd) (hudp : fd = .udp → l' = []) :
    Held (.opened .app :: together l l') fd.descriptor := by
  refine ⟨?_, fun hmem => ?_⟩
  · rcases List.mem_cons.1 h.1 with happ | hmem
    · obtain rfl : fd = .app := by simpa using happ
      exact List.mem_cons_self
    · exact List.mem_cons_of_mem _ (opened_together.2 (.inl ⟨fd, rfl, hmem⟩))
  · rcases closed_together.1 ((List.mem_cons.1 hmem).resolve_left nofun) with ⟨fd', hfd, hclosed⟩ | ⟨fd', hfd, hclosed⟩
    · exact h.2 (List.mem_cons_of_mem _ (descriptor_inj hfd ▸ hclosed))
    · simp [hudp (descriptor_eq_relay hfd.symm).1] at hclosed

/-- What the relay holds, if the session has not closed the UDP socket. -/
theorem held_relay {fd : Socks5UdpRelay.Fd} (h : Held (.opened .udp :: l') fd) (hudp : Held l .udp) :
    Held (.opened .app :: together l l') (relayDescriptor fd) := by
  refine ⟨List.mem_cons_of_mem _ (opened_together.2 ?_), fun hmem => ?_⟩
  · rcases List.mem_cons.1 h.1 with hfirst | hmem
    · obtain rfl : fd = .udp := by simpa using hfirst
      exact .inl ⟨.udp, rfl, hudp.1⟩
    · exact .inr ⟨fd, rfl, hmem⟩
  · rcases closed_together.1 ((List.mem_cons.1 hmem).resolve_left nofun) with ⟨fd', hfd, hclosed⟩ | ⟨fd', hfd, hclosed⟩
    · exact hudp.2 ((descriptor_eq_relay hfd).1 ▸ hclosed)
    · exact h.2 (List.mem_cons_of_mem _ (relayDescriptor_inj hfd ▸ hclosed))

theorem held_congr {Fd : Type} {l l' : List (FdEvent Fd)} {fd : Fd} (h : Held l fd) (hmem : ∀ e, e ∈ l ↔ e ∈ l') :
    Held l' fd := ⟨(hmem _).1 h.1, fun hc => h.2 ((hmem _).2 hc)⟩

/-- A session and its relay do not get in each other's way. -/
theorem valid_together (hvalid : Valid [.opened .app] (l ++ es)) (hvalid' : Valid [.opened .udp] (l' ++ es'))
    (hes : ∀ fd, .handed fd ∉ es) (hes' : ∀ fd, .handed fd ∉ es') (hudp : l' ++ es' ≠ [] → Held (l ++ es) .udp) :
    Valid (.opened .app :: together l l') (together es es') := by
  have hvalid := valid_iff.1 (valid_append.1 hvalid).2
  have hvalid' := valid_iff.1 (valid_append.1 hvalid').2
  refine valid_append.2 ⟨valid_iff.2 fun es₁ e es₂ hsplit => ?_, valid_iff.2 fun es₁ e es₂ hsplit => ?_⟩
  · obtain ⟨a, b, rfl, rfl, hb⟩ := List.map_eq_append_iff.1 hsplit
    obtain ⟨e, b, rfl, rfl, rfl⟩ := List.map_eq_cons_iff.1 hb
    cases e with
    | opened fd => trivial
    | handed fd => exact absurd (by simp) (hes fd)
    | closed fd =>
        have hheld : Held (.opened .app :: (l ++ a)) fd := hvalid a (.closed fd) b rfl
        have hnone : fd = .udp → l' = [] := by
          rintro rfl
          by_contra hne
          exact (hudp (by simp [hne])).2 (by simp)
        refine held_congr (held_session hheld hnone) fun e => ?_
        simp only [together, List.map_append, List.mem_cons, List.mem_append]
        tauto
  · obtain ⟨a, b, rfl, rfl, hb⟩ := List.map_eq_append_iff.1 hsplit
    obtain ⟨e, b, rfl, rfl, rfl⟩ := List.map_eq_cons_iff.1 hb
    cases e with
    | opened fd => trivial
    | handed fd => exact absurd (by simp) (hes' fd)
    | closed fd =>
        have hheld : Held (.opened .udp :: (l' ++ a)) fd := hvalid' a (.closed fd) b rfl
        refine held_congr (held_relay hheld (hudp (by simp))) fun e => ?_
        simp only [together, List.map_append, List.mem_cons, List.mem_append]
        tauto

/-! ## In the event loop -/

/-- A relay is there once the session has started it, and the event loop finds it at rest. -/
structure Whole.Ok (cfg : VlessClientConfig) (s : Whole) : Prop where
  session : ReachableIn (O := kind.object) (fun _ _ => True) (body cfg) Task.clientTask {} s.session
  relay : ∀ p, s.relay = some p →
    ReachableIn Socks5UdpRelay.Delivered (Socks5UdpRelay.body cfg) Socks5UdpRelay.Task.control {} p ∧ p.stack = [] ∧
      relayStarted s.session.world.trace = true

variable {s s' : Whole} {r r' : Option (Pool Socks5UdpRelay.kind.object)} {b : Bool}

theorem RelayMoves.events (h : RelayMoves cfg b r es' r') : relayEvents r' = relayEvents r ++ es' := by
  cases h with
  | absent => rfl
  | starts p hp hstack => rfl
  | runs _ p p' _ hruns hes => exact hes

theorem RelayMoves.ok {q : Pool Socks5UdpRelay.kind.object} (h : RelayMoves cfg b r es' (some q))
    (hr : ∀ p, r = some p →
      ReachableIn Socks5UdpRelay.Delivered (Socks5UdpRelay.body cfg) Socks5UdpRelay.Task.control {} p ∧ p.stack = []) :
    (ReachableIn Socks5UdpRelay.Delivered (Socks5UdpRelay.body cfg) Socks5UdpRelay.Task.control {} q ∧ q.stack = []) ∧
      (b = true ∨ r ≠ none) := by
  cases h with
  | starts p hp hstack => exact ⟨⟨hp, hstack⟩, .inl rfl⟩
  | runs _ p p' _ hruns hes =>
      refine ⟨?_, .inr nofun⟩
      clear hes
      induction hruns with
      | refl => exact hr p rfl
      | tail _ hturn ih => exact ⟨hturn.reachableIn ih.1, hturn.2.choose_spec.2.2.2⟩

theorem relayStarted_append (tr tr' : List (Event kind.object)) :
    relayStarted (tr ++ tr') = (relayStarted tr || relayStarted tr') := List.any_append

theorem Whole.Ok.valid_relay (h : s.Ok cfg) : Valid [.opened .udp] (relayEvents s.relay) := by
  cases hrelay : s.relay with
  | none => trivial
  | some p => exact Socks5UdpRelay.valid_fdEvents (h.relay p hrelay).1

theorem Whole.Ok.udp (h : s.Ok cfg) (hrelay : s.relay ≠ none) :
    Held (fdEvents s.session.world) .udp ∧ s.session.world.mem.remoteFd ≠ some .udp := by
  obtain ⟨p, hp⟩ := Option.ne_none_iff_exists'.1 hrelay
  exact held_udp h.session.reachable (h.relay p hp).2.2

theorem not_handed_fdEvents (w : World kind.object) (fd : Fd) : .handed fd ∉ fdEvents w := by
  rw [fdEvents_eq]
  simp [isHanded]

theorem not_handed_relayEvents (r : Option (Pool Socks5UdpRelay.kind.object)) (fd : Socks5UdpRelay.Fd) :
    .handed fd ∉ relayEvents r := by
  cases r with
  | none => exact List.not_mem_nil
  | some p =>
      intro h
      obtain ⟨e, _, he⟩ := List.mem_filterMap.1 h
      exact Socks5UdpRelay.not_see_handed e fd he

/-- Whatever happened last was allowed. -/
theorem Whole.Ok.valid (h : s.Ok cfg) (hes : fdEvents s.session.world = l ++ es) (hes' : relayEvents s.relay = l' ++ es') :
    Valid (.opened .app :: together l l') (together es es') := by
  refine valid_together (hes ▸ (custody_fdEvents h.session.reachable).valid) (hes' ▸ h.valid_relay) (fun fd hmem => ?_)
    (fun fd hmem => ?_) fun hne => ?_
  · exact not_handed_fdEvents s.session.world fd (hes ▸ List.mem_append_right _ hmem)
  · exact not_handed_relayEvents s.relay fd (hes' ▸ List.mem_append_right _ hmem)
  · refine hes ▸ (h.udp fun hnone => hne ?_).1
    rw [← hes', hnone]
    rfl

theorem Whole.Ok.not_opened (h : s.Ok cfg) (hes : fdEvents s.session.world = l ++ es) :
    .opened Descriptor.app ∉ together es es' := by
  intro hmem
  rcases opened_together.1 hmem with ⟨fd, hfd, hopened⟩ | ⟨fd, hfd, _⟩
  · obtain rfl : fd = .app := descriptor_inj hfd
    exact (custody_fdEvents h.session.reachable).kept.1 (hes ▸ List.mem_append_right _ hopened)
  · cases fd <;> exact nomatch hfd

theorem Whole.Ok.completes (hs : s.Ok cfg)
    (hsession : s'.session = s.session ∨
      Completes (O := kind.object) (fun _ _ => True) (body cfg) s.session s'.session)
    (hrelay : RelayMoves cfg (relayStarted (s'.session.world.trace.drop s.session.world.trace.length)) s.relay es' s'.relay) :
    s'.Ok cfg := by
  have htrace : s.session.world.trace <+: s'.session.world.trace := by
    rcases hsession with h | h
    · exact h ▸ List.prefix_rfl
    · exact h.trace
  refine ⟨?_, fun p hp => ?_⟩
  · rcases hsession with h | h
    · exact h ▸ hs.session
    · exact h.reachableIn hs.session
  · obtain ⟨hp, hstarted⟩ := RelayMoves.ok (hp ▸ hrelay) fun q hq => ⟨(hs.relay q hq).1, (hs.relay q hq).2.1⟩
    refine ⟨hp.1, hp.2, ?_⟩
    rw [← List.prefix_iff_eq_append.1 htrace, relayStarted_append, Bool.or_eq_true]
    rcases hstarted with hnow | hbefore
    · exact .inr hnow
    · obtain ⟨q, hq⟩ := Option.ne_none_iff_exists'.1 hbefore
      exact .inl (hs.relay q hq).2.2

/-- So does the destructor. -/
theorem Whole.Ok.closes (hs : s.Ok cfg) :
    Valid (.opened Descriptor.app :: together (fdEvents s.session.world) (relayEvents s.relay))
      (s.doClose.map .closed) := by
  have hcustody := custody_fdEvents hs.session.reachable
  obtain ⟨C, hC, hvalid, hnone⟩ : ∃ C : List Socks5UdpRelay.Fd,
      s.doClose = C.map relayDescriptor ++ (Socks5Connection.doClose s.session.world.mem).map Fd.descriptor ∧
        Valid [.opened .udp] (relayEvents s.relay ++ C.map .closed) ∧
        (s.relay = none → relayEvents s.relay ++ C.map .closed = []) := by
    cases hrelay : s.relay with
    | none => exact ⟨[], by simp [Whole.doClose, hrelay], trivial, fun _ => rfl⟩
    | some p =>
        have hstop := Socks5UdpRelay.valid_stop (hs.relay p hrelay).1 (hs.relay p hrelay).2.1
        rw [Socks5UdpRelay.fdEvents, World.call_trace, List.filterMap_append, Socks5UdpRelay.filterMap_see_sys] at hstop
        exact ⟨stopCloses p.world.mem, by simp only [Whole.doClose, hrelay, Option.elim_some], hstop, nofun⟩
  have hudp : relayEvents s.relay ++ C.map .closed ≠ [] →
      Held (fdEvents s.session.world) .udp ∧ s.session.world.mem.remoteFd ≠ some .udp :=
    fun hne => hs.udp fun h => hne (hnone h)
  have hclosed : s.doClose.map FdEvent.closed =
      together [] (C.map .closed) ++ together ((Socks5Connection.doClose s.session.world.mem).map .closed) [] := by
    simp only [hC, together, List.map_append, List.map_map, List.map_nil, List.nil_append, List.append_nil]
    rfl
  rw [hclosed]
  refine valid_append.2 ⟨?_, ?_⟩
  · refine valid_together (by simpa using hcustody.valid) hvalid nofun (by simp) fun hne => ?_
    simpa using (hudp hne).1
  · have happend : .opened Descriptor.app :: together (fdEvents s.session.world) (relayEvents s.relay) ++
        together [] (C.map .closed) =
        .opened Descriptor.app :: together (fdEvents s.session.world) (relayEvents s.relay ++ C.map .closed) := by
      simp [together]
    rw [happend]
    refine valid_together (valid_append.2 ⟨hcustody.valid, hcustody.doClose⟩) (by simpa using hvalid) (by simp) nofun
      fun hne => ?_
    obtain ⟨hheld, hmember⟩ := hudp (by simpa using hne)
    refine ⟨List.mem_append_left _ hheld.1, fun hmem => ?_⟩
    rcases List.mem_append.1 hmem with hbefore | hlast
    · exact hheld.2 hbefore
    · cases hfd : s.session.world.mem.remoteFd with
      | none => simp [Socks5Connection.doClose, hfd] at hlast
      | some fd =>
          refine hmember (hfd.trans (congrArg some ?_))
          simpa [Socks5Connection.doClose, hfd, eq_comm] using hlast

/-- The session and its relay together close only what they hold. -/
def careful (cfg : VlessClientConfig) : (connectionKind cfg).Careful where
  Ok s := s.Ok cfg
  history s := .opened Descriptor.app :: together (fdEvents s.session.world) (relayEvents s.relay)
  starts := by
    rintro es s ⟨hstarts, es', hrelay, rfl⟩
    have hok : s.Ok cfg := by
      refine ⟨hstarts.reachableIn, fun p hp => ?_⟩
      have hrelay : RelayMoves cfg _ none es' (some p) := hp ▸ hrelay
      obtain ⟨hp, hstarted⟩ := hrelay.ok fun _ h => nomatch h
      exact ⟨hp.1, hp.2, hstarted.resolve_right (absurd rfl)⟩
    have hsession : fdEvents s.session.world = [] ++ fdEvents s.session.world := rfl
    have hevents : relayEvents s.relay = [] ++ es' := hrelay.events
    refine ⟨hok, hok.valid hsession hevents, hok.not_opened hsession, ?_⟩
    rw [hevents]
    exact fun _ => List.mem_cons
  completes := by
    rintro s es s' hs ⟨hsession, es₁, es₂, hes₁, hrelay, rfl⟩
    have hok : s'.Ok cfg := hs.completes hsession hrelay
    have hmem : ∀ e : FdEvent Descriptor,
        e ∈ .opened .app :: together (fdEvents s'.session.world) (relayEvents s'.relay) ↔
          e ∈ .opened .app :: together (fdEvents s.session.world) (relayEvents s.relay) ∨ e ∈ together es₁ es₂ := by
      intro e
      rw [hes₁, hrelay.events]
      simp only [together, List.map_append, List.mem_cons, List.mem_append]
      tauto
    exact ⟨hok, hok.valid hes₁ hrelay.events, hok.not_opened hes₁, hmem⟩
  closes hs := hs.closes
  client := by
    intro s hs
    have happ := (custody_fdEvents hs.session.reachable).holds
    exact held_session happ nofun

end Together

end Socks5Connection

end Cppvless
