import Cppvless.Client.Socks5UdpRelay

set_option autoImplicit false

/-! # The descriptors of the UDP relay

What matters about the relay for its descriptors: which were opened and how often each was closed, who
holds them, and which operations are in flight on them. A descriptor of a session starts as a local of
`recvLoop`, belongs to the session once there is one, and is gone when somebody has closed it. -/

namespace Cppvless

open Coroutine

namespace Socks5UdpRelay

/-- The descriptor that a call closes. -/
def closing : Event kind.object → Option Fd
  | .sys (.close fd) => some fd
  | _ => none

/-- The descriptor that an operation has opened. -/
def opening : Event kind.object → Option Fd
  | .io (.inl (.socket fd _ _)) opened => if (opened : Bool) then some fd else none
  | .io (.inr .eventfd) opened => if (opened : Bool) then some .event else none
  | _ => none

/-- How often `fd` was closed. -/
def closes (tr : List (Event kind.object)) (fd : Fd) : Nat := (tr.filterMap closing).count fd

def Opened (tr : List (Event kind.object)) (fd : Fd) : Prop := fd ∈ tr.filterMap opening

/-- Members and trace as far as descriptors are concerned. -/
structure Ledger where
  closed : Bool
  udpFd : Option Fd
  eventFd : Option Fd
  sessions : List (Key × Nat)
  remoteFd : Nat → Option Fd
  stream : Nat → Option (NetStream Fd)
  alive : Nat → Bool
  nextRemote : Nat
  pending : Fd → Dir → Bool
  connecting : Option Nat
  stale : Option Nat
  opened : Fd → Prop
  closes : Fd → Nat
  spawned : Task → Prop

def Mem.ledger (m : Mem) (opened : Fd → Prop) (closes : Fd → Nat) (spawned : Task → Prop) : Ledger where
  closed := m.closed
  udpFd := m.udpFd
  eventFd := m.eventFd
  sessions := m.sessions
  remoteFd n := (m.session n).remoteFd
  stream n := (m.session n).stream
  alive n := (m.session n).alive
  nextRemote := m.nextRemote
  pending := m.pending
  connecting := m.connecting
  stale := m.stale
  opened
  closes
  spawned

def ledger (w : World kind.object) : Ledger :=
  w.mem.ledger (Opened w.trace) (closes w.trace) fun t => .spawned t ∈ w.trace

namespace Ledger

/-- What a run may be assumed to do: a session is stored before its task closes it, nobody closes a session
    on which another operation is in flight, and the relay is not closed while a session is being
    stored. -/
structure Assumed where
  stored : Prop
  undisturbed : Prop
  quiet : Prop

/-- The relay has its eventfd, or is closed. -/
def Running (l : Ledger) : Prop := l.closed = true ∨ l.eventFd = some .event ∧ l.opened .event

/-- No session is being stored. -/
def Quiet (l : Ledger) : Prop := ∀ n, l.connecting = some n → l.remoteFd n = none

/-- What always holds. -/
structure Inv (a : Assumed) (l : Ledger) : Prop where
  held : ∀ n fd, l.remoteFd n = some fd →
    fd = .remote n ∧ l.opened (.remote n) ∧ l.closes (.remote n) = 0
  alive : ∀ n, l.alive n = (l.remoteFd n).isSome
  stream : ∀ n st, l.stream n = some st → st.fd = .remote n
  reads : ∀ n, l.remoteFd n ≠ none → l.stream n ≠ none
  released : ∀ n, l.remoteFd n = none → l.opened (.remote n) →
    l.closes (.remote n) = 1 ∨ l.connecting = some n
  unopened : ∀ n, ¬ l.opened (.remote n) → l.closes (.remote n) = 0
  once : ∀ fd, l.closes fd ≤ 1 ∧ (0 < l.closes fd → fd = .udp ∨ l.opened fd)
  keys : (l.sessions.map Prod.fst).Nodup
  listed : ∀ n, l.remoteFd n ≠ none → (∃ key, (key, n) ∈ l.sessions) ∨ l.connecting = some n
  started : ∀ n, l.remoteFd n ≠ none → l.spawned (.outTask n) ∨ l.connecting = some n
  served : ∀ key n, (key, n) ∈ l.sessions → l.spawned (.outTask n)
  fresh : ∀ n, l.nextRemote ≤ n →
    ¬ l.opened (.remote n) ∧ ¬ l.spawned (.outTask n) ∧ l.connecting ≠ some n
  table : ∀ n d, l.pending (.remote n) d = true →
    l.connecting = some n ∧ ¬ l.spawned (.outTask n) ∨ l.remoteFd n ≠ none ∨ l.stale = some n ∧ d = .write
  begun : ∀ n, l.connecting = some n ∨ l.remoteFd n ≠ none → l.spawned .recvLoop
  writes : l.stale ≠ none → l.spawned .recvLoop
  relay : l.closed = false → l.udpFd = some .udp ∧ l.closes .udp = 0 ∧ l.closes .event = 0
  cancelled : l.closed = true → ∀ d, l.pending .udp d = false ∧ l.pending .event d = false
  stopped : l.closed = true → l.opened .event → l.closes .udp = 1 ∧ l.closes .event = 1
  failed : ¬ l.opened .event → l.closes .udp = 0
  running : l.spawned .recvLoop → Running l
  stored : a.stored → l.stale = none ∧ ∀ fd d, l.pending fd d = true → l.closes fd = 0

/-- Whose operations are in this place of the table. -/
def Owns (l : Ledger) : Task → Fd → Dir → Prop
  | .recvLoop, .udp, .read => True
  | .recvLoop, .remote _, .write => True
  | .recvLoop, .remote n, .read => ¬ l.spawned (.outTask n)
  | .sendLoop, .udp, .write => True
  | .sendLoop, .event, .read => True
  | .outTask n, .remote m, .read => n = m ∧ l.spawned (.outTask n)
  | _, _, _ => False

theorem Owns.of_outTask {l : Ledger} {n : Nat} {fd : Fd} {d : Dir} (h : l.Owns (.outTask n) fd d) :
    fd = .remote n ∧ d = .read ∧ l.spawned (.outTask n) := by
  cases fd with
  | udp => exact h.elim
  | event => exact h.elim
  | remote m =>
      cases d with
      | write => exact h.elim
      | read => exact ⟨congrArg Fd.remote h.1.symm, rfl, h.2⟩

/-- What everybody but `recvLoop` leaves as it is. -/
structure Others (l l' : Ledger) : Prop where
  connecting : l'.connecting = l.connecting
  stale : l'.stale = l.stale
  nextRemote : l'.nextRemote = l.nextRemote
  sessions : ∀ x ∈ l'.sessions, x ∈ l.sessions
  opened : ∀ n, l'.opened (.remote n) ↔ l.opened (.remote n)
  spawned : ∀ n, l'.spawned (.outTask n) → l.spawned (.outTask n)
  free : ∀ n, l.remoteFd n = none → l'.remoteFd n = none ∧
    l'.closes (.remote n) = l.closes (.remote n) ∧ l'.pending (.remote n) = l.pending (.remote n)
  shut : ∀ n, l.remoteFd n ≠ none → l'.remoteFd n = none →
    l'.closes (.remote n) = l.closes (.remote n) + 1 ∧ ∀ d, l'.pending (.remote n) d = false

/-- The steps of `t`. -/
structure Moves (a : Assumed) (t : Task) (l l' : Ledger) : Prop where
  inv : Inv a l → Inv a l'
  closed : l.closed = true → l'.closed = true
  running : Running l → Running l'
  spawned : ∀ u, l.spawned u → l'.spawned u
  flips : l.closed = false → l'.closed = true → t = .control ∧ l.spawned .recvLoop ∨ Quiet l
  closes : l.closed = false → l'.closed = true → Inv a l → Quiet l → ∀ n, l'.remoteFd n = none
  others : t ≠ .recvLoop → Others l l'
  replaces : ∀ n, l.spawned (.outTask n) → l.remoteFd n = none → l'.remoteFd n = none
  kept : a.undisturbed → l'.closed = false → ∀ fd d, l.pending fd d = true →
    l'.pending fd d = true ∨ Owns l t fd d

variable {a : Assumed} {t : Task} {l : Ledger} {n : Nat}

/-! ## Single steps -/

def setPending (fd : Fd) (d : Dir) (b : Bool) (l : Ledger) : Ledger :=
  { l with pending := Function.update l.pending fd (Function.update (l.pending fd) d b) }

theorem Moves.refl (a : Assumed) (t : Task) (l : Ledger) : Moves a t l l where
  inv := id
  closed := id
  running := id
  spawned _ := id
  flips hc hc' := absurd hc' (by simp [hc])
  closes hc hc' := absurd hc' (by simp [hc])
  others _ := ⟨rfl, rfl, rfl, fun _ => id, fun _ => Iff.rfl, fun _ => id, fun _ h => ⟨h, rfl, rfl⟩,
    fun _ h h' => absurd h' h⟩
  replaces _ _ := id
  kept _ _ _ _ := .inl

/-- A step that closes nothing. -/
theorem Moves.of_open {l' : Ledger} (inv : Inv a l → Inv a l') (hclosed : l'.closed = l.closed)
    (running : Running l → Running l') (spawned : ∀ u, l.spawned u → l'.spawned u)
    (others : t ≠ .recvLoop → Others l l')
    (replaces : ∀ n, l.spawned (.outTask n) → l.remoteFd n = none → l'.remoteFd n = none)
    (kept : a.undisturbed → l'.closed = false → ∀ fd d, l.pending fd d = true →
      l'.pending fd d = true ∨ Owns l t fd d) : Moves a t l l' where
  inv := inv
  closed h := hclosed.trans h
  running := running
  spawned := spawned
  flips hc hc' := absurd (hclosed.symm.trans hc') (by simp [hc])
  closes hc hc' := absurd (hclosed.symm.trans hc') (by simp [hc])
  others := others
  replaces := replaces
  kept := kept

@[simp] theorem setPending_pending (fd fd' : Fd) (d d' : Dir) (b : Bool) (l : Ledger) :
    (l.setPending fd d b).pending fd' d' = if fd' = fd ∧ d' = d then b else l.pending fd' d' := by
  simp only [setPending, Function.update_apply]
  grind

theorem setPending_pending_remote {fd : Fd} {d : Dir} {b : Bool}
    (h : fd = .remote n → l.pending fd d = b) :
    (l.setPending fd d b).pending (.remote n) = l.pending (.remote n) := by
  funext d'
  rw [setPending_pending]
  grind

/-- An operation is removed from the table. -/
theorem moves_disarm {fd : Fd} {d : Dir} (hinv : Inv a l) (howns : Owns l t fd d) :
    Moves a t l (l.setPending fd d false) := by
  refine .of_open (fun h => ?_) rfl id (fun _ => id) (fun ht => ?_) (fun _ _ => id) ?_
  · exact { h with
      table := fun n d' hd => h.table n d' (by grind [setPending_pending])
      cancelled := fun hc d' => by
        have := h.cancelled hc d'
        grind [setPending_pending]
      stored := fun ha => ⟨(h.stored ha).1, fun fd' d' hd => (h.stored ha).2 fd' d' (by grind [setPending_pending])⟩ }
  · refine ⟨rfl, rfl, rfl, fun _ => id, fun _ => Iff.rfl, fun _ => id, fun n hn => ⟨hn, rfl, ?_⟩, fun _ h h' => absurd h' h⟩
    -- a session that is not there has no reader
    refine setPending_pending_remote ?_
    rintro rfl
    by_contra hp
    have htable := hinv.table n d (by simpa using hp)
    cases t <;> cases d <;> grind [Owns]
  · intro _ _ fd' d' hd
    rw [setPending_pending]
    grind

/-- An operation is entered into the table. -/
theorem moves_arm {fd : Fd} {d : Dir}
    (hremote : ∀ n, fd = .remote n →
      l.connecting = some n ∧ ¬ l.spawned (.outTask n) ∨ l.remoteFd n ≠ none ∨ l.stale = some n ∧ d = .write)
    (hrelay : fd = .udp ∨ fd = .event → l.closed = false)
    (hstored : a.stored → l.closes fd = 0)
    (hothers : t ≠ .recvLoop → ∀ n, fd = .remote n → l.remoteFd n ≠ none) :
    Moves a t l (l.setPending fd d true) := by
  refine .of_open (fun h => ?_) rfl id (fun _ => id) (fun ht => ?_) (fun _ _ => id) ?_
  · exact { h with
      table := fun n d' hd => by
        rw [setPending_pending] at hd
        have := h.table n d'
        grind [setPending]
      cancelled := fun hc d' => by
        have := h.cancelled hc d'
        have hc : l.closed = true := hc
        grind [setPending_pending]
      stored := fun ha => ⟨(h.stored ha).1, fun fd' d' hd => by
        have := (h.stored ha).2 fd' d'
        rw [setPending_pending] at hd
        grind [setPending]⟩ }
  · refine ⟨rfl, rfl, rfl, fun _ => id, fun _ => Iff.rfl, fun _ => id, fun n hn => ⟨hn, rfl, ?_⟩, fun _ h h' => absurd h' h⟩
    exact setPending_pending_remote fun h => absurd hn (hothers ht n h)
  · intro _ _ fd' d' hd
    rw [setPending_pending]
    grind

/-! ## The steps of `recvLoop` -/

/-- A step of `recvLoop` that closes nothing and leaves the table and the sessions there are. -/
theorem Moves.of_recvLoop {l' : Ledger} (inv : Inv a l → Inv a l') (hclosed : l'.closed = l.closed)
    (running : Running l → Running l') (spawned : ∀ u, l.spawned u → l'.spawned u)
    (hfd : ∀ n, l.spawned (.outTask n) → l.remoteFd n = none → l'.remoteFd n = none)
    (hpending : l'.pending = l.pending) : Moves a .recvLoop l l' :=
  .of_open inv hclosed running spawned (absurd rfl) hfd fun _ _ _ _ hd => .inl (hpending ▸ hd)

/-- `getOrCreateSession` turns to the next socket. -/
def nextSocket (l : Ledger) : Ledger :=
  { l with nextRemote := l.nextRemote + 1, connecting := some l.nextRemote }

theorem moves_nextSocket (hconn : l.connecting = none) (hrecv : l.spawned .recvLoop) :
    Moves a .recvLoop l l.nextSocket := by
  refine .of_recvLoop (fun h => ?_) rfl id (fun _ => id) (fun _ _ => id) rfl
  exact { h with
    released := fun n hn ho => .inl ((h.released n hn ho).resolve_right (by simp [hconn]))
    listed := fun n hn => .inl ((h.listed n hn).resolve_right (by simp [hconn]))
    started := fun n hn => .inl ((h.started n hn).resolve_right (by simp [hconn]))
    fresh := fun n hn => by
      have := h.fresh n (Nat.le_of_succ_le hn)
      grind [nextSocket]
    table := fun n d hd => .inr ((h.table n d hd).resolve_left (by simp [hconn]))
    begun := fun _ _ => hrecv }

/-- A descriptor is opened. -/
def openFd (fd : Fd) (l : Ledger) : Ledger := { l with opened := fun fd' => l.opened fd' ∨ fd' = fd }

theorem moves_openFd (hconn : l.connecting = some n) : Moves a .recvLoop l (l.openFd (.remote n)) := by
  refine .of_recvLoop (fun h => ?_) rfl (Or.imp_right fun h => ⟨h.1, .inl h.2⟩) (fun _ => id)
    (fun _ _ => id) rfl
  exact { h with
    held := fun m fd hm => ⟨(h.held m fd hm).1, .inl (h.held m fd hm).2.1, (h.held m fd hm).2.2⟩
    released := fun m hm ho => by
      have := h.released m hm
      grind [openFd]
    unopened := fun m hm => h.unopened m fun ho => hm (.inl ho)
    once := fun fd => ⟨(h.once fd).1, fun hc => ((h.once fd).2 hc).imp_right .inl⟩
    fresh := fun m hm => by
      have := h.fresh m hm
      grind [openFd]
    stopped := fun hc ho => h.stopped hc (ho.resolve_right nofun)
    failed := fun hf => h.failed fun ho => hf (.inl ho)
    running := fun hr => (h.running hr).imp_right fun h => ⟨h.1, .inl h.2⟩ }

/-- The handshake has failed and closes its socket. -/
def closeFd (fd : Fd) (l : Ledger) : Ledger :=
  { l with closes := Function.update l.closes fd (l.closes fd + 1) }

theorem moves_closeFd (hconn : l.connecting = some n) (hfd : l.remoteFd n = none)
    (hopened : l.opened (.remote n)) (hcloses : l.closes (.remote n) = 0) (hpending : ∀ d, l.pending (.remote n) d = false) :
    Moves a .recvLoop l (l.closeFd (.remote n)) := by
  have hother : ∀ fd, fd ≠ .remote n → (l.closeFd (.remote n)).closes fd = l.closes fd :=
    fun fd h => Function.update_of_ne h _ _
  refine .of_recvLoop (fun h => ?_) rfl id (fun _ => id) (fun _ _ => id) rfl
  exact { h with
    held := fun m fd hm => by
      have := h.held m fd hm
      have := hother (.remote m)
      grind [closeFd]
    released := fun m hm ho => by
      have := h.released m hm ho
      have := hother (.remote m)
      grind [closeFd]
    unopened := fun m hm => by
      have := h.unopened m hm
      have := hother (.remote m)
      grind [closeFd]
    once := fun fd => by
      by_cases hfd' : fd = .remote n
      · have hself : (l.closeFd (.remote n)).closes fd = 1 := by simp [closeFd, hfd', hcloses]
        exact ⟨hself.le, fun _ => .inr (hfd' ▸ hopened)⟩
      · rw [hother fd hfd']
        exact h.once fd
    relay := fun hc => ⟨(h.relay hc).1, (hother .udp nofun).trans (h.relay hc).2.1,
      (hother .event nofun).trans (h.relay hc).2.2⟩
    stopped := fun hc ho => ⟨(hother .udp nofun).trans (h.stopped hc ho).1,
      (hother .event nofun).trans (h.stopped hc ho).2⟩
    failed := fun hf => (hother .udp nofun).trans (h.failed hf)
    stored := fun ha => ⟨(h.stored ha).1, fun fd d hd => by
      have hd : l.pending fd d = true := hd
      have := (h.stored ha).2 fd d hd
      have := hother fd
      grind⟩ }

/-- `getOrCreateSession` gives up. -/
def drop (l : Ledger) : Ledger := { l with connecting := none }

theorem moves_drop (hconn : l.connecting = some n) (hfd : l.remoteFd n = none)
    (hgone : l.opened (.remote n) → l.closes (.remote n) = 1)
    (hpending : ∀ d, l.pending (.remote n) d = false) : Moves a .recvLoop l l.drop := by
  refine .of_recvLoop (fun h => ?_) rfl id (fun _ => id) (fun _ _ => id) rfl
  exact { h with
    released := fun m hm ho => by
      have := h.released m hm ho
      grind [drop]
    listed := fun m hm => by
      have := h.listed m hm
      grind [drop]
    started := fun m hm => by
      have := h.started m hm
      grind [drop]
    fresh := fun m hm => ⟨(h.fresh m hm).1, (h.fresh m hm).2.1, nofun⟩
    table := fun m d hd => by
      have hd : l.pending (.remote m) d = true := hd
      have := h.table m d hd
      grind [drop]
    begun := fun m hm => h.begun m (.inr (hm.resolve_left nofun)) }

/-- The socket becomes that of a session. -/
def create (n : Nat) (st : NetStream Fd) (l : Ledger) : Ledger :=
  { l with
    remoteFd := Function.update l.remoteFd n (some (.remote n))
    stream := Function.update l.stream n (some st)
    alive := Function.update l.alive n true }

theorem moves_create {st : NetStream Fd} (hst : st.fd = .remote n) (hconn : l.connecting = some n)
    (hopened : l.opened (.remote n)) (hcloses : l.closes (.remote n) = 0)
    (hspawned : ¬ l.spawned (.outTask n)) : Moves a .recvLoop l (l.create n st) := by
  have hself : (l.create n st).remoteFd n = some (.remote n) := Function.update_self ..
  have hother : ∀ m, m ≠ n → (l.create n st).remoteFd m = l.remoteFd m :=
    fun m h => Function.update_of_ne h _ _
  refine .of_recvLoop (fun h => ?_) rfl id (fun _ => id) (fun m hm hn => ?_) rfl
  · exact { h with
      held := fun m fd hm => by
        have := h.held m fd
        have := hother m
        grind [create]
      alive := fun m => by
        have := h.alive m
        simp only [create, Function.update_apply]
        grind
      stream := fun m st' hm => by
        have := h.stream m st'
        simp only [create, Function.update_apply] at hm
        grind
      reads := fun m hm => by
        have := h.reads m
        simp only [create, Function.update_apply] at hm ⊢
        grind
      released := fun m hm ho => h.released m (by grind) ho
      listed := fun m hm => by
        have := h.listed m
        have := hother m
        grind [create]
      started := fun m hm => by
        have := h.started m
        have := hother m
        grind [create]
      table := fun m d hd => by
        have := h.table m d hd
        have := hother m
        grind [create]
      begun := fun m hm => by
        have := h.begun m
        have := h.begun n
        have := hother m
        grind [create] }
  · have := hother m
    grind

/-- The session's task is started. -/
def spawn (u : Task) (l : Ledger) : Ledger := { l with spawned := fun u' => l.spawned u' ∨ u' = u }

theorem moves_spawn_outTask (hfd : l.remoteFd n ≠ none) : Moves a .recvLoop l (l.spawn (.outTask n)) := by
  refine .of_recvLoop (fun h => ?_) rfl id (fun _ => .inl) (fun _ _ => id) rfl
  exact { h with
    started := fun m hm => (h.started m hm).imp_left .inl
    served := fun key m hm => .inl (h.served key m hm)
    fresh := fun m hm => by
      obtain ⟨fd, hfd⟩ := Option.ne_none_iff_exists'.1 hfd
      have := h.fresh m hm
      have := h.held n fd hfd
      grind [spawn]
    table := fun m d hd => by
      have := h.table m d hd
      grind [spawn]
    begun := fun m hm => .inl (h.begun m hm)
    writes := fun hs => .inl (h.writes hs)
    running := fun hr => h.running (hr.resolve_right nofun) }

/-- `sessions_[key] = session` -/
def store (key : Key) (n : Nat) (l : Ledger) : Ledger :=
  { l with sessions := (key, n) :: l.sessions.filter fun x => x.1 ≠ key, connecting := none }

/-- What is replaced is not alive, and the new session is that of a started task or closed already. -/
theorem moves_store {key : Key} (hconn : l.connecting = some n) (hspawned : l.spawned (.outTask n))
    (hgone : l.remoteFd n = none → l.closes (.remote n) = 1)
    (hkey : ∀ m, m ≠ n → (key, m) ∈ l.sessions → l.remoteFd m = none) :
    Moves a .recvLoop l (l.store key n) := by
  refine .of_recvLoop (fun h => ?_) rfl id (fun _ => id) (fun _ _ => id) rfl
  exact { h with
    released := fun m hm ho => by
      have := h.released m hm ho
      grind [store]
    keys := by
      refine List.nodup_cons.2 ⟨fun hmem => ?_, h.keys.sublist (List.filter_sublist.map _)⟩
      obtain ⟨x, hx, rfl⟩ := List.mem_map.1 hmem
      simp at hx
    listed := fun m hm => by
      refine .inl ?_
      have hm : l.remoteFd m ≠ none := hm
      by_cases hmn : m = n
      · exact ⟨key, hmn ▸ List.mem_cons_self⟩
      · obtain ⟨key', hmem⟩ := (h.listed m hm).resolve_right (by grind)
        refine ⟨key', List.mem_cons_of_mem _ (List.mem_filter.2 ⟨hmem, ?_⟩)⟩
        grind
    started := fun m hm => by
      have := h.started m hm
      grind [store]
    served := fun key' m hm => by
      rcases List.mem_cons.1 hm with hnew | hold
      · obtain ⟨rfl, rfl⟩ := Prod.mk.inj hnew
        exact hspawned
      · exact h.served key' m (List.mem_filter.1 hold).1
    fresh := fun m hm => ⟨(h.fresh m hm).1, (h.fresh m hm).2.1, nofun⟩
    table := fun m d hd => by
      have hd : l.pending (.remote m) d = true := hd
      have := h.table m d hd
      grind [store]
    begun := fun m hm => h.begun m (.inr (hm.resolve_left nofun)) }

def setStale (s : Option Nat) (l : Ledger) : Ledger := { l with stale := s }

theorem moves_setStale {s : Option Nat} (hrecv : l.spawned .recvLoop)
    (hnone : ∀ n, l.stale = some n → l.pending (.remote n) .write = false) (hstored : a.stored → s = none) : Moves a .recvLoop l (l.setStale s) := by
  refine .of_recvLoop (fun h => ?_) rfl id (fun _ => id) (fun _ _ => id) rfl
  exact { h with
    table := fun m d hd => by
      have hd : l.pending (.remote m) d = true := hd
      have := h.table m d hd
      have := hnone m
      grind [setStale]
    writes := fun _ => hrecv
    stored := fun ha => ⟨hstored ha, (h.stored ha).2⟩ }

/-! ## Closing -/

open Classical in
/-- The sessions `S` are closed. -/
noncomputable def closeAll (S : Nat → Prop) (l : Ledger) : Ledger :=
  { l with
    remoteFd := fun n => if S n then none else l.remoteFd n
    alive := fun n => if S n then false else l.alive n
    pending
      | .remote n => if S n then fun _ => false else l.pending (.remote n)
      | fd => l.pending fd
    closes
      | .remote n => if S n then l.closes (.remote n) + 1 else l.closes (.remote n)
      | fd => l.closes fd }

section CloseAll

variable {S : Nat → Prop}

theorem closeAll_of_not (hn : ¬ S n) : (l.closeAll S).remoteFd n = l.remoteFd n ∧
    (l.closeAll S).alive n = l.alive n ∧ (l.closeAll S).pending (.remote n) = l.pending (.remote n) ∧
    (l.closeAll S).closes (.remote n) = l.closes (.remote n) := by
  simp [closeAll, hn]

theorem closeAll_of (hn : S n) : (l.closeAll S).remoteFd n = none ∧ (l.closeAll S).alive n = false ∧
    (∀ d, (l.closeAll S).pending (.remote n) d = false) ∧
    (l.closeAll S).closes (.remote n) = l.closes (.remote n) + 1 := by
  simp [closeAll, hn]

theorem inv_closeAll (hS : ∀ n, S n → l.remoteFd n ≠ none) (h : Inv a l) : Inv a (l.closeAll S) := by
  have hheld : ∀ n, l.remoteFd n ≠ none → l.opened (.remote n) ∧ l.closes (.remote n) = 0 := by
    intro n hn
    obtain ⟨fd, hfd⟩ := Option.ne_none_iff_exists'.1 hn
    exact (h.held n fd hfd).2
  have hfree : ∀ n, (l.closeAll S).remoteFd n ≠ none → ¬ S n ∧ l.remoteFd n ≠ none := by
    intro n hn
    have h₁ := closeAll_of (l := l) (S := S) (n := n)
    have h₂ := closeAll_of_not (l := l) (S := S) (n := n)
    grind
  have hpending : ∀ fd d, (l.closeAll S).pending fd d = true →
      l.pending fd d = true ∧ ∀ n, fd = .remote n → ¬ S n := by
    intro fd d hd
    cases fd with
    | udp => exact ⟨hd, nofun⟩
    | event => exact ⟨hd, nofun⟩
    | remote m =>
        by_cases hm : S m
        · rw [(closeAll_of hm).2.2.1 d] at hd
          exact nomatch hd
        · rw [(closeAll_of_not hm).2.2.1] at hd
          refine ⟨hd, fun n hn => ?_⟩
          obtain rfl : m = n := by simpa using hn
          exact hm
  exact { h with
    held := fun n fd hn => by
      have hn' := hfree n (by simp [hn])
      have := closeAll_of_not (l := l) hn'.1
      have := h.held n fd
      grind [closeAll]
    alive := fun n => by
      have h₁ := closeAll_of (l := l) (S := S) (n := n)
      have h₂ := closeAll_of_not (l := l) (S := S) (n := n)
      have := h.alive n
      by_cases hn : S n
      · simp [h₁ hn]
      · simp [h₂ hn, this]
    reads := fun n hn => h.reads n (hfree n hn).2
    released := fun n hn ho => by
      have ho : l.opened (.remote n) := ho
      show _ ∨ l.connecting = some n
      by_cases hS' : S n
      · exact .inl (by rw [(closeAll_of hS').2.2.2, (hheld n (hS n hS')).2])
      · rw [(closeAll_of_not hS').2.2.2]
        exact h.released n ((closeAll_of_not hS').1 ▸ hn) ho
    unopened := fun n ho => by
      have ho : ¬ l.opened (.remote n) := ho
      by_cases hS' : S n
      · exact absurd (hheld n (hS n hS')).1 ho
      · rw [(closeAll_of_not hS').2.2.2]
        exact h.unopened n ho
    once := fun fd => by
      match fd with
      | .udp => exact h.once .udp
      | .event => exact h.once .event
      | .remote n =>
          by_cases hS' : S n
          · rw [(closeAll_of hS').2.2.2, (hheld n (hS n hS')).2]
            exact ⟨Nat.le_refl 1, fun _ => .inr (hheld n (hS n hS')).1⟩
          · rw [(closeAll_of_not hS').2.2.2]
            exact h.once (.remote n)
    listed := fun n hn => h.listed n (hfree n hn).2
    started := fun n hn => h.started n (hfree n hn).2
    table := fun n d hd => by
      obtain ⟨hd, hn⟩ := hpending _ d hd
      have hn := hn n rfl
      rw [(closeAll_of_not hn).1]
      exact h.table n d hd
    begun := fun n hn => h.begun n (hn.imp_right fun hn => (hfree n hn).2)
    stored := fun ha => ⟨(h.stored ha).1, fun fd d hd => by
      obtain ⟨hd, hn⟩ := hpending fd d hd
      have h0 := (h.stored ha).2 fd d hd
      cases fd with
      | udp => exact h0
      | event => exact h0
      | remote m => exact (closeAll_of_not (hn m rfl)).2.2.2.trans h0⟩ }

theorem others_closeAll (hS : ∀ n, S n → l.remoteFd n ≠ none) : Others l (l.closeAll S) := by
  refine ⟨rfl, rfl, rfl, fun _ => id, fun _ => Iff.rfl, fun _ => id, fun n hn => ?_, fun n hn hn' => ?_⟩
  · obtain ⟨h₁, -, h₂, h₃⟩ := closeAll_of_not (l := l) (S := S) (n := n) fun h => hS n h hn
    exact ⟨h₁.trans hn, h₃, h₂⟩
  · by_cases hn'' : S n
    · exact ⟨(closeAll_of hn'').2.2.2, (closeAll_of hn'').2.2.1⟩
    · exact absurd ((closeAll_of_not hn'').1.symm.trans hn') hn

theorem closeAll_of_empty (h : ∀ n, ¬ S n) : l.closeAll S = l := by
  obtain ⟨closed, udpFd, eventFd, sessions, remoteFd, stream, alive, nextRemote, pending, connecting, stale,
    opened, closes, spawned⟩ := l
  simp only [closeAll, h, if_false, mk.injEq, true_and, and_true]
  refine ⟨funext fun fd => ?_, funext fun fd => ?_⟩
  · cases fd <;> rfl
  · cases fd <;> rfl

theorem closeAll_closeAll {T : Nat → Prop} (h : ∀ n, S n → ¬ T n) :
    (l.closeAll S).closeAll T = l.closeAll fun n => S n ∨ T n := by
  unfold closeAll
  congr 1
  · funext n
    by_cases hn : S n <;> by_cases hn' : T n <;> simp [hn, hn']
  · funext n
    by_cases hn : S n <;> by_cases hn' : T n <;> simp [hn, hn']
  · funext fd
    cases fd with
    | remote n => by_cases hn : S n <;> by_cases hn' : T n <;> simp [hn, hn']
    | udp => rfl
    | event => rfl
  · funext fd
    cases fd with
    | remote n =>
        have := h n
        by_cases hn : S n <;> by_cases hn' : T n <;> simp_all
    | udp => rfl
    | event => rfl

end CloseAll

/-- A session is closed on which nobody else has an operation in flight. -/
theorem moves_closeSession (hfd : l.remoteFd n ≠ none)
    (hfree : a.undisturbed → l.closed = false → ∀ d, l.pending (.remote n) d = true → Owns l t (.remote n) d) :
    Moves a t l (l.closeAll (· = n)) := by
  have hS : ∀ m, m = n → l.remoteFd m ≠ none := fun m hm => hm ▸ hfd
  refine .of_open (inv_closeAll hS) rfl id (fun _ => id) (fun _ => others_closeAll hS) (fun m _ hm => ?_) ?_
  · exact ((others_closeAll hS).free m hm).1
  · intro hu hc fd d hd
    cases fd with
    | udp => exact .inl hd
    | event => exact .inl hd
    | remote m =>
        by_cases hm : m = n
        · subst hm
          exact .inr (hfree hu hc d hd)
        · exact .inl ((congrFun (closeAll_of_not (l := l) (S := (· = n)) hm).2.2.1 d).trans hd)

/-- The relay's own descriptors are closed, and nobody is listed any more. -/
def shut (l : Ledger) : Ledger :=
  { l with
    closed := true
    udpFd := none
    eventFd := none
    sessions := []
    pending
      | .remote n => l.pending (.remote n)
      | _ => fun _ => false
    closes
      | .udp => l.closes .udp + (if l.udpFd = none then 0 else 1)
      | .event => l.closes .event + (if l.eventFd = none then 0 else 1)
      | fd => l.closes fd }

/-- The sessions `stop` closes. -/
def Listed (l : Ledger) (n : Nat) : Prop := (∃ key, (key, n) ∈ l.sessions) ∧ l.remoteFd n ≠ none

/-- `stop` of a relay that is open. -/
noncomputable def stop (l : Ledger) : Ledger := (l.closeAll l.Listed).shut

theorem remoteFd_of_stop (h : Inv a l) (hn : l.stop.remoteFd n ≠ none) :
    l.connecting = some n ∧ l.remoteFd n ≠ none := by
  have hn : (l.closeAll l.Listed).remoteFd n ≠ none := hn
  by_cases hS : l.Listed n
  · exact absurd (closeAll_of hS).1 hn
  · rw [(closeAll_of_not hS).1] at hn
    refine ⟨(h.listed n hn).resolve_left fun hkey => hS ⟨hkey, hn⟩, hn⟩

theorem inv_stop (hrun : Running l) (hclosed : l.closed = false) (h : Inv a l) : Inv a l.stop := by
  have h' := inv_closeAll (S := l.Listed) (fun n hn => hn.2) h
  obtain ⟨hudp, hudp0, hevent0⟩ := h.relay hclosed
  obtain ⟨hevent, hopened⟩ : l.eventFd = some .event ∧ l.opened .event :=
    hrun.resolve_left (by simp [hclosed])
  have hcloses : l.stop.closes .udp = 1 ∧ l.stop.closes .event = 1 := by
    simp [stop, shut, closeAll, hudp, hevent, hudp0, hevent0]
  exact { h' with
    keys := List.nodup_nil
    served := nofun
    once := fun fd => by
      match fd with
      | .udp => exact ⟨hcloses.1.le, fun _ => .inl rfl⟩
      | .event => exact ⟨hcloses.2.le, fun _ => .inr hopened⟩
      | .remote n => exact h'.once (.remote n)
    listed := fun n hn => .inr (remoteFd_of_stop h hn).1
    relay := nofun
    cancelled := fun _ d => ⟨rfl, rfl⟩
    stopped := fun _ _ => hcloses
    failed := fun hf => absurd hopened hf
    running := fun _ => .inl rfl
    stored := fun ha => ⟨(h'.stored ha).1, fun fd d hd => by
      cases fd with
      | udp => exact nomatch hd
      | event => exact nomatch hd
      | remote n => exact (h'.stored ha).2 (.remote n) d hd⟩ }

theorem moves_stop (hrun : Running l) (hclosed : l.closed = false)
    (hquiet : t = .control ∧ l.spawned .recvLoop ∨ Quiet l) : Moves a t l l.stop where
  inv := inv_stop hrun hclosed
  closed _ := rfl
  running _ := .inl rfl
  spawned _ := id
  flips _ _ := hquiet
  closes _ _ h hq n := by
    by_contra hn
    obtain ⟨hconn, hfd⟩ := remoteFd_of_stop h hn
    exact hfd (hq n hconn)
  others _ :=
    have h := others_closeAll (S := l.Listed) fun n hn => hn.2
    ⟨rfl, rfl, rfl, nofun, h.opened, h.spawned, h.free, h.shut⟩
  replaces n _ hn := ((others_closeAll (S := l.Listed) fun n hn => hn.2).free n hn).1
  kept _ hc := nomatch hc

/-! ## The steps of `start` -/

/-- There is no eventfd. -/
def fail (l : Ledger) : Ledger := { l with closed := true }

theorem moves_fail (hrecv : ¬ l.spawned .recvLoop) (hevent : ¬ l.opened .event)
    (hpending : ∀ d, l.pending .udp d = false ∧ l.pending .event d = false) (hinv : Inv a l) :
    Moves a .control l l.fail where
  inv h :=
    { h with
      relay := nofun
      cancelled := fun _ => hpending
      stopped := fun _ ho => absurd ho hevent
      running := fun _ => .inl rfl }
  closed _ := rfl
  running _ := .inl rfl
  spawned _ := id
  flips _ _ := .inr fun n hn => absurd (hinv.begun n (.inl hn)) hrecv
  closes _ _ h _ n := by
    by_contra hn
    exact hrecv (h.begun n (.inr hn))
  others _ := ⟨rfl, rfl, rfl, fun _ => id, fun _ => Iff.rfl, fun _ => id, fun _ h => ⟨h, rfl, rfl⟩,
    fun _ h h' => absurd h' h⟩
  replaces _ _ := id
  kept _ _ _ _ := .inl

/-- The steps of `control` before it starts `recvLoop`. -/
theorem Moves.of_control {l' : Ledger} (inv : Inv a l → Inv a l') (hclosed : l'.closed = l.closed)
    (running : Running l → Running l') (spawned : ∀ u, l.spawned u → l'.spawned u)
    (houttask : ∀ n, l'.spawned (.outTask n) → l.spawned (.outTask n))
    (hopened : ∀ n, l'.opened (.remote n) ↔ l.opened (.remote n))
    (hrest : { l' with eventFd := l.eventFd, opened := l.opened, spawned := l.spawned } = l) :
    Moves a t l l' := by
  obtain ⟨closed, udpFd, eventFd, sessions, remoteFd, stream, alive, nextRemote, pending, connecting, stale,
    opened, closes, spawned'⟩ := l
  simp only [mk.injEq, and_true, true_and] at hrest
  obtain ⟨-, -, rfl, rfl, -, -, rfl, rfl, rfl, rfl, rfl⟩ := hrest
  exact .of_open inv hclosed running spawned
    (fun _ => ⟨rfl, rfl, rfl, fun _ => id, hopened, houttask, fun n hn => ⟨hn, rfl, rfl⟩,
      fun _ h h' => absurd h' h⟩) (fun _ _ => id) fun _ _ _ _ => .inl

theorem moves_openEvent (hclosed : l.closed = false) (hrecv : ¬ l.spawned .recvLoop) :
    Moves a .control l (l.openFd .event) := by
  refine .of_control (fun h => ?_) rfl (Or.imp_right fun h => ⟨h.1, .inl h.2⟩) (fun _ => id) (fun _ => id)
    (fun n => or_iff_left nofun) rfl
  exact { h with
    held := fun m fd hm => ⟨(h.held m fd hm).1, .inl (h.held m fd hm).2.1, (h.held m fd hm).2.2⟩
    released := fun m hm ho => h.released m hm (ho.resolve_right nofun)
    unopened := fun m hm => h.unopened m fun ho => hm (.inl ho)
    once := fun fd => ⟨(h.once fd).1, fun hc => ((h.once fd).2 hc).imp_right .inl⟩
    fresh := fun m hm => ⟨fun ho => (h.fresh m hm).1 (ho.resolve_right nofun), (h.fresh m hm).2⟩
    stopped := fun hc => absurd hc (by simp [openFd, hclosed])
    failed := fun hf => h.failed fun ho => hf (.inl ho)
    running := fun hr => absurd hr hrecv }

def setEventFd (l : Ledger) : Ledger := { l with eventFd := some .event }

theorem moves_setEventFd (hopened : l.opened .event) : Moves a .control l l.setEventFd := by
  have hrun : Running l.setEventFd := .inr ⟨rfl, hopened⟩
  refine .of_control (fun h => ?_) rfl (fun _ => hrun) (fun _ => id) (fun _ => id) (fun _ => Iff.rfl) rfl
  exact { h with running := fun _ => hrun }

/-- One of the two loops is started. -/
theorem moves_spawn {u : Task} (hu : ∀ n, u ≠ .outTask n) (hrun : Running l) :
    Moves a .control l (l.spawn u) := by
  refine .of_control (fun h => ?_) rfl id (fun _ => .inl) (fun n hn => hn.resolve_right fun h => hu n h.symm)
    (fun _ => Iff.rfl) rfl
  exact { h with
    started := fun m hm => (h.started m hm).imp_left .inl
    served := fun key m hm => .inl (h.served key m hm)
    fresh := fun m hm => ⟨(h.fresh m hm).1, fun hs => (h.fresh m hm).2.1 (hs.resolve_right fun h => hu m h.symm),
      (h.fresh m hm).2.2⟩
    table := fun m d hd => (h.table m d hd).imp_left fun h => ⟨h.1, fun hs => h.2 (hs.resolve_right fun h => hu m h.symm)⟩
    begun := fun m hm => .inl (h.begun m hm)
    writes := fun hs => .inl (h.writes hs)
    running := fun _ => hrun }

end Ledger

end Socks5UdpRelay

end Cppvless
