import Cppvless.Net.Ownership
import Mathlib.Data.List.Perm.Basic
import Mathlib.Logic.Function.Basic
import Mathlib.Logic.Relation

set_option autoImplicit false

/-! # The registry of the event loop

`connections_` of `server::EventLoop`, from `src/server/event_loop.cpp`: what `acceptLoop`, the completions,
`cleanupClosedConnections` and `stop` do to it, in any order. Here descriptors are the numbers the kernel
hands out. It hands out none that is open, and a number is free again once it is closed, whoever closes
it. -/

namespace Cppvless

open FdEvent

/-- What the event loop knows of a kind of connections, and what these do to their descriptors. -/
structure ConnectionKind where
  State : Type 1
  Fd : Type
  fdEq : DecidableEq Fd
  /-- the descriptor of the constructor -/
  client : Fd
  isClosed : State → Bool
  /-- `start()` of a new connection -/
  starts : List (FdEvent Fd) → State → Prop
  /-- a completion -/
  completes : State → List (FdEvent Fd) → State → Prop
  /-- what the destructor closes -/
  doClose : State → List Fd

attribute [instance] ConnectionKind.fdEq

/-- Connections that close only what they hold, up to their destructor. -/
structure ConnectionKind.Careful (K : ConnectionKind) where
  Ok : K.State → Prop
  history : K.State → List (FdEvent K.Fd)
  starts : ∀ {es s}, K.starts es s →
    Ok s ∧ Valid [.opened K.client] es ∧ .opened K.client ∉ es ∧
      ∀ e, e ∈ history s ↔ e = .opened K.client ∨ e ∈ es
  completes : ∀ {s es s'}, Ok s → K.completes s es s' →
    Ok s' ∧ Valid (history s) es ∧ .opened K.client ∉ es ∧ ∀ e, e ∈ history s' ↔ e ∈ history s ∨ e ∈ es
  closes : ∀ {s}, Ok s → Valid (history s) ((K.doClose s).map .closed)
  client : ∀ {s}, Ok s → Held (history s) K.client

namespace EventLoop

/-- What an open number stands for. A connection that was destroyed may have left some behind. -/
inductive Holder (Fd : Type)
  /-- of another part of the process, such as the event loop of another thread -/
  | process
  | listener
  /-- accepted, and the completion not yet delivered -/
  | accepted
  | connection (id : Nat) (fd : Fd)

abbrev Table (Fd : Type) := Int → Option (Holder Fd)

/-- An `EventLoopConnection`, the `id`th for which there was one, and the numbers in its members. -/
structure Connection (K : ConnectionKind) where
  id : Nat
  num : K.Fd → Int
  state : K.State

/-- The members, the kernel's table, and the accept the kernel has completed. `started` counts the
    connections, `destroyed` lists those whose destructor has run. -/
structure Loop (K : ConnectionKind) where
  running : Bool := true
  exited : Bool := false
  listenFd : Option Int
  connections : List (Int × Connection K) := []
  table : Table K.Fd
  accepting : Option Int := none
  started : Nat := 0
  destroyed : List Nat := []

variable {K : ConnectionKind}

/-- The system calls of a connection, and what they do to the table and its numbers. -/
inductive Calls (id : Nat) : List (FdEvent K.Fd) → Table K.Fd → (K.Fd → Int) → Table K.Fd → (K.Fd → Int) → Prop
  | nil (table : Table K.Fd) (num : K.Fd → Int) : Calls id [] table num table num
  /-- the number is not open -/
  | opened (fd : K.Fd) (n : Int) (es : List (FdEvent K.Fd)) (table table' : Table K.Fd) (num num' : K.Fd → Int)
      (hn : 0 ≤ n) (hfree : table n = none)
      (hrest : Calls id es (Function.update table n (some (.connection id fd))) (Function.update num fd n) table' num') :
      Calls id (.opened fd :: es) table num table' num'
  /-- whatever the number stands for -/
  | closed (fd : K.Fd) (es : List (FdEvent K.Fd)) (table table' : Table K.Fd) (num num' : K.Fd → Int)
      (hrest : Calls id es (Function.update table (num fd) none) num table' num') :
      Calls id (.closed fd :: es) table num table' num'
  | handed (fd : K.Fd) (es : List (FdEvent K.Fd)) (table table' : Table K.Fd) (num num' : K.Fd → Int)
      (hrest : Calls id es table num table' num') : Calls id (.handed fd :: es) table num table' num'

/-- The destructors of some connections. -/
inductive Destroys : List (Int × Connection K) → Table K.Fd → Table K.Fd → Prop
  | nil (table : Table K.Fd) : Destroys [] table table
  | cons (key : Int) (c : Connection K) (cs : List (Int × Connection K)) (table table' table'' : Table K.Fd)
      (num : K.Fd → Int) (hcalls : Calls c.id ((K.doClose c.state).map .closed) table c.num table' num)
      (hrest : Destroys cs table' table'') : Destroys ((key, c) :: cs) table table''

def ids (cs : List (Int × Connection K)) : List Nat := cs.map fun x => x.2.id

/-- `isClosed()` -/
def isClosed (x : Int × Connection K) : Bool := K.isClosed x.2.state

/-- `::close` of a descriptor that is open -/
def closeIfOpen (fd : Option Int) (table : Table K.Fd) : Table K.Fd :=
  match fd with
  | some n => Function.update table n none
  | none => table

inductive Action
  | acceptFails
  | accepts
  | refuses
  | stores
  | completes
  | cleansUp
  | stops
  | exits
  | others
  deriving DecidableEq

/-- One step of the event loop, or of the kernel or another part of the process. -/
inductive Step : Action → Loop K → Loop K → Prop
  /-- an accept with a negative result, after which the loop goes on or ends -/
  | acceptFails (s : Loop K) (haccepting : s.accepting = none) : Step .acceptFails s s
  /-- the kernel completes an accept -/
  | accepts (s : Loop K) (n : Int) (hexited : s.exited = false) (haccepting : s.accepting = none) (hn : 0 ≤ n)
      (hfree : s.table n = none) :
      Step .accepts s { s with accepting := some n, table := Function.update s.table n (some .accepted) }
  /-- the factory has returned null -/
  | refuses (s : Loop K) (n : Int) (hexited : s.exited = false) (haccepting : s.accepting = some n) :
      Step .refuses s { s with accepting := none, table := Function.update s.table n none }
  /-- the connection is constructed and started; then `connections_[clientFd]` is assigned, which destroys
      what was stored under that key -/
  | stores (s : Loop K) (n : Int) (es : List (FdEvent K.Fd)) (state : K.State) (table table' : Table K.Fd)
      (num : K.Fd → Int) (hexited : s.exited = false) (haccepting : s.accepting = some n)
      (hstarts : K.starts es state)
      (hcalls : Calls s.started es (Function.update s.table n (some (.connection s.started K.client)))
        (Function.update (fun _ => -1) K.client n) table num)
      (hdestroys : Destroys (s.connections.filter fun x => x.1 = n) table table') :
      Step .stores s
        { s with
          accepting := none
          table := table'
          connections := (n, ⟨s.started, num, state⟩) :: s.connections.filter fun x => x.1 ≠ n
          started := s.started + 1
          destroyed := s.destroyed ++ ids (s.connections.filter fun x => x.1 = n) }
  /-- a completion is delivered to a connection -/
  | completes (s : Loop K) (l₁ l₂ : List (Int × Connection K)) (key : Int) (c : Connection K)
      (es : List (FdEvent K.Fd)) (state : K.State) (table : Table K.Fd) (num : K.Fd → Int)
      (hconnections : s.connections = l₁ ++ (key, c) :: l₂) (hcompletes : K.completes c.state es state)
      (hcalls : Calls c.id es s.table c.num table num) :
      Step .completes s { s with table, connections := l₁ ++ (key, { c with num, state }) :: l₂ }
  /-- `cleanupClosedConnections` -/
  | cleansUp (s : Loop K) (table : Table K.Fd) (hdestroys : Destroys (s.connections.filter isClosed) s.table table) :
      Step .cleansUp s
        { s with
          table
          connections := s.connections.filter fun x => !isClosed x
          destroyed := s.destroyed ++ ids (s.connections.filter isClosed) }
  /-- `stop()` -/
  | stops (s : Loop K) :
      Step .stops s { s with running := false, listenFd := none, table := closeIfOpen s.listenFd s.table }
  /-- the end of `run`, after the last pass of its loop -/
  | exits (s : Loop K) (table : Table K.Fd) (hrunning : s.running = false) (hdestroys : Destroys s.connections s.table table) :
      Step .exits s
        { s with
          exited := true
          listenFd := none
          table := closeIfOpen s.listenFd table
          connections := []
          destroyed := s.destroyed ++ ids s.connections }
  /-- another part of the process opens a descriptor -/
  | othersOpen (s : Loop K) (n : Int) (hn : 0 ≤ n) (hfree : s.table n = none) :
      Step .others s { s with table := Function.update s.table n (some .process) }
  /-- or closes one of its own -/
  | othersClose (s : Loop K) (n : Int) (hprocess : s.table n = some .process) :
      Step .others s { s with table := Function.update s.table n none }

/-- `run` has its listening socket; `opens` says which other descriptors are open. -/
def Loop.start (listenFd : Int) (opens : Int → Bool) : Loop K where
  listenFd := some listenFd
  table n := if n = listenFd then some .listener else if opens n then some .process else none

/-- The states of an event loop, whatever happens in whatever order. -/
def Reachable (listenFd : Int) (opens : Int → Bool) (s : Loop K) : Prop :=
  Relation.ReflTransGen (fun s s' => ∃ a, Step a s s') (Loop.start listenFd opens) s

/-! ## What the numbers of a connection stand for -/

/-- After the history `l` of the connection `id` the numbers of what it holds are its own. -/
def Owns (id : Nat) (table : Table K.Fd) (num : K.Fd → Int) (l : List (FdEvent K.Fd)) : Prop :=
  ∀ fd, Held l fd → table (num fd) = some (.connection id fd)

/-- Nothing that belongs to others has changed. -/
def Untouched (id : Nat) (table table' : Table K.Fd) : Prop :=
  ∀ n h, table n = some h → (∀ fd, h ≠ .connection id fd) → table' n = some h

theorem Untouched.trans {id : Nat} {table table' table'' : Table K.Fd} (h : Untouched id table table')
    (h' : Untouched id table' table'') : Untouched id table table'' :=
  fun n holder hn hother => h' n holder (h n holder hn hother) hother

variable {id : Nat} {table table' : Table K.Fd} {num num' : K.Fd → Int} {l es : List (FdEvent K.Fd)}

/-- A free number changes nothing for anybody. -/
theorem update_of_free {n m : Int} {h holder : Holder K.Fd} (hfree : table n = none) (hm : table m = some h) :
    Function.update table n (some holder) m = some h := by
  have hne : m ≠ n := fun he => nomatch (he ▸ hm).symm.trans hfree
  rw [Function.update_of_ne hne]
  exact hm

/-- What is closed is only the number itself. -/
theorem update_of_closed {n m : Int} {h holder : Holder K.Fd} (hn : table n = some holder) (hm : table m = some h)
    (hne : h ≠ holder) : Function.update table n none m = some h := by
  have hne : m ≠ n := fun he => hne (Option.some.inj (hm.symm.trans (he ▸ hn)))
  rw [Function.update_of_ne hne]
  exact hm

/-- **Calls within the rules** keep the numbers right, and leave those of others alone. -/
theorem Calls.owns (h : Calls id es table num table' num') (hvalid : Valid l es) (howns : Owns id table num l) :
    Owns id table' num' (l ++ es) ∧ Untouched id table table' := by
  induction h generalizing l with
  | nil table num => exact ⟨by simpa using howns, fun _ _ hn _ => hn⟩
  | opened fd n es table table' num num' hn hfree hrest ih =>
      have hnext : Owns id (Function.update table n (some (.connection id fd))) (Function.update num fd n)
          (l ++ [.opened fd]) := by
        intro fd' hheld
        by_cases hfd : fd' = fd
        · subst hfd
          simp
        · have hbefore : Held l fd' := by simpa [Held, hfd] using hheld
          rw [Function.update_of_ne hfd]
          exact update_of_free hfree (howns fd' hbefore)
      obtain ⟨hafter, hothers⟩ := ih hvalid.2 hnext
      refine ⟨by simpa using hafter, Untouched.trans (fun m holder hm _ => ?_) hothers⟩
      exact update_of_free hfree hm
  | closed fd es table table' num num' hrest ih =>
      have hfd : table (num fd) = some (.connection id fd) := howns fd hvalid.1
      have hnext : Owns id (Function.update table (num fd) none) num (l ++ [.closed fd]) := by
        intro fd' hheld
        obtain ⟨hopened, hclosed⟩ := hheld
        have hne : fd' ≠ fd := by
          rintro rfl
          exact hclosed (List.mem_append_right _ (List.mem_singleton_self _))
        have hbefore : Held l fd' := ⟨by simpa using hopened, fun hc => hclosed (List.mem_append_left _ hc)⟩
        refine update_of_closed hfd (howns fd' hbefore) fun he => hne ?_
        injection he
      obtain ⟨hafter, hothers⟩ := ih hvalid.2 hnext
      refine ⟨by simpa using hafter, Untouched.trans (fun m holder hm hother => ?_) hothers⟩
      exact update_of_closed hfd hm (hother fd)
  | handed fd es table table' num num' hrest ih =>
      have hnext : Owns id table num (l ++ [.handed fd]) := by
        intro fd' hheld
        exact howns fd' (by simpa [Held] using hheld)
      obtain ⟨hafter, hothers⟩ := ih hvalid.2 hnext
      exact ⟨by simpa using hafter, hothers⟩

theorem Calls.num_of_not_opened {fd : K.Fd} (h : Calls id es table num table' num') (hfd : .opened fd ∉ es) :
    num' fd = num fd := by
  induction h with
  | nil => rfl
  | opened fd' n es _ _ num _ _ _ _ ih =>
      rw [ih fun hmem => hfd (List.mem_cons_of_mem _ hmem)]
      refine Function.update_of_ne (fun he => hfd ?_) _ _
      exact he ▸ List.mem_cons_self
  | closed _ _ _ _ _ _ _ ih => exact ih fun hmem => hfd (List.mem_cons_of_mem _ hmem)
  | handed _ _ _ _ _ _ _ ih => exact ih fun hmem => hfd (List.mem_cons_of_mem _ hmem)

/-! ## The invariant -/

section Invariant

variable (C : K.Careful)

/-- A connection in the map. -/
structure Stored (table : Table K.Fd) (key : Int) (c : Connection K) : Prop where
  ok : C.Ok c.state
  owns : Owns c.id table c.num (C.history c.state)
  key : c.num K.client = key

structure Inv (s : Loop K) : Prop where
  /-- every connection there was is stored or destroyed, and that once -/
  once : (ids s.connections ++ s.destroyed).Perm (List.range s.started)
  stored : ∀ key c, (key, c) ∈ s.connections → Stored C s.table key c
  accepting : ∀ n, s.accepting = some n → s.table n = some .accepted
  listenFd : ∀ n, s.listenFd = some n → s.table n = some .listener
  exited : s.exited = true → s.connections = []

variable {C} {s : Loop K} {key : Int} {c : Connection K}

theorem Stored.client (h : Stored C table key c) : table key = some (.connection c.id K.client) :=
  h.key ▸ h.owns _ (C.client h.ok)

/-- A stored connection does not notice what is not its own. -/
theorem Stored.of_table (h : Stored C table key c)
    (htable : ∀ n fd, table n = some (.connection c.id fd) → table' n = some (.connection c.id fd)) :
    Stored C table' key c :=
  ⟨h.ok, fun fd hfd => htable _ _ (h.owns fd hfd), h.key⟩

/-- The destructors of connections that are apart leave the rest of the table alone. -/
theorem Destroys.others {cs : List (Int × Connection K)} (h : Destroys cs table table')
    (hnodup : (ids cs).Nodup) (hstored : ∀ key c, (key, c) ∈ cs → Stored C table key c) {n : Int}
    {holder : Holder K.Fd} (hn : table n = some holder)
    (hother : ∀ id ∈ ids cs, ∀ fd, holder ≠ .connection id fd) : table' n = some holder := by
  induction h with
  | nil => exact hn
  | cons key c cs table table' table'' num hcalls hrest ih =>
      obtain ⟨hnotin, hnodup⟩ := List.nodup_cons.1 hnodup
      have hfirst := hstored key c List.mem_cons_self
      have huntouched := (hcalls.owns (C.closes hfirst.ok) hfirst.owns).2
      refine ih hnodup (fun key' c' hmem => ?_) (huntouched n holder hn ?_) ?_
      · refine (hstored key' c' (List.mem_cons_of_mem _ hmem)).of_table fun m fd hm => huntouched m _ hm fun fd' he => ?_
        injection he with hid
        have hin : c'.id ∈ ids cs := List.mem_map_of_mem (f := fun x => x.2.id) hmem
        rw [hid] at hin
        exact hnotin hin
      · exact fun fd => hother c.id List.mem_cons_self fd
      · exact fun id hid => hother id (List.mem_cons_of_mem _ hid)

theorem Inv.nodup (h : Inv C s) : (ids s.connections).Nodup :=
  (List.nodup_append.1 (h.once.nodup_iff.2 List.nodup_range)).1

theorem Inv.id_lt (h : Inv C s) (hmem : (key, c) ∈ s.connections) : c.id < s.started := by
  have hid : c.id ∈ ids s.connections ++ s.destroyed := List.mem_append_left _ (List.mem_map_of_mem (f := fun x => x.2.id) hmem)
  exact List.mem_range.1 (h.once.mem_iff.1 hid)

/-- **The key of a new connection is not in the map.** -/
theorem Inv.key_absent (h : Inv C s) {n : Int} (haccepting : s.accepting = some n) :
    n ∉ s.connections.map Prod.fst := by
  intro hmem
  obtain ⟨⟨key, c⟩, hc, rfl⟩ := List.mem_map.1 hmem
  have hclient := (h.stored key c hc).client
  exact nomatch hclient.symm.trans (h.accepting key haccepting)

theorem Inv.filter_key (h : Inv C s) {n : Int} (haccepting : s.accepting = some n) :
    (s.connections.filter fun x => x.1 = n) = [] ∧ (s.connections.filter fun x => x.1 ≠ n) = s.connections := by
  have habsent : ∀ x ∈ s.connections, x.1 ≠ n := fun x hx he =>
    h.key_absent haccepting (List.mem_map.2 ⟨x, hx, he⟩)
  refine ⟨List.filter_eq_nil_iff.2 fun x hx => by simpa using habsent x hx, List.filter_eq_self.2 fun x hx => ?_⟩
  simpa using habsent x hx

/-- A number is opened. -/
theorem Inv.opens (h : Inv C s) {n : Int} {holder : Holder K.Fd} (hfree : s.table n = none)
    {accepting : Option Int} (haccepting : ∀ m, accepting = some m → m = n ∧ holder = .accepted ∨ s.accepting = some m) :
    Inv C { s with accepting, table := Function.update s.table n (some holder) } where
  once := h.once
  stored key c hmem := (h.stored key c hmem).of_table fun _ _ hm => update_of_free hfree hm
  accepting m hm := by
    rcases haccepting m hm with ⟨rfl, rfl⟩ | hm
    · exact Function.update_self ..
    · exact update_of_free hfree (h.accepting m hm)
  listenFd m hm := update_of_free hfree (h.listenFd m hm)
  exited := h.exited

/-- A number that is no connection's is closed. -/
theorem Inv.closes (h : Inv C s) {n : Int} {holder : Holder K.Fd} (hn : s.table n = some holder)
    (hholder : ∀ id fd, holder ≠ .connection id fd) (running : Bool) (accepting listenFd : Option Int)
    (haccepting : ∀ m, accepting = some m → s.accepting = some m ∧ holder ≠ .accepted)
    (hlisten : ∀ m, listenFd = some m → s.listenFd = some m ∧ holder ≠ .listener) :
    Inv C { s with running, accepting, listenFd, table := Function.update s.table n none } where
  once := h.once
  stored key c hmem := (h.stored key c hmem).of_table fun _ _ hm => update_of_closed hn hm (hholder _ _).symm
  accepting m hm := update_of_closed hn (h.accepting m (haccepting m hm).1) (haccepting m hm).2.symm
  listenFd m hm := update_of_closed hn (h.listenFd m (hlisten m hm).1) (hlisten m hm).2.symm
  exited := h.exited

/-- `start()` of the connection to an accepted number. -/
theorem Inv.stores (h : Inv C s) {n : Int} {es : List (FdEvent K.Fd)} {state : K.State}
    (haccepting : s.accepting = some n) (hstarts : K.starts es state)
    (hcalls : Calls s.started es (Function.update s.table n (some (.connection s.started K.client)))
      (Function.update (fun _ => -1) K.client n) table num) (hexited : s.exited = false) :
    Inv C { s with
      accepting := none
      table
      connections := (n, ⟨s.started, num, state⟩) :: s.connections
      started := s.started + 1 } := by
  obtain ⟨hok, hvalid, hclient, hhistory⟩ := C.starts hstarts
  have htable := h.accepting n haccepting
  have hnew : Owns s.started (Function.update s.table n (some (.connection s.started K.client)))
      (Function.update (fun _ => -1) K.client n) [.opened K.client] := by
    rintro fd ⟨hopened, -⟩
    obtain rfl : fd = K.client := by simpa using hopened
    simp
  obtain ⟨howns, huntouched⟩ := hcalls.owns hvalid hnew
  -- what is there of others
  have hothers : ∀ m holder, s.table m = some holder → holder ≠ .accepted →
      (∀ fd, holder ≠ .connection s.started fd) → table m = some holder := by
    intro m holder hm haccepted hother
    refine huntouched m holder ?_ hother
    have hne : m ≠ n := fun he => haccepted (Option.some.inj (hm.symm.trans (he ▸ htable)))
    rw [Function.update_of_ne hne]
    exact hm
  exact {
    once := by
      rw [List.range_succ]
      exact (h.once.cons s.started).trans (List.perm_append_singleton _ _).symm
    stored := fun key c hmem => by
      rcases List.mem_cons.1 hmem with hnew | hold
      · obtain ⟨rfl, rfl⟩ := Prod.mk.inj hnew
        refine ⟨hok, fun fd hheld => howns fd ?_, ?_⟩
        · simpa [Held, hhistory] using hheld
        · exact (hcalls.num_of_not_opened hclient).trans (Function.update_self ..)
      · refine (h.stored key c hold).of_table fun m fd hm => hothers m _ hm (by simp) fun fd' he => ?_
        injection he with hid
        exact absurd (h.id_lt hold) (hid ▸ Nat.lt_irrefl _)
    accepting := by simp
    listenFd := fun m hm => hothers m _ (h.listenFd m hm) (by simp) (by simp)
    exited := fun he => absurd (hexited.symm.trans he) (by simp) }

/-- A completion for a stored connection. -/
theorem Inv.completes (h : Inv C s) {l₁ l₂ : List (Int × Connection K)} {es : List (FdEvent K.Fd)} {state : K.State}
    (hconnections : s.connections = l₁ ++ (key, c) :: l₂) (hcompletes : K.completes c.state es state)
    (hcalls : Calls c.id es s.table c.num table num) :
    Inv C { s with table, connections := l₁ ++ (key, { c with num, state }) :: l₂ } := by
  have hmem : (key, c) ∈ s.connections := by simp [hconnections]
  obtain ⟨hok, howns, hkey⟩ := h.stored key c hmem
  obtain ⟨hok', hvalid, hclient, hhistory⟩ := C.completes hok hcompletes
  obtain ⟨howns', huntouched⟩ := hcalls.owns hvalid howns
  have hids : ids (l₁ ++ (key, { c with num, state }) :: l₂) = ids s.connections := by
    simp [ids, hconnections]
  -- the others have other ids
  have hapart : ∀ key' c', (key', c') ∈ l₁ ++ l₂ → c'.id ≠ c.id := by
    intro key' c' hmem' he
    have hnodup := h.nodup
    rw [hconnections, ids, List.map_append, List.map_cons, List.perm_middle.nodup_iff, ← List.map_append] at hnodup
    exact (List.nodup_cons.1 hnodup).1 (List.mem_map.2 ⟨_, hmem', he⟩)
  exact {
    once := hids ▸ h.once
    stored := fun key' c' hmem' => by
      rcases List.mem_cons.1 (List.perm_middle.mem_iff.1 hmem') with hself | hother
      · obtain ⟨rfl, rfl⟩ := Prod.mk.inj hself
        refine ⟨hok', fun fd hheld => howns' fd ?_, (hcalls.num_of_not_opened hclient).trans hkey⟩
        simpa [Held, hhistory] using hheld
      · have hbefore : (key', c') ∈ s.connections := by
          rw [hconnections]
          exact List.perm_middle.mem_iff.2 (List.mem_cons_of_mem _ hother)
        refine (h.stored key' c' hbefore).of_table fun m fd hm => huntouched m _ hm fun fd' he => ?_
        injection he with hid
        exact hapart key' c' hother hid
    accepting := fun m hm => huntouched m _ (h.accepting m hm) nofun
    listenFd := fun m hm => huntouched m _ (h.listenFd m hm) nofun
    exited := fun he => by simp [h.exited he] at hmem }

/-- The destructors of some of the connections. -/
theorem Inv.destroys (h : Inv C s) {p : Int × Connection K → Bool} (hdestroys : Destroys (s.connections.filter p) s.table table) :
    Inv C { s with
      table
      connections := s.connections.filter fun x => !p x
      destroyed := s.destroyed ++ ids (s.connections.filter p) } := by
  have hnodup : (ids (s.connections.filter p)).Nodup := h.nodup.sublist (List.filter_sublist.map _)
  have hothers : ∀ n holder, s.table n = some holder → (∀ id ∈ ids (s.connections.filter p), ∀ fd, holder ≠ .connection id fd) →
      table n = some holder :=
    fun n holder hn hother => hdestroys.others hnodup (fun key c hmem => h.stored key c (List.mem_filter.1 hmem).1) hn hother
  have hids : (ids (s.connections.filter p) ++ ids (s.connections.filter fun x => !p x)).Perm (ids s.connections) := by
    rw [ids, ids, ← List.map_append]
    exact (List.filter_append_perm _ _).map _
  have hapart := (List.nodup_append.1 (hids.nodup_iff.2 h.nodup)).2.2
  exact {
    once := by
      refine List.Perm.trans ?_ ((hids.append_right s.destroyed).trans h.once)
      rw [← List.append_assoc, List.append_assoc (ids (s.connections.filter p))]
      exact List.perm_append_comm
    stored := fun key c hmem => by
      refine (h.stored key c (List.mem_filter.1 hmem).1).of_table fun m fd hm => hothers m _ hm fun id hid fd' he => ?_
      injection he with hid'
      exact hapart id hid c.id (List.mem_map_of_mem (f := fun x => x.2.id) hmem) hid'.symm
    accepting := fun m hm => hothers m _ (h.accepting m hm) nofun
    listenFd := fun m hm => hothers m _ (h.listenFd m hm) nofun
    exited := fun he => by simp [h.exited he] }

theorem inv_start (C : K.Careful) (listenFd : Int) (opens : Int → Bool) : Inv C (Loop.start listenFd opens) where
  once := List.Perm.refl []
  stored := nofun
  accepting := nofun
  listenFd n hn := by
    obtain rfl : listenFd = n := Option.some.inj hn
    exact if_pos rfl
  exited := nofun

/-- The listening socket is closed. -/
theorem Inv.stops (h : Inv C s) (running : Bool) :
    Inv C { s with running, listenFd := none, table := closeIfOpen s.listenFd s.table } := by
  cases hlisten : s.listenFd with
  | none => exact ⟨h.once, h.stored, h.accepting, nofun, h.exited⟩
  | some n => exact h.closes (h.listenFd n hlisten) nofun running _ none (fun _ hm => ⟨hm, nofun⟩) nofun

theorem Step.inv {a : Action} {s s' : Loop K} (hstep : Step a s s') (h : Inv C s) : Inv C s' := by
  cases hstep with
  | acceptFails _ haccepting => exact h
  | accepts _ n hexited haccepting hn hfree => exact h.opens hfree fun m hm => .inl ⟨(Option.some.inj hm).symm, rfl⟩
  | refuses _ n hexited haccepting =>
      exact h.closes (h.accepting n haccepting) nofun s.running none _ nofun fun _ hm => ⟨hm, nofun⟩
  | stores _ n es state table table' num hexited haccepting hstarts hcalls hdestroys =>
      obtain ⟨hnone, hall⟩ := h.filter_key haccepting
      rw [hnone] at hdestroys ⊢
      rw [hall]
      cases hdestroys
      simpa [ids] using h.stores haccepting hstarts hcalls hexited
  | completes _ l₁ l₂ key c es state table num hconnections hcompletes hcalls =>
      exact h.completes hconnections hcompletes hcalls
  | cleansUp _ table hdestroys => exact h.destroys hdestroys
  | stops => exact h.stops false
  | exits _ table hrunning hdestroys =>
      have hall : (s.connections.filter fun _ => true) = s.connections := List.filter_true _
      have hdestroyed := h.destroys (p := fun _ => true) (hall.symm ▸ hdestroys)
      have hstopped := hdestroyed.stops s.running
      simp only [hall, Bool.not_true, List.filter_false] at hstopped
      exact ⟨hstopped.once, hstopped.stored, hstopped.accepting, hstopped.listenFd, fun _ => rfl⟩
  | othersOpen _ n hn hfree => exact h.opens hfree fun m hm => .inr hm
  | othersClose _ n hprocess =>
      exact h.closes hprocess nofun s.running _ _ (fun _ hm => ⟨hm, nofun⟩) fun _ hm => ⟨hm, nofun⟩

theorem Reachable.inv {listenFd : Int} {opens : Int → Bool} (hs : Reachable listenFd opens s) : Inv C s := by
  induction hs with
  | refl => exact inv_start C listenFd opens
  | tail _ hstep ih =>
      obtain ⟨_, hstep⟩ := hstep
      exact hstep.inv ih

/-- Whom a step destroys: in a pass of the cleanup what is closed, at the exit everybody. -/
def Action.destroys (s : Loop K) : Action → List Nat
  | .cleansUp => ids (s.connections.filter isClosed)
  | .exits => ids s.connections
  | _ => []

theorem Step.destroyed {a : Action} {s s' : Loop K} (hstep : Step a s s') (h : Inv C s) :
    s'.destroyed = s.destroyed ++ a.destroys s := by
  cases hstep with
  | stores _ n es state table table' num hexited haccepting hstarts hcalls hdestroys =>
      simp only [(h.filter_key haccepting).1]
      rfl
  | cleansUp => rfl
  | exits => rfl
  | _ => exact (List.append_nil _).symm

end Invariant

end EventLoop

end Cppvless
