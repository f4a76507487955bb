import Cppvless.Net.Io

set_option autoImplicit false

/-! # Operations and their completions

`coro/uring_awaitable.h` and the dispatch of `EventLoop::run`. A submission carries the address of its
operation and its completion comes back with it, so what a completion reaches is whatever is at the
address by then. An operation is a temporary of a coroutine's frame: its place is free again once the
await is over or the frame is destroyed. -/

namespace Cppvless

namespace Uring

/-- `UringOp*`, with `0` for the null pointer. -/
abbrev Addr := Nat

/-- `std::coroutine_handle<>` -/
abbrev Handle := Nat

/-- The static members that complete an operation. -/
inductive CompleteFn
  | recv
  | write
  | accept
  deriving DecidableEq

/-- `UringOp`, with the buffers of a `RecvOp`. -/
structure UringOp where
  onComplete : Option CompleteFn := none
  handle : Option Handle := none
  fd : Int := -1
  result : Int := 0
  buf : Bytes := []
  data : Bytes := []
  deriving DecidableEq

/-- `byFd_` -/
abbrev PendingUringOps := Int → List Addr

namespace PendingUringOps

def add (byFd : PendingUringOps) (a : Addr) (fd : Int) : PendingUringOps :=
  if fd < 0 then byFd else Function.update byFd fd ((byFd fd).insert a)

def remove (byFd : PendingUringOps) (a : Addr) (fd : Int) : PendingUringOps :=
  if fd < 0 then byFd else Function.update byFd fd ((byFd fd).filter (· ≠ a))

end PendingUringOps

/-- What lives at an address: the operation and the coroutine that awaits it. -/
structure Place where
  op : Nat
  frame : Handle

/-- What happened: a completion of the operation `cause` wrote into `op` or resumed its coroutine, an
    operation was aborted, or it was cancelled. `none` is an address at which nothing lives. -/
inductive Effect
  | wrote (cause : Nat) (op : Option Nat)
  | resumed (cause : Nat) (op : Option Nat)
  | aborted (op : Option Nat)
  | cancelled (op : Option Nat)
  deriving DecidableEq

/-- One event loop and the memory its operations are in. Operations are numbered in the order of their
    construction; `inFlight` has the submissions that have not been completed. Nothing reads `living`,
    `next` and `log`. -/
structure EventLoop where
  mem : Addr → UringOp := fun _ => {}
  byFd : PendingUringOps := fun _ => []
  done : Handle → Bool := fun _ => false
  inFlight : List (Nat × Addr) := []
  living : Addr → Option Place := fun _ => none
  next : Nat := 0
  log : List Effect := []

namespace EventLoop

/-- The operation at `a`. -/
def opAt (s : EventLoop) (a : Addr) : Option Nat := (s.living a).map Place.op

/-- `if (h && !h.done()) h.resume()`, which ends the await of the operation at `a`. -/
def resume (h : Option Handle) (a : Addr) (e : Effect) (s : EventLoop) : EventLoop :=
  match h with
  | none => s
  | some h =>
      if s.done h then s
      else { s with living := Function.update s.living a none, log := s.log ++ [e] }

/-- What the completions of all operations do, once the result is written: `op` is the operation with
    its result. -/
def completeOp (cause : Nat) (a : Addr) (op : UringOp) (s : EventLoop) : EventLoop :=
  let s' : EventLoop := { s with
    mem := Function.update s.mem a { op with onComplete := none }
    byFd := s.byFd.remove a op.fd
    log := s.log ++ [.wrote cause (s.opAt a)] }
  s'.resume op.handle a (.resumed cause (s.opAt a))

/-- `RecvOp::complete` -/
def completeRecv (cause : Nat) (a : Addr) (res : Int) (s : EventLoop) : EventLoop :=
  let op := s.mem a
  s.completeOp cause a
    { op with result := res, data := if 0 < res then op.buf.take res.toNat else op.data }

/-- `WriteOp::complete` -/
def completeWrite (cause : Nat) (a : Addr) (res : Int) (s : EventLoop) : EventLoop :=
  s.completeOp cause a { s.mem a with result := res }

/-- `AcceptOp::complete` -/
def completeAccept (cause : Nat) (a : Addr) (res : Int) (s : EventLoop) : EventLoop :=
  s.completeOp cause a { s.mem a with result := res }

/-- `UringOp::completeFromCqe` -/
def completeFromCqe (cause : Nat) (userData : Addr) (res : Int) (s : EventLoop) : EventLoop :=
  if userData = 0 then
    s
  else
    match (s.mem userData).onComplete with
    | none => s
    | some .recv => s.completeRecv cause userData res
    | some .write => s.completeWrite cause userData res
    | some .accept => s.completeAccept cause userData res

/-- `abortOp` -/
def abortOp (a : Addr) (err : Int) (s : EventLoop) : EventLoop :=
  let op := { s.mem a with result := err }
  let s' : EventLoop := { s with
    byFd := s.byFd.remove a op.fd
    mem := Function.update s.mem a { op with onComplete := none } }
  s'.resume op.handle a (.aborted (s.opAt a))

/-- `await_suspend` of the operation constructed at `a`: `queued` says whether there was a ring with an
    entry to spare, `buf` is what the ring will put into its buffer. -/
def awaitSuspend (a : Addr) (fn : CompleteFn) (fd : Int) (buf : Bytes) (h : Handle) (queued : Bool)
    (s : EventLoop) : EventLoop :=
  let s' : EventLoop := { s with
    mem := Function.update s.mem a { onComplete := some fn, handle := some h, fd, buf }
    byFd := s.byFd.add a fd
    living := Function.update s.living a (some ⟨s.next, h⟩)
    next := s.next + 1 }
  if queued then { s' with inFlight := s'.inFlight ++ [(s.next, a)] } else s'.abortOp a (-1)

/-- `PendingUringOps::cancelFd` -/
def cancelFd (fd : Int) (s : EventLoop) : EventLoop :=
  if fd < 0 then
    s
  else
    { s with
      mem := fun a =>
        if a ∈ s.byFd fd then { s.mem a with onComplete := none, handle := none } else s.mem a
      byFd := Function.update s.byFd fd []
      log := s.log ++ (s.byFd fd).map fun a => Effect.cancelled (s.opAt a) }

/-- The frame of a coroutine is destroyed, with its operations. -/
def destroy (h : Handle) (s : EventLoop) : EventLoop :=
  { s with living := fun a => (s.living a).filter (·.frame ≠ h) }

/-- What the loop, its connections and the ring do. -/
inductive Action
  | awaitSuspend (a : Addr) (fn : CompleteFn) (fd : Int) (buf : Bytes) (h : Handle) (queued : Bool)
  /-- the completion of operation `n` arrives -/
  | complete (n : Nat) (res : Int)
  | cancelFd (fd : Int)
  | destroy (h : Handle)
  /-- the coroutine of a handle ends, or a new one begins -/
  | setDone (h : Handle) (done : Bool)

/-- The submissions but for `n`. -/
def without (n : Nat) (l : List (Nat × Addr)) : List (Nat × Addr) := l.filter (·.1 ≠ n)

/-- An operation is constructed where nothing lives. A submission is completed once. -/
def step (s : EventLoop) : Action → Option EventLoop
  | .awaitSuspend a fn fd buf h queued =>
      if a = 0 ∨ (s.living a).isSome then none else some (s.awaitSuspend a fn fd buf h queued)
  | .complete n res =>
      (s.inFlight.lookup n).map fun a =>
        EventLoop.completeFromCqe n a res { s with inFlight := without n s.inFlight }
  | .cancelFd fd => some (s.cancelFd fd)
  | .destroy h => some (s.destroy h)
  | .setDone h done => some { s with done := Function.update s.done h done }

/-- A run. -/
def run : List Action → EventLoop → Option EventLoop
  | [], s => some s
  | act :: acts, s => (s.step act).bind (run acts)

/-! ## When a completion finds its operation -/

/-- An operation is put where no completion is still to arrive, and what is destroyed has been
    cancelled. -/
def Careful (s : EventLoop) : Action → Prop
  | .awaitSuspend a _ _ _ _ queued => queued = true → ∀ x ∈ s.inFlight, x.2 ≠ a
  | .destroy h =>
      ∀ x ∈ s.inFlight, (s.living x.2).map Place.frame = some h → (s.mem x.2).onComplete = none
  | _ => True

/-- A run of such steps. -/
def CarefulRun : List Action → EventLoop → Prop
  | [], _ => True
  | act :: acts, s => s.Careful act ∧ ∀ s' ∈ s.step act, CarefulRun acts s'

instance (s : EventLoop) : (act : Action) → Decidable (s.Careful act)
  | .awaitSuspend a _ _ _ _ queued =>
      inferInstanceAs (Decidable (queued = true → ∀ x ∈ s.inFlight, x.2 ≠ a))
  | .destroy h => inferInstanceAs (Decidable (∀ x ∈ s.inFlight,
      (s.living x.2).map Place.frame = some h → (s.mem x.2).onComplete = none))
  | .complete _ _ => .isTrue trivial
  | .cancelFd _ => .isTrue trivial
  | .setDone _ _ => .isTrue trivial

instance decidableCarefulRun : (acts : List Action) → (s : EventLoop) → Decidable (CarefulRun acts s)
  | [], _ => .isTrue trivial
  | act :: acts, s =>
      have := decidableCarefulRun acts
      inferInstanceAs (Decidable (s.Careful act ∧ ∀ s' ∈ s.step act, CarefulRun acts s'))

end EventLoop

/-- The operation whose completion had this effect. -/
def Effect.cause : Effect → Option Nat
  | .wrote cause _ => some cause
  | .resumed cause _ => some cause
  | .aborted _ => none
  | .cancelled _ => none

/-- What the completion of operation `n` did. -/
def effectsOf (n : Nat) (log : List Effect) : List Effect := log.filter (·.cause = some n)

/-- Every completion wrote into its own operation and then resumed that, each once at most, and that
    of a cancelled operation did nothing. -/
structure Exclusive (log : List Effect) : Prop where
  own : ∀ n, effectsOf n log <+: [.wrote n (some n), .resumed n (some n)]
  cancelled : ∀ n, Effect.cancelled (some n) ∈ log → effectsOf n log = []

variable {log es : List Effect} {n : Nat}

theorem effectsOf_append : effectsOf n (log ++ es) = effectsOf n log ++ effectsOf n es :=
  List.filter_append ..

theorem effectsOf_eq_nil (h : ∀ e ∈ es, e.cause ≠ some n) : effectsOf n es = [] := by
  rw [effectsOf, List.filter_eq_nil_iff]
  intro e he
  simpa using h e he

theorem effectsOf_eq_self (h : ∀ e ∈ es, e.cause = some n) : effectsOf n es = es := by
  rw [effectsOf, List.filter_eq_self]
  intro e he
  simpa using h e he

/-- What the completion of `n` should do. -/
abbrev Does (n : Nat) (es : List Effect) : Prop := es <+: [.wrote n (some n), .resumed n (some n)]

theorem Does.cause (h : Does n es) : ∀ e ∈ es, e.cause = some n := by
  intro e he
  have hmem := h.subset he
  simp only [List.mem_cons, List.not_mem_nil, or_false] at hmem
  rcases hmem with rfl | rfl
  · rfl
  · rfl

theorem Does.effectsOf_append (h : Does n es) {m : Nat} (hm : m ≠ n) :
    effectsOf m (log ++ es) = effectsOf m log := by
  have hnone : effectsOf m es = [] := effectsOf_eq_nil fun e he heq => by
    rw [h.cause e he] at heq
    exact hm (Option.some.inj heq).symm
  rw [Uring.effectsOf_append, hnone, List.append_nil]

theorem Does.cancelled_append (h : Does n es) {op : Option Nat} :
    Effect.cancelled op ∈ log ++ es ↔ Effect.cancelled op ∈ log := by
  rw [List.mem_append, or_iff_left]
  exact fun hop => absurd (h.cause _ hop) nofun

theorem Exclusive.complete (h : Exclusive log) (hquiet : effectsOf n log = [])
    (hn : Effect.cancelled (some n) ∉ log) (hes : Does n es) : Exclusive (log ++ es) := by
  refine ⟨fun m => ?_, fun m hm => ?_⟩
  · by_cases hmn : m = n
    · subst hmn
      rw [effectsOf_append, hquiet, effectsOf_eq_self hes.cause]
      exact hes
    · rw [hes.effectsOf_append hmn]
      exact h.own m
  · rw [hes.cancelled_append] at hm
    have hmn : m ≠ n := by
      rintro rfl
      exact hn hm
    rw [hes.effectsOf_append hmn]
    exact h.cancelled m hm

theorem effectsOf_append_other (hes : ∀ e ∈ es, e.cause = none) :
    effectsOf n (log ++ es) = effectsOf n log := by
  have hnone : effectsOf n es = [] := effectsOf_eq_nil fun e he heq => by
    rw [hes e he] at heq
    cases heq
  rw [effectsOf_append, hnone, List.append_nil]

/-- Something else happened, and if it was that `n` was cancelled, its completion has done nothing. -/
theorem Exclusive.other (h : Exclusive log) (hes : ∀ e ∈ es, e.cause = none)
    (hquiet : ∀ n, Effect.cancelled (some n) ∈ es → effectsOf n log = []) : Exclusive (log ++ es) := by
  refine ⟨fun m => ?_, fun m hm => ?_⟩
  · rw [effectsOf_append_other hes]
    exact h.own m
  · rw [effectsOf_append_other hes]
    rcases List.mem_append.1 hm with hm | hm
    · exact h.cancelled m hm
    · exact hquiet m hm

namespace EventLoop

/-- An operation with a callback lives where its submission says, and there is only one submission from
    there. What is in flight has had no effect. -/
structure Inv (s : EventLoop) : Prop where
  armed : ∀ a, (s.mem a).onComplete ≠ none → ∃ n, s.opAt a = some n ∧ (n, a) ∈ s.inFlight
  table : ∀ fd a, a ∈ s.byFd fd → (s.mem a).onComplete ≠ none ∧ (s.mem a).fd = fd ∧ 0 ≤ fd
  one : ∀ n m a, (n, a) ∈ s.inFlight → (m, a) ∈ s.inFlight → n = m
  place : ∀ n a b, (n, a) ∈ s.inFlight → (n, b) ∈ s.inFlight → a = b
  fresh : ∀ n a, (n, a) ∈ s.inFlight → n < s.next ∧ a ≠ 0
  exclusive : Exclusive s.log
  quiet : ∀ n a, (n, a) ∈ s.inFlight → effectsOf n s.log = []
  cancelled : ∀ n a, (n, a) ∈ s.inFlight → Effect.cancelled (some n) ∈ s.log →
    (s.mem a).onComplete = none
  unused : ∀ n, s.next ≤ n → effectsOf n s.log = [] ∧ Effect.cancelled (some n) ∉ s.log

variable {s s' : EventLoop} {a : Addr}

theorem inv_start : Inv {} where
  armed _ h := absurd rfl h
  table _ _ h := by simp at h
  one _ _ _ h := by simp at h
  place _ _ _ h := by simp at h
  fresh _ _ h := by simp at h
  exclusive := ⟨fun _ => List.nil_prefix, fun _ _ => rfl⟩
  quiet _ _ _ := rfl
  cancelled _ _ h := by simp at h
  unused _ _ := ⟨rfl, by simp⟩

/-! ### The steps -/

theorem mem_add {byFd : PendingUringOps} {b : Addr} {fd fd' : Int} (h : b ∈ byFd.add a fd fd') :
    b ∈ byFd fd' ∨ b = a ∧ fd' = fd ∧ 0 ≤ fd := by
  unfold PendingUringOps.add at h
  split at h
  · exact .inl h
  · by_cases hfd : fd' = fd
    · subst hfd
      rw [Function.update_self, List.mem_insert_iff] at h
      rcases h with rfl | h
      · exact .inr ⟨rfl, rfl, by omega⟩
      · exact .inl h
    · rw [Function.update_of_ne hfd] at h
      exact .inl h

theorem mem_remove {byFd : PendingUringOps} {b : Addr} {fd fd' : Int} (h : b ∈ byFd.remove a fd fd') :
    b ∈ byFd fd' ∧ (fd' = fd → 0 ≤ fd → b ≠ a) := by
  unfold PendingUringOps.remove at h
  split at h
  · exact ⟨h, fun _ hpos => by omega⟩
  · by_cases hfd : fd' = fd
    · subst hfd
      rw [Function.update_self, List.mem_filter] at h
      exact ⟨h.1, fun _ _ => by simpa using h.2⟩
    · rw [Function.update_of_ne hfd] at h
      exact ⟨h, fun heq => absurd heq hfd⟩

/-- What `resume` changes: at most the place and the log. -/
theorem resume_cases (h : Option Handle) (a : Addr) (e : Effect) (s : EventLoop) :
    s.resume h a e = s ∨
      s.resume h a e = { s with living := Function.update s.living a none, log := s.log ++ [e] } := by
  unfold resume
  split
  · exact .inl rfl
  · split
    · exact .inl rfl
    · exact .inr rfl

/-- `s'` is `s` after the operation at `a` is over: it has no callback and is not in the table. -/
structure Over (a : Addr) (es : List Effect) (s s' : EventLoop) : Prop where
  disarmed : (s'.mem a).onComplete = none
  mem : ∀ b, b ≠ a → s'.mem b = s.mem b
  byFd : s'.byFd = s.byFd.remove a (s.mem a).fd
  inFlight : s'.inFlight = s.inFlight
  opAt : ∀ b, b ≠ a → s'.opAt b = s.opAt b
  next : s'.next = s.next
  log : s'.log = s.log ++ es

theorem over_resume (op : UringOp) (es : List Effect) (e : Effect) (h : Option Handle)
    (hdone : op.onComplete = none) :
    ∃ es', es' <+: [e] ∧ Over a (es ++ es') s
      (resume h a e { s with
        mem := Function.update s.mem a op, byFd := s.byFd.remove a (s.mem a).fd, log := s.log ++ es }) := by
  have hsame : ∀ b, b ≠ a → Function.update s.mem a op b = s.mem b := fun b hb =>
    Function.update_of_ne hb ..
  have hself : (Function.update s.mem a op a).onComplete = none := by
    rw [Function.update_self, hdone]
  rcases resume_cases h a e _ with heq | heq
  · refine ⟨[], List.nil_prefix, ?_⟩
    rw [heq, List.append_nil]
    exact ⟨hself, hsame, rfl, rfl, fun _ _ => rfl, rfl, rfl⟩
  · refine ⟨[e], List.prefix_rfl, ?_⟩
    rw [heq]
    refine ⟨hself, hsame, rfl, rfl, fun b hb => ?_, rfl, (List.append_assoc ..)⟩
    simp [opAt, hb]

theorem completeFromCqe_disarmed {res : Int} (h : (s.mem a).onComplete = none) :
    completeFromCqe n a res s = s := by
  unfold completeFromCqe
  split
  · rfl
  · rw [h]

theorem completeOp_over (n : Nat) {op : UringOp} (hfd : op.fd = (s.mem a).fd) :
    ∃ es, Effect.wrote n (s.opAt a) ∈ es ∧ es <+: [.wrote n (s.opAt a), .resumed n (s.opAt a)] ∧
      Over a es s (completeOp n a op s) := by
  obtain ⟨es, hes, hover⟩ := over_resume (s := s) (a := a) { op with onComplete := none }
    [.wrote n (s.opAt a)] (.resumed n (s.opAt a)) op.handle rfl
  refine ⟨[.wrote n (s.opAt a)] ++ es, List.mem_cons_self .., ?_, ?_⟩
  · exact (List.prefix_append_right_inj [.wrote n (s.opAt a)]).2 hes
  · rw [← hfd] at hover
    exact hover

theorem completeFromCqe_armed (n : Nat) (res : Int) (ha : a ≠ 0) (h : (s.mem a).onComplete ≠ none) :
    ∃ es, Effect.wrote n (s.opAt a) ∈ es ∧ es <+: [.wrote n (s.opAt a), .resumed n (s.opAt a)] ∧
      Over a es s (completeFromCqe n a res s) := by
  unfold completeFromCqe
  rw [if_neg ha]
  split
  · next hnone => exact absurd hnone h
  · exact completeOp_over n rfl
  · exact completeOp_over n rfl
  · exact completeOp_over n rfl

theorem mem_without {l : List (Nat × Addr)} {m : Nat} {b : Addr} :
    (m, b) ∈ without n l ↔ (m, b) ∈ l ∧ m ≠ n := by
  simp [without]

theorem Inv.mem_without_of_ne (hs : Inv s) (hn : (n, a) ∈ s.inFlight) {m : Nat} {b : Addr}
    (hm : (m, b) ∈ s.inFlight) (hb : b ≠ a) : (m, b) ∈ without n s.inFlight := by
  refine mem_without.2 ⟨hm, ?_⟩
  rintro rfl
  exact hb (hs.place _ _ _ hm hn)

/-- The completion of a cancelled operation. -/
theorem Inv.complete_disarmed (hs : Inv s) (hn : (n, a) ∈ s.inFlight)
    (ha : (s.mem a).onComplete = none) : Inv { s with inFlight := without n s.inFlight } where
  armed b hb := by
    obtain ⟨m, hop, hm⟩ := hs.armed b hb
    refine ⟨m, hop, hs.mem_without_of_ne hn hm ?_⟩
    rintro rfl
    exact hb ha
  table := hs.table
  one m k b hm hk := hs.one m k b (mem_without.1 hm).1 (mem_without.1 hk).1
  place m b c hb hc := hs.place m b c (mem_without.1 hb).1 (mem_without.1 hc).1
  fresh m b hm := hs.fresh m b (mem_without.1 hm).1
  exclusive := hs.exclusive
  quiet m b hm := hs.quiet m b (mem_without.1 hm).1
  cancelled m b hm := hs.cancelled m b (mem_without.1 hm).1
  unused := hs.unused

/-- The completion of an operation that has its callback. -/
theorem Inv.complete_armed (hs : Inv s) (hn : (n, a) ∈ s.inFlight) (ha : (s.mem a).onComplete ≠ none)
    (hes : Does n es) (hover : Over a es { s with inFlight := without n s.inFlight } s') : Inv s' := by
  have hlive : Effect.cancelled (some n) ∉ s.log := fun h => ha (hs.cancelled n a hn h)
  have hne : ∀ b, (s'.mem b).onComplete ≠ none → b ≠ a := by
    rintro b hb rfl
    exact hb hover.disarmed
  have hflight : ∀ m b, (m, b) ∈ s'.inFlight → (m, b) ∈ s.inFlight ∧ m ≠ n := by
    intro m b hm
    rw [hover.inFlight] at hm
    exact mem_without.1 hm
  have heffects : ∀ m, m ≠ n → effectsOf m s'.log = effectsOf m s.log := by
    intro m hm
    rw [hover.log]
    exact hes.effectsOf_append hm
  have hcancelled : ∀ op, Effect.cancelled op ∈ s'.log ↔ Effect.cancelled op ∈ s.log := by
    intro op
    rw [hover.log]
    exact hes.cancelled_append
  refine ⟨?_, ?_, ?_, ?_, ?_, ?_, ?_, ?_, ?_⟩
  · intro b hb
    have hba := hne b hb
    rw [hover.mem b hba] at hb
    obtain ⟨m, hop, hm⟩ := hs.armed b hb
    refine ⟨m, (hover.opAt b hba).trans hop, ?_⟩
    rw [hover.inFlight]
    exact hs.mem_without_of_ne hn hm hba
  · intro fd b hb
    rw [hover.byFd] at hb
    obtain ⟨hmem, hother⟩ := mem_remove hb
    obtain ⟨harmed, hfd, hpos⟩ := hs.table fd b hmem
    have hba : b ≠ a := by
      rintro rfl
      exact hother hfd.symm (hfd.symm ▸ hpos) rfl
    rw [hover.mem b hba]
    exact ⟨harmed, hfd, hpos⟩
  · exact fun m k b hm hk => hs.one m k b (hflight m b hm).1 (hflight k b hk).1
  · exact fun m b c hb hc => hs.place m b c (hflight m b hb).1 (hflight m c hc).1
  · intro m b hm
    rw [hover.next]
    exact hs.fresh m b (hflight m b hm).1
  · rw [hover.log]
    exact hs.exclusive.complete (hs.quiet n a hn) hlive hes
  · intro m b hm
    obtain ⟨hm, hmn⟩ := hflight m b hm
    rw [heffects m hmn]
    exact hs.quiet m b hm
  · intro m b hm hc
    by_cases hba : b = a
    · subst hba
      exact hover.disarmed
    · rw [hover.mem b hba]
      exact hs.cancelled m b (hflight m b hm).1 ((hcancelled _).1 hc)
  · intro m hm
    rw [hover.next] at hm
    have hmn : m ≠ n := by
      rintro rfl
      exact absurd (hs.fresh m a hn).1 (Nat.not_lt.2 hm)
    rw [heffects m hmn, hcancelled]
    exact hs.unused m hm

theorem Inv.complete (hs : Inv s) {res : Int} (hn : (n, a) ∈ s.inFlight) :
    Inv (completeFromCqe n a res { s with inFlight := without n s.inFlight }) := by
  by_cases ha : (s.mem a).onComplete = none
  · have hsame : completeFromCqe n a res { s with inFlight := without n s.inFlight } =
        { s with inFlight := without n s.inFlight } := completeFromCqe_disarmed ha
    rw [hsame]
    exact hs.complete_disarmed hn ha
  · obtain ⟨es, -, hes, hover⟩ := completeFromCqe_armed (s := { s with inFlight := without n s.inFlight }) n res
      (hs.fresh n a hn).2 ha
    obtain ⟨m, hop, hm⟩ := hs.armed a ha
    obtain rfl := hs.one n m a hn hm
    have hat : opAt { s with inFlight := without n s.inFlight } a = some n := hop
    rw [hat] at hes
    exact hs.complete_armed hn ha hes hover

/-- Nothing that lives nowhere has a callback. -/
theorem Inv.disarmed (hs : Inv s) (ha : s.living a = none) : (s.mem a).onComplete = none := by
  by_contra h
  obtain ⟨m, hop, -⟩ := hs.armed a h
  simp [opAt, ha] at hop

theorem Inv.not_mem_table (hs : Inv s) (ha : (s.mem a).onComplete = none) (fd : Int) : a ∉ s.byFd fd :=
  fun h => (hs.table fd a h).1 ha

theorem abortOp_over (a : Addr) (err : Int) (s : EventLoop) :
    ∃ es, es <+: [.aborted (s.opAt a)] ∧ Over a es s (s.abortOp a err) := by
  obtain ⟨es, hes, hover⟩ := over_resume (s := s) (a := a) { s.mem a with result := err, onComplete := none } []
    (.aborted (s.opAt a)) (s.mem a).handle rfl
  rw [List.append_nil] at hover
  exact ⟨es, hes, hover⟩

/-- An operation that could not be queued. -/
theorem Inv.awaitSuspend_aborted (hs : Inv s) (ha : s.living a = none) (fn : CompleteFn) (fd : Int)
    (buf : Bytes) (h : Handle) : Inv (s.awaitSuspend a fn fd buf h false) := by
  have hdisarmed := hs.disarmed ha
  obtain ⟨es, hes, hover⟩ := abortOp_over a (-1) { s with
    mem := Function.update s.mem a { onComplete := some fn, handle := some h, fd, buf }
    byFd := s.byFd.add a fd
    living := Function.update s.living a (some ⟨s.next, h⟩)
    next := s.next + 1 }
  have hcause : ∀ e ∈ es, e.cause = none := by
    intro e he
    obtain rfl := List.mem_singleton.1 (hes.subset he)
    rfl
  have hnone : ∀ op, Effect.cancelled op ∉ es := fun op hop => by simpa using hes.subset hop
  obtain ⟨hself, hold, hbyFd, hinFlight, hopAt, hnext, hlog⟩ := hover
  have hmem : ∀ b, b ≠ a → (s.awaitSuspend a fn fd buf h false).mem b = s.mem b := fun b hb =>
    (hold b hb).trans (Function.update_of_ne hb ..)
  have hcancelled : ∀ op, Effect.cancelled op ∈ s.log ++ es → Effect.cancelled op ∈ s.log := fun op hop =>
    (List.mem_append.1 hop).resolve_right (hnone op)
  refine ⟨?_, ?_, ?_, ?_, ?_, ?_, ?_, ?_, ?_⟩
  · intro b hb
    have hba : b ≠ a := by
      rintro rfl
      exact hb hself
    rw [hmem b hba] at hb
    obtain ⟨m, hop, hm⟩ := hs.armed b hb
    refine ⟨m, (hopAt b hba).trans ?_, hinFlight ▸ hm⟩
    simpa [opAt, hba] using hop
  · intro fd' b hb
    obtain ⟨hb, hne⟩ := mem_remove (hbyFd ▸ hb)
    have hfd : (Function.update s.mem a { onComplete := some fn, handle := some h, fd, buf } a).fd = fd := by
      rw [Function.update_self]
    rw [hfd] at hne
    rcases mem_add hb with hmem' | ⟨rfl, rfl, hpos⟩
    · have hba : b ≠ a := by
        rintro rfl
        exact hs.not_mem_table hdisarmed fd' hmem'
      rw [hmem b hba]
      exact hs.table fd' b hmem'
    · exact absurd rfl (hne rfl hpos)
  · exact fun m k b hm hk => hs.one m k b (hinFlight ▸ hm) (hinFlight ▸ hk)
  · exact fun m b c hb hc => hs.place m b c (hinFlight ▸ hb) (hinFlight ▸ hc)
  · intro m b hm
    have hlt := hs.fresh m b (hinFlight ▸ hm)
    exact ⟨hnext ▸ Nat.lt_succ_of_lt hlt.1, hlt.2⟩
  · exact hlog ▸ hs.exclusive.other hcause fun m hm => absurd hm (hnone _)
  · intro m b hm
    rw [show (s.awaitSuspend a fn fd buf h false).log = s.log ++ es from hlog, effectsOf_append_other hcause]
    exact hs.quiet m b (hinFlight ▸ hm)
  · intro m b hm hc
    by_cases hba : b = a
    · exact hba ▸ hself
    · rw [hmem b hba]
      exact hs.cancelled m b (hinFlight ▸ hm) (hcancelled _ (hlog ▸ hc))
  · intro m hm
    have hle : s.next + 1 ≤ m := Nat.le_trans (Nat.le_of_eq hnext.symm) hm
    obtain ⟨heffects, hfresh⟩ := hs.unused m (Nat.le_of_succ_le hle)
    rw [show (s.awaitSuspend a fn fd buf h false).log = s.log ++ es from hlog, effectsOf_append_other hcause]
    exact ⟨heffects, fun hc => hfresh (hcancelled _ hc)⟩

/-- An operation that is queued. -/
theorem Inv.awaitSuspend_queued (hs : Inv s) (hnull : a ≠ 0) (ha : s.living a = none)
    (hfree : ∀ x ∈ s.inFlight, x.2 ≠ a) (fn : CompleteFn) (fd : Int) (buf : Bytes) (h : Handle) :
    Inv (s.awaitSuspend a fn fd buf h true) := by
  have hdisarmed := hs.disarmed ha
  have hold : ∀ b, b ≠ a → (s.awaitSuspend a fn fd buf h true).mem b = s.mem b :=
    fun b hb => Function.update_of_ne hb ..
  have hself : (s.awaitSuspend a fn fd buf h true).mem a = { onComplete := some fn, handle := some h, fd, buf } :=
    Function.update_self ..
  have hflight : ∀ m b, (m, b) ∈ (s.awaitSuspend a fn fd buf h true).inFlight →
      (m, b) ∈ s.inFlight ∧ b ≠ a ∨ m = s.next ∧ b = a := by
    intro m b hm
    rcases List.mem_append.1 hm with hm | hm
    · exact .inl ⟨hm, hfree _ hm⟩
    · exact .inr (by simpa using hm)
  have hnew : (s.next, a) ∈ (s.awaitSuspend a fn fd buf h true).inFlight :=
    List.mem_append_right _ (List.mem_singleton_self _)
  refine ⟨?_, ?_, ?_, ?_, ?_, hs.exclusive, ?_, ?_, ?_⟩
  · intro b hb
    by_cases hba : b = a
    · subst hba
      exact ⟨s.next, by simp [opAt, awaitSuspend], hnew⟩
    · rw [hold b hba] at hb
      obtain ⟨m, hop, hm⟩ := hs.armed b hb
      refine ⟨m, ?_, List.mem_append_left _ hm⟩
      simpa [opAt, awaitSuspend, hba] using hop
  · intro fd' b hb
    rcases mem_add hb with hmem | ⟨rfl, rfl, hpos⟩
    · have hba : b ≠ a := by
        rintro rfl
        exact hs.not_mem_table hdisarmed fd' hmem
      rw [hold b hba]
      exact hs.table fd' b hmem
    · rw [hself]
      exact ⟨nofun, rfl, hpos⟩
  · intro m k b hm hk
    rcases hflight m b hm with ⟨hm, hba⟩ | ⟨rfl, hb⟩
    · rcases hflight k b hk with ⟨hk, -⟩ | ⟨-, hb⟩
      · exact hs.one m k b hm hk
      · exact absurd hb hba
    · rcases hflight k b hk with ⟨-, hba⟩ | ⟨rfl, -⟩
      · exact absurd hb hba
      · rfl
  · intro m b c hb hc
    rcases hflight m b hb with ⟨hb, -⟩ | ⟨hm, rfl⟩
    · rcases hflight m c hc with ⟨hc, -⟩ | ⟨rfl, -⟩
      · exact hs.place m b c hb hc
      · exact absurd (hs.fresh _ b hb).1 (Nat.lt_irrefl _)
    · rcases hflight m c hc with ⟨hc, -⟩ | ⟨-, rfl⟩
      · subst hm
        exact absurd (hs.fresh _ c hc).1 (Nat.lt_irrefl _)
      · rfl
  · intro m b hm
    rcases hflight m b hm with ⟨hm, -⟩ | ⟨rfl, rfl⟩
    · exact ⟨Nat.lt_succ_of_lt (hs.fresh m b hm).1, (hs.fresh m b hm).2⟩
    · exact ⟨Nat.lt_succ_self _, hnull⟩
  · intro m b hm
    rcases hflight m b hm with ⟨hm, -⟩ | ⟨rfl, -⟩
    · exact hs.quiet m b hm
    · exact (hs.unused _ (Nat.le_refl _)).1
  · intro m b hm hc
    rcases hflight m b hm with ⟨hm, hba⟩ | ⟨rfl, -⟩
    · rw [hold b hba]
      exact hs.cancelled m b hm hc
    · exact absurd hc (hs.unused _ (Nat.le_refl _)).2
  · exact fun m hm => hs.unused m (Nat.le_of_succ_le hm)

theorem Inv.cancelFd (hs : Inv s) (fd : Int) : Inv (s.cancelFd fd) := by
  unfold EventLoop.cancelFd
  split
  · exact hs
  · have hcause : ∀ e ∈ (s.byFd fd).map fun a => Effect.cancelled (s.opAt a), e.cause = none := by
      intro e he
      obtain ⟨b, -, rfl⟩ := List.mem_map.1 he
      rfl
    -- what is cancelled is in flight from its place in the table
    have hflight : ∀ m, Effect.cancelled (some m) ∈ (s.byFd fd).map (fun a => Effect.cancelled (s.opAt a)) →
        ∃ b ∈ s.byFd fd, (m, b) ∈ s.inFlight := by
      intro m hm
      obtain ⟨b, hb, heq⟩ := List.mem_map.1 hm
      obtain ⟨k, hop, hk⟩ := hs.armed b (hs.table fd b hb).1
      obtain rfl : k = m := Option.some.inj (hop.symm.trans (Effect.cancelled.inj heq))
      exact ⟨b, hb, hk⟩
    refine ⟨?_, ?_, hs.one, hs.place, hs.fresh, ?_, ?_, ?_, ?_⟩
    · intro b hb
      by_cases hfd : b ∈ s.byFd fd
      · simp [hfd] at hb
      · simp only [hfd, if_false] at hb
        exact hs.armed b hb
    · intro fd' b hb
      by_cases hfd' : fd' = fd
      · subst hfd'
        simp at hb
      · have hmem : b ∈ s.byFd fd' := by simpa [hfd'] using hb
        have htable := hs.table fd' b hmem
        have hfd : b ∉ s.byFd fd := fun h => hfd' (htable.2.1.symm.trans (hs.table fd b h).2.1)
        simp only [hfd, if_false]
        exact htable
    · refine hs.exclusive.other hcause fun m hm => ?_
      obtain ⟨b, -, hb⟩ := hflight m hm
      exact hs.quiet m b hb
    · intro m b hm
      rw [effectsOf_append_other hcause]
      exact hs.quiet m b hm
    · intro m b hm hc
      by_cases hfd : b ∈ s.byFd fd
      · simp [hfd]
      · simp only [hfd, if_false]
        rcases List.mem_append.1 hc with hc | hc
        · exact hs.cancelled m b hm hc
        · obtain ⟨b', hb', hm'⟩ := hflight m hc
          exact absurd (hs.place m b b' hm hm' ▸ hb') hfd
    · intro m hm
      obtain ⟨heffects, hfresh⟩ := hs.unused m hm
      rw [effectsOf_append_other hcause]
      refine ⟨heffects, fun hc => ?_⟩
      rcases List.mem_append.1 hc with hc | hc
      · exact hfresh hc
      · obtain ⟨b, -, hb⟩ := hflight m hc
        exact absurd (hs.fresh m b hb).1 (Nat.not_lt.2 hm)

theorem Inv.destroy (hs : Inv s) {h : Handle} (hcareful : s.Careful (.destroy h)) : Inv (s.destroy h) := by
  refine ⟨?_, hs.table, hs.one, hs.place, hs.fresh, hs.exclusive, hs.quiet, hs.cancelled, hs.unused⟩
  intro b hb
  obtain ⟨m, hop, hm⟩ := hs.armed b hb
  refine ⟨m, ?_, hm⟩
  have hframe : (s.living b).map Place.frame ≠ some h := fun heq => hb (hcareful _ hm heq)
  unfold opAt at hop ⊢
  cases hl : s.living b with
  | none => simp [hl] at hop
  | some place =>
      have hne : place.frame ≠ h := by simpa [hl] using hframe
      simpa [EventLoop.destroy, hl, hne] using hop

theorem mem_of_lookup {l : List (Nat × Addr)} (h : l.lookup n = some a) : (n, a) ∈ l := by
  obtain ⟨l₁, l₂, rfl, -⟩ := List.lookup_eq_some_iff.1 h
  exact List.mem_append_right _ (List.mem_cons_self ..)

/-- **One careful step keeps the invariant.** -/
theorem Inv.step (hs : Inv s) {act : Action} (hcareful : s.Careful act) (hstep : s.step act = some s') :
    Inv s' := by
  cases act with
  | awaitSuspend a fn fd buf h queued =>
      simp only [EventLoop.step, Option.ite_none_left_eq_some, not_or, Option.some.injEq] at hstep
      obtain ⟨⟨hnull, hliving⟩, rfl⟩ := hstep
      have ha : s.living a = none := by simpa using hliving
      cases queued with
      | true => exact hs.awaitSuspend_queued hnull ha (hcareful rfl) fn fd buf h
      | false => exact hs.awaitSuspend_aborted ha fn fd buf h
  | complete n res =>
      simp only [EventLoop.step, Option.map_eq_some_iff] at hstep
      obtain ⟨a, hn, rfl⟩ := hstep
      exact hs.complete (mem_of_lookup hn)
  | cancelFd fd =>
      obtain rfl := Option.some.inj hstep
      exact hs.cancelFd fd
  | destroy h =>
      obtain rfl := Option.some.inj hstep
      exact hs.destroy hcareful
  | setDone h done =>
      obtain rfl := Option.some.inj hstep
      exact ⟨hs.armed, hs.table, hs.one, hs.place, hs.fresh, hs.exclusive, hs.quiet, hs.cancelled, hs.unused⟩

theorem Inv.run (hs : Inv s) {acts : List Action} (hcareful : CarefulRun acts s)
    (hrun : run acts s = some s') : Inv s' := by
  induction acts generalizing s with
  | nil =>
      obtain rfl := Option.some.inj hrun
      exact hs
  | cons act acts ih =>
      obtain ⟨s₁, hstep, hrest⟩ := Option.bind_eq_some_iff.1 hrun
      exact ih (hs.step hcareful.1 hstep) (hcareful.2 s₁ hstep) hrest

/-! ### Without the condition

A step that is not careful leaves a state from which some continuation strays; others may still be
exclusive. -/

/-- A completion that finds another operation at its address, or none. -/
theorem exists_stray (hn : s.inFlight.lookup n = some a) (hnull : a ≠ 0)
    (harmed : (s.mem a).onComplete ≠ none) (hop : s.opAt a ≠ some n) :
    ∃ s', s.step (.complete n 0) = some s' ∧ ¬ Exclusive s'.log := by
  obtain ⟨es, hwrote, -, hover⟩ := completeFromCqe_armed (s := { s with inFlight := without n s.inFlight }) n 0
    hnull harmed
  refine ⟨completeFromCqe n a 0 { s with inFlight := without n s.inFlight }, ?_, fun hexclusive => ?_⟩
  · rw [EventLoop.step, hn, Option.map_some]
  · have hmem : Effect.wrote n (s.opAt a) ∈ effectsOf n (s.log ++ es) := by
      refine List.mem_filter.2 ⟨List.mem_append_right _ hwrote, ?_⟩
      simp [Effect.cause]
    have hown := hexclusive.own n
    rw [hover.log] at hown
    have hmem := hown.subset hmem
    simp only [List.mem_cons, List.not_mem_nil, or_false, Effect.wrote.injEq, true_and, reduceCtorEq] at hmem
    exact hop hmem

theorem Inv.lookup (hs : Inv s) (hn : (n, a) ∈ s.inFlight) : s.inFlight.lookup n = some a := by
  cases hl : s.inFlight.lookup n with
  | none => simpa using List.lookup_eq_none_iff.1 hl _ hn
  | some b => rw [hs.place n a b hn (mem_of_lookup hl)]

/-- After a step that is not careful a completion may stray. -/
theorem Inv.exists_stray (hs : Inv s) {act : Action} (hcareless : ¬ s.Careful act)
    (hstep : s.step act = some s') : ∃ n s'', s'.step (.complete n 0) = some s'' ∧ ¬ Exclusive s''.log := by
  cases act with
  | awaitSuspend a fn fd buf h queued =>
      simp only [EventLoop.step, Option.ite_none_left_eq_some, not_or, Option.some.injEq] at hstep
      obtain ⟨⟨hnull, -⟩, rfl⟩ := hstep
      simp only [Careful, not_forall, not_not] at hcareless
      obtain ⟨rfl, ⟨n, b⟩, hn, hb⟩ := hcareless
      obtain rfl : b = a := hb
      refine ⟨n, EventLoop.exists_stray (a := b) ?_ hnull ?_ ?_⟩
      · have hl := hs.lookup hn
        simp [EventLoop.awaitSuspend, List.lookup_append, hl]
      · simp [EventLoop.awaitSuspend]
      · have hlt := (hs.fresh n b hn).1
        simp [EventLoop.awaitSuspend, opAt]
        omega
  | destroy h =>
      obtain rfl := Option.some.inj hstep
      simp only [Careful, not_forall] at hcareless
      obtain ⟨⟨n, a⟩, hn, hframe, harmed⟩ := hcareless
      refine ⟨n, EventLoop.exists_stray (a := a) (hs.lookup hn) (hs.fresh n a hn).2 harmed ?_⟩
      obtain ⟨place, hplace, rfl⟩ := Option.map_eq_some_iff.1 hframe
      simp [EventLoop.destroy, opAt, hplace]
  | complete n res => exact absurd trivial hcareless
  | cancelFd fd => exact absurd trivial hcareless
  | setDone h done => exact absurd trivial hcareless

end EventLoop

/-- **Completions reach their own operations only** in every careful run. -/
theorem completions_exclusive (acts : List EventLoop.Action) {s : EventLoop}
    (hrun : EventLoop.run acts {} = some s) (hcareful : EventLoop.CarefulRun acts {}) :
    Exclusive s.log :=
  (EventLoop.inv_start.run hcareful hrun).exclusive

/-- A recv on descriptor 5 is cancelled and its coroutine destroyed; its completion arrives, and only
    then a recv on descriptor 6 is put in its place. -/
def turns : List EventLoop.Action :=
  [.awaitSuspend 8 .recv 5 [7] 0 true, .cancelFd 5, .destroy 0, .complete 0 (-125),
    .awaitSuspend 8 .recv 6 [9] 1 true, .complete 1 1]

/-- The same, but the completion arrives last. -/
def tangled : List EventLoop.Action :=
  [.awaitSuspend 8 .recv 5 [7] 0 true, .cancelFd 5, .destroy 0,
    .awaitSuspend 8 .recv 6 [9] 1 true, .complete 0 (-125)]

/-- What a run did. -/
def logOf (acts : List EventLoop.Action) : List Effect := ((EventLoop.run acts {}).getD {}).log

theorem completions_exclusive_turns :
    logOf turns = [.cancelled (some 0), .wrote 1 (some 1), .resumed 1 (some 1)] ∧
      Exclusive (logOf turns) :=
  ⟨by decide, completions_exclusive turns rfl (by decide)⟩

/-- The second recv is told that it was cancelled. -/
theorem completions_tangled :
    ¬ ∀ (acts : List EventLoop.Action) (s : EventLoop), EventLoop.run acts {} = some s →
      Exclusive s.log := by
  intro h
  have hown := (h tangled _ rfl).own 0
  exact absurd hown (by decide)

end Uring

end Cppvless
