import Cppvless.Coroutine.Closing
import Cppvless.Net.Delivery

set_option autoImplicit false

/-! # Half-close

Two relays between the same two descriptors, run by the two coroutines of a `Closing`: the main
coroutine relays in one direction, the peer in the other. When the source of one of them ends, the
other should go on until its own source ends or it meets an error of its own, and deliver everything
until then. `TwoWay.HalfCloses` says so. A coroutine that ends shuts the source of the other down, so
the pattern keeps the promise exactly in the runs in which the two directions overlap at their ends
(`TwoWay.Overlaps`): whenever a clean end is passed on, the other direction has reached its own. -/

namespace Cppvless

open Coroutine

variable {K : Kind}

/-- The direction of the main coroutine, and that of the peer. -/
inductive Side
  | up
  | down

namespace Side

def other : Side → Side
  | up => down
  | down => up

@[simp] theorem other_other (x : Side) : x.other.other = x := by
  cases x <;> rfl

/-- The coroutine of this direction has ended. -/
def done : Side → CloseFlags → Bool
  | up, s => s.mainDone
  | down, s => s.peerDone

@[simp] theorem done_start (x : Side) (s : CloseFlags) :
    x.done { s with peerStarted := true } = x.done s := by
  cases x <;> rfl

/-- It ends. -/
def finish : Side → CloseFlags → CloseFlags
  | up => CloseFlags.finishMain
  | down => CloseFlags.finishPeer

end Side

/-- A `Closing` whose coroutines relay, one in each direction. `about` says in which sessions they do,
    and `origin` where the relays begin. -/
structure TwoWay (K : Kind) extends Closing K.object where
  init : K.Mem
  dir : Side → Direction K
  origin : ∀ x, Direction.Origin (dir x) → Prop
  about : K.Mem → Prop
  src_apart : ∀ x, (dir x).src ≠ (dir x.other).src
  dst_apart : ∀ x, (dir x).dst ≠ (dir x.other).dst

namespace TwoWay

variable (T : TwoWay K)

/-- The coroutine of a direction. -/
def task : Side → K.Task
  | .up => T.main
  | .down => T.peer

/-- The peer was started. -/
def Started (w : World K.object) : Prop := Event.spawned T.peer ∈ w.trace

/-! ## The promise -/

/-- An event that `acts` picks out does not come between a clean end of direction `x` and the end of the
    other one. -/
def Awaits (x : Side) (acts : Event K.object → Bool) (before : List (Event K.object))
    (e : Event K.object) : Prop :=
  acts e = true → (T.dir x).EndedCleanly before → (T.dir x.other).Over before

instance (x : Side) (acts : Event K.object → Bool) (before : List (Event K.object))
    (e : Event K.object) : Decidable (T.Awaits x acts before e) :=
  inferInstanceAs (Decidable (_ → _ → _))

/-- After a clean end of `x` the source of the other direction is not cut off before its end. -/
def Spares (x : Side) (tr : List (Event K.object)) : Prop :=
  EachStep (T.Awaits x (cuts (T.dir x.other).src)) tr

instance (x : Side) (tr : List (Event K.object)) : Decidable (T.Spares x tr) :=
  inferInstanceAs (Decidable (EachStep _ tr))

/-- A clean end of `x` is passed on, as an end of the writing side of its destination, when the other
    direction has reached its own end. -/
def Overlaps (x : Side) (tr : List (Event K.object)) : Prop :=
  EachStep (T.Awaits x (shuts (T.dir x).dst)) tr

instance (x : Side) (tr : List (Event K.object)) : Decidable (T.Overlaps x tr) :=
  inferInstanceAs (Decidable (EachStep _ tr))

/-- All that was read in direction `x` was recoded and written, or there was an error. -/
def Delivered (x : Side) (w : World K.object) : Prop := ∃ og, T.origin x og ∧ og.Carries [] [] w

/-- **Half-close.** Neither source is cut off while its direction goes on after a clean end of the
    other. No relay has ended before its direction was over, and whenever one awaits more data or has
    ended, everything read before is delivered. -/
structure HalfCloses (p : Pool K.object) : Prop where
  spares : ∀ x, T.Spares x p.world.trace
  isOver : ∀ x, T.Started p.world → p.Finished (T.task x) → (T.dir x).Over p.world.trace
  delivered : ∀ x, T.Started p.world → (p.Finished (T.task x) ∨
    ∃ o : NetOp K.Fd, p.awaits (T.task x) = some (.inl o) ∧ o.Reads (T.dir x).src) →
    T.Delivered x p.world

/-! ## What the coroutines rely on -/

/-- No source was cut off, no writing side ended, and the peer not started. -/
structure Quiet (w : World K.object) : Prop where
  started : ¬ T.Started w
  events : ∀ e ∈ w.trace, ∀ fd, cuts fd e = false ∧ shuts fd e = false

/-- Nothing but the main coroutine has run. -/
structure Fresh (w : World K.object) : Prop extends T.Quiet w where
  mainDone : (T.flags w.mem).mainDone = false
  closed : (T.flags w.mem).closed = false
  flag : (T.flags w.mem).peerStarted = false
  peerDone : (T.flags w.mem).peerDone = false

/-- The coroutine of `x` relays, and the other one may have ended. -/
structure Runs (x : Side) (w : World K.object) : Prop where
  done : x.done (T.flags w.mem) = false
  closed : (T.flags w.mem).closed = false
  flag : (T.flags w.mem).peerStarted = true
  armed : T.armed w.mem
  started : T.Started w
  marked : T.about w.mem → x.other.done (T.flags w.mem) = true → (T.dir x.other).Over w.trace

/-- Directions that overlap at their ends are spared. -/
def Spared (w : World K.object) : Prop :=
  T.about w.mem → (∀ x, T.Overlaps x w.trace) → ∀ x, T.Spares x w.trace

/-- An end of `x` that did not overlap has cost the other direction its source. -/
def Settled (x : Side) (w : World K.object) : Prop :=
  T.about w.mem → T.Overlaps x w.trace ∨ ¬ ∀ y, T.Spares y w.trace

/-- A step of the coroutine of `x`. -/
structure Guar (x : Side) (w w' : World K.object) : Prop where
  trace : w.trace <+: w'.trace
  about : T.Started w → (T.about w'.mem ↔ T.about w.mem)
  spared : T.Spared w → T.Spared w'
  begun : x = .down → T.Started w
  leaves : T.Started w → (T.dir x.other).Leaves w w'
  runs : T.Runs x.other w → T.Runs x.other w'

/-- Where the coroutine of `x` is suspended or has ended. -/
structure Rests (x : Side) (w : World K.object) : Prop where
  settled : T.Settled x w
  begun : x = .down → T.Started w
  other : T.Started w ∨ T.Settled x.other w

/-- The coroutine of `x` relays: of what it has read it is still to recode `raw` and to write
    `pending`. -/
structure Relays (x : Side) (raw : List Bytes) (pending : Bytes) (w : World K.object) : Prop
    extends T.Runs x w where
  settled : T.Settled x w
  carries : T.about w.mem → ∃ og, T.origin x og ∧ og.Carries raw pending w

def contract : Contract K.object where
  env _ := True
  guar t w w' := ∀ x, t = T.task x → T.Guar x w w'
  parked t o w := ∀ x, t = T.task x → T.Rests x w ∧
    ∀ o' : NetOp K.Fd, o = .inl o' → o'.Reads (T.dir x).src → T.Started w → T.about w.mem →
      T.Delivered x w
  pre t w := (t = T.main → w = ⟨T.init, []⟩) ∧ (t = T.peer → T.Relays .down [] [] w)
  post t w := ∀ x, t = T.task x → T.Rests x w ∧
    (T.Started w → T.about w.mem → (T.dir x).Over w.trace ∧ T.Delivered x w)

variable {T} {x y : Side} {w w' : World K.object} {raw : List Bytes} {pending : Bytes}
  {e : Event K.object}

/-! ### The two coroutines -/

theorem task_cases (t : K.Task) : ∃ x, t = T.task x := by
  by_cases ht : t = T.main
  · exact ⟨.up, ht⟩
  · exact ⟨.down, T.eq_peer t ht⟩

theorem task_injective (h : T.task x = T.task y) : x = y := by
  cases x with
  | up =>
      cases y with
      | up => rfl
      | down => exact absurd h T.main_ne_peer
  | down =>
      cases y with
      | up => exact absurd h.symm T.main_ne_peer
      | down => rfl

theorem guar_task (h : T.Guar x w w') : T.contract.guar (T.task x) w w' :=
  fun _ hy => task_injective hy ▸ h

theorem parked_task {o : K.object.Io.Op} (h : T.Rests x w)
    (hdelivered : ∀ o' : NetOp K.Fd, o = .inl o' → o'.Reads (T.dir x).src → T.Started w →
      T.about w.mem → T.Delivered x w) : T.contract.parked (T.task x) o w := by
  intro y hy
  obtain rfl := task_injective hy
  exact ⟨h, hdelivered⟩

theorem post_task (h : T.Rests x w)
    (hover : T.Started w → T.about w.mem → (T.dir x).Over w.trace ∧ T.Delivered x w) :
    T.contract.post (T.task x) w := by
  intro y hy
  obtain rfl := task_injective hy
  exact ⟨h, hover⟩

/-- What the other coroutine does, as the one of `x` sees it. -/
structure Grants (T : TwoWay K) (x : Side) (w w' : World K.object) : Prop where
  begun : T.Started w
  started : T.Started w'
  about : T.about w'.mem ↔ T.about w.mem
  leaves : (T.dir x).Leaves w w'
  runs : T.Runs x w → T.Runs x w'

theorem Started.mono (h : T.Started w) (ht : w.trace <+: w'.trace) : T.Started w' := ht.subset h

theorem Guar.grants (h : T.Guar x.other w w') (hbegun : x = .down → T.Started w) :
    T.Grants x w w' := by
  have hs : T.Started w := by
    cases x with
    | up => exact h.begun rfl
    | down => exact hbegun rfl
  have hleaves := h.leaves hs
  have hruns := h.runs
  rw [Side.other_other] at hleaves hruns
  exact ⟨hs, hs.mono h.trace, h.about hs, hleaves, hruns⟩

theorem rely_task (h : T.contract.rely (T.task x) w w') : T.Guar x.other w w' := by
  obtain ⟨t, hne, hg, -⟩ := h
  obtain ⟨y, rfl⟩ := task_cases (T := T) t
  cases x with
  | up =>
      cases y with
      | up => exact absurd rfl hne
      | down => exact hg .down rfl
  | down =>
      cases y with
      | up => exact hg .up rfl
      | down => exact absurd rfl hne

/-! ### Histories that go on -/

/-- What happens otherwise does not come too early. -/
theorem awaits_append {acts : Event K.object → Bool} {tr more : List (Event K.object)}
    (h : EachStep (T.Awaits x acts) tr) (hmore : ∀ e ∈ more, acts e = false) :
    EachStep (T.Awaits x acts) (tr ++ more) :=
  h.append fun before e he hacts => by
    rw [hmore e he] at hacts
    exact nomatch hacts

theorem awaits_of_none {acts : Event K.object → Bool} {tr : List (Event K.object)}
    (h : ∀ e ∈ tr, acts e = false) : EachStep (T.Awaits x acts) tr := by
  have hnil : EachStep (T.Awaits x acts) [] := eachStep_nil
  exact awaits_append hnil h

theorem Settled.append (h : T.Settled x w) (habout : T.about w'.mem → T.about w.mem)
    {more : List (Event K.object)} (htrace : w'.trace = w.trace ++ more)
    (hmore : ∀ e ∈ more, shuts (T.dir x).dst e = false) : T.Settled x w' := by
  intro ha
  rw [htrace]
  rcases h (habout ha) with hoverlaps | hcut
  · exact .inl (awaits_append hoverlaps hmore)
  · exact .inr fun hspares => hcut fun y => (hspares y).of_append

theorem Spared.append (h : T.Spared w) (habout : T.about w'.mem → T.about w.mem)
    {more : List (Event K.object)} (htrace : w'.trace = w.trace ++ more)
    (hmore : ∀ e ∈ more, ∀ fd, cuts fd e = false) : T.Spared w' := by
  intro ha hoverlaps x
  rw [htrace] at hoverlaps ⊢
  have hspares := h (habout ha) (fun y => (hoverlaps y).of_append) x
  exact awaits_append hspares fun e he => hmore e he _

theorem Quiet.settled (h : T.Quiet w) (x : Side) : T.Settled x w :=
  fun _ => .inl (awaits_of_none fun e he => (h.events e he _).2)

theorem Quiet.spared (h : T.Quiet w) : T.Spared w :=
  fun _ _ _ => awaits_of_none fun e he => (h.events e he _).1

theorem Quiet.rests (h : T.Quiet w) : T.Rests .up w :=
  ⟨h.settled .up, by simp, .inr (h.settled .down)⟩

theorem Grants.settled (h : T.Grants x w w') (hw : T.Settled x w) : T.Settled x w' := by
  obtain ⟨more, htrace, hsilent⟩ := h.leaves.trace
  exact hw.append h.about.1 htrace fun e he => (hsilent e he).not_shuts

theorem Grants.delivered (h : T.Grants x w w') (hw : T.Delivered x w) : T.Delivered x w' := by
  obtain ⟨og, hog, hcarries⟩ := hw
  exact ⟨og, hog, hcarries.leaves h.leaves⟩

theorem Grants.over (h : T.Grants x w w') (hw : (T.dir x).Over w.trace) :
    (T.dir x).Over w'.trace := by
  obtain ⟨more, htrace, -⟩ := h.leaves.trace
  exact htrace ▸ hw.append more

theorem Grants.rests (h : T.Grants x w w') (hw : T.Rests x w) : T.Rests x w' :=
  ⟨h.settled hw.settled, fun _ => h.started, .inl h.started⟩

theorem Grants.relays (h : T.Grants x w w') (hw : T.Relays x raw pending w) :
    T.Relays x raw pending w' := by
  refine ⟨h.runs hw.toRuns, h.settled hw.settled, fun ha => ?_⟩
  obtain ⟨og, hog, hcarries⟩ := hw.carries (h.about.1 ha)
  exact ⟨og, hog, hcarries.leaves h.leaves⟩

theorem stable : T.contract.Stable where
  env_prefix _ _ _ := trivial
  parked t o w w' h hr := by
    obtain ⟨x, rfl⟩ := task_cases (T := T) t
    obtain ⟨hrests, hdelivered⟩ := h x rfl
    have hg := (rely_task hr).grants hrests.begun
    refine parked_task (hg.rests hrests) fun o' ho hreads _ ha => hg.delivered ?_
    exact hdelivered o' ho hreads hg.begun (hg.about.1 ha)
  post t w w' h hr := by
    obtain ⟨x, rfl⟩ := task_cases (T := T) t
    obtain ⟨hrests, hends⟩ := h x rfl
    have hg := (rely_task hr).grants hrests.begun
    refine post_task (hg.rests hrests) fun _ ha => ?_
    obtain ⟨hover, hdelivered⟩ := hends hg.begun (hg.about.1 ha)
    exact ⟨hg.over hover, hg.delivered hdelivered⟩

/-! ### Steps of a relay -/

/-- An instruction of the coroutine of `x` that starts nothing, changes no flag, nor what wakes the
    peer, nor what kind of session this is, and does nothing of the other direction. -/
def Own (T : TwoWay K) (x : Side) : ObjOp K.object → Prop
  | .member f => ∀ s, T.flags (f s).1 = T.flags s ∧ (T.armed s → T.armed (f s).1) ∧
      (T.about (f s).1 ↔ T.about s) ∧ (T.dir x.other).state (f s).1 = (T.dir x.other).state s ∧
      (T.dir x.other).left (f s).1 = (T.dir x.other).left s ∧ (f s).2 = []
  | .io o => ∀ r, (T.dir x.other).Silent (.io o r)
  | .spawn _ => False
  | _ => True

/-- `w'` is `w` after such an instruction. -/
structure Steps (T : TwoWay K) (x : Side) (w w' : World K.object) : Prop where
  flags : T.flags w'.mem = T.flags w.mem
  armed : T.armed w.mem → T.armed w'.mem
  about : T.about w'.mem ↔ T.about w.mem
  leaves : (T.dir x.other).Leaves w w'
  uncut : ∃ more, w'.trace = w.trace ++ more ∧ ∀ e ∈ more, ∀ fd, cuts fd e = false

namespace Steps

theorem call {f : K.Mem → K.Mem × List (Syscall K.Fd)} (h : T.Own x (.member f)) :
    T.Steps x w (w.call f) := by
  obtain ⟨hflags, harmed, habout, hstate, hleft, hcalls⟩ := h w.mem
  have htrace : (w.call f).trace = w.trace ++ [] := by rw [World.call_trace, hcalls, List.map_nil]
  exact ⟨hflags, harmed, habout, ⟨hstate, hleft, [], htrace, by simp⟩, [], htrace, by simp⟩

theorem answer {o : K.object.Io.Op} {r : K.object.Io.Res o}
    (h : (T.dir x.other).Silent (.io (O := K.object) o r)) : T.Steps x w (w.answer o r) :=
  ⟨rfl, id, .rfl, ⟨rfl, rfl, [.io o r], rfl, by simpa using h⟩, [.io o r], rfl, by simp [cuts]⟩

/-- Both relays go on. -/
theorem runs (h : T.Steps x w w') (hw : T.Runs y w) : T.Runs y w' := by
  obtain ⟨more, htrace, -⟩ := h.uncut
  refine ⟨h.flags ▸ hw.done, h.flags ▸ hw.closed, h.flags ▸ hw.flag, h.armed hw.armed,
    hw.started.mono (htrace ▸ List.prefix_append _ _), fun ha hdone => ?_⟩
  rw [htrace]
  exact (hw.marked (h.about.1 ha) (h.flags ▸ hdone)).append more

theorem guar (h : T.Steps x w w') (hs : T.Started w) : T.Guar x w w' := by
  obtain ⟨more, htrace, huncut⟩ := h.uncut
  exact ⟨htrace ▸ List.prefix_append _ _, fun _ => h.about,
    fun hw => hw.append h.about.1 htrace huncut, fun _ => hs, fun _ => h.leaves, h.runs⟩

end Steps

/-- What the coroutine of `x` finds at its end. Either it was in time, or it was not and what it is about
    to do is still owed. -/
structure Ending (T : TwoWay K) (x : Side) (w : World K.object) : Prop where
  flag : (T.flags w.mem).peerStarted = true
  armed : T.armed w.mem
  started : T.Started w
  marked : T.about w.mem → x.other.done (T.flags w.mem) = true → (T.dir x.other).Over w.trace
  isOver : T.about w.mem → (T.dir x).Over w.trace
  delivered : T.about w.mem → T.Delivered x w
  owes : T.about w.mem →
    ((T.Overlaps x w.trace ∨ ¬ ∀ y, T.Spares y w.trace) ∧
      ((T.dir x).EndedCleanly w.trace → (T.dir x.other).Over w.trace)) ∨
    ((T.dir x).EndedCleanly w.trace ∧ ¬ (T.dir x.other).Over w.trace ∧ ¬ T.Overlaps x w.trace)

namespace Relays

/-- An answer of its own. -/
theorem answer {raw' : List Bytes} {pending' : Bytes} {o : K.object.Io.Op} {r : K.object.Io.Res o}
    (hw : T.Relays x raw pending w) (hother : (T.dir x.other).Silent (.io (O := K.object) o r))
    (hshuts : shuts (T.dir x).dst (.io (O := K.object) o r) = false)
    (hcarries : ∀ og : Direction.Origin (T.dir x), og.Carries raw pending w →
      og.Carries raw' pending' (w.answer o r)) :
    T.contract.guar (T.task x) w (w.answer o r) ∧ T.Relays x raw' pending' (w.answer o r) := by
  have h : T.Steps x w (w.answer o r) := .answer hother
  refine ⟨guar_task (h.guar hw.started), h.runs hw.toRuns, ?_, fun ha => ?_⟩
  · have htrace : (w.answer o r).trace = w.trace ++ [.io o r] := rfl
    exact hw.settled.append h.about.1 htrace (by simpa using hshuts)
  · obtain ⟨og, hog, hcarried⟩ := hw.carries ha
    exact ⟨og, hog, hcarries og hcarried⟩

theorem read {rr : RecvResult} (hw : T.Relays x [] [] w) (he : IsRead (T.dir x).src rr e) :
    T.contract.guar (T.task x) w (w.push e) ∧
      T.Relays x (if rr.ok then [rr.data] else []) [] (w.push e) := by
  obtain ⟨o, r, rfl, ho⟩ := he.read
  have hother : (T.dir x.other).Silent (.io (.inl o) r) :=
    Direction.silent_read he (T.src_apart x).symm
  exact hw.answer hother (shuts_eq_false ho.not_shuts r) fun og hog => hog.read he

theorem write {out rest : Bytes} {failed : Bool} (hw : T.Relays x [] (out ++ rest) w)
    (he : IsWrite (T.dir x).dst out failed e) :
    T.contract.guar (T.task x) w (w.push e) ∧
      T.Relays x [] (if failed then [] else rest) (w.push e) := by
  obtain ⟨o, r, rfl, ho⟩ := he.write
  have hother : (T.dir x.other).Silent (.io (.inl o) r) :=
    Direction.silent_write he (T.dst_apart x).symm
  exact hw.answer hother (shuts_eq_false ho.not_shuts r) fun og hog => hog.write he

/-- An answer that is none of a descriptor. -/
theorem ext (hw : T.Relays x raw pending w) (o : K.Ext.Op) (r : K.Ext.Res o) :
    T.contract.guar (T.task x) w (w.answer (.inr o) r) ∧
      T.Relays x raw pending (w.answer (.inr o) r) :=
  hw.answer (Direction.silent_ext o r) rfl fun _ hog =>
    hog.leaves ⟨rfl, rfl, [.io (.inr o) r], rfl, by simpa using Direction.silent_ext o r⟩

/-- A change of its own members. -/
theorem call {raw' : List Bytes} {pending' : Bytes} {f : K.Mem → K.Mem × List (Syscall K.Fd)}
    (hw : T.Relays x raw pending w) (hf : T.Own x (.member f))
    (hcarries : ∀ og : Direction.Origin (T.dir x), og.Carries raw pending w →
      og.Carries raw' pending' (w.call f)) :
    T.contract.guar (T.task x) w (w.call f) ∧ T.Relays x raw' pending' (w.call f) := by
  have h : T.Steps x w (w.call f) := .call hf
  have htrace : (w.call f).trace = w.trace ++ [] := by
    rw [World.call_trace, (hf w.mem).2.2.2.2.2, List.map_nil]
  refine ⟨guar_task (h.guar hw.started), h.runs hw.toRuns, ?_, fun ha => ?_⟩
  · exact hw.settled.append h.about.1 htrace (by simp)
  · obtain ⟨og, hog, hcarried⟩ := hw.carries (h.about.1 ha)
    exact ⟨og, hog, hcarries og hcarried⟩

/-- It recodes what it has read. -/
theorem recode {data out : Bytes} {f : K.Mem → K.Mem × List (Syscall K.Fd)}
    (hw : T.Relays x [data] [] w) (hf : T.Own x (.member f))
    (hdata : (T.dir x).recodes ((T.dir x).state w.mem) data out ((T.dir x).state (f w.mem).1)) :
    T.contract.guar (T.task x) w (w.call f) ∧ T.Relays x [] out (w.call f) := by
  have htrace : (w.call f).trace = w.trace := by
    rw [World.call_trace, (hf w.mem).2.2.2.2.2, List.map_nil, List.append_nil]
  exact hw.call hf fun og hog => hog.recode htrace hdata

/-- Data that is only copied. -/
theorem copy {data : Bytes} (hw : T.Relays x [data] [] w)
    (hcopies : (T.dir x).Copies ((T.dir x).state w.mem)) : T.Relays x [] data w := by
  refine ⟨hw.toRuns, hw.settled, fun ha => ?_⟩
  obtain ⟨og, hog, hcarries⟩ := hw.carries ha
  exact ⟨og, hog, hcarries.recode rfl (hcopies data)⟩

/-- It ends with an error. -/
theorem fails (hw : T.Relays x [] [] w) (hfailed : (T.dir x).Failed w.trace) : T.Ending x w :=
  ⟨hw.flag, hw.armed, hw.started, hw.marked, fun _ => .inr hfailed, hw.carries,
    fun ha => .inl ⟨hw.settled ha, fun hclean => absurd hfailed hclean.2⟩⟩

/-- It passes its end on. -/
theorem shut {o : NetOp K.Fd} (hw : T.Relays x [] [] w) (hover : (T.dir x).Over w.trace)
    (ho : o.Shuts (T.dir x).dst) (r : o.Res) :
    T.contract.guar (T.task x) w (w.push (.io (.inl o) r)) ∧
      T.Ending x (w.push (.io (.inl o) r)) := by
  have hother : (T.dir x.other).Silent (.io (.inl o) r) :=
    Direction.silent_shut ho r (T.dst_apart x).symm
  have h : T.Steps x w (w.answer (.inl o) r) := .answer hother
  have hruns := h.runs hw.toRuns
  -- the answer is nothing that was read or written
  have hidle : ∀ e ∈ [Event.io (O := K.object) (.inl o) r], (T.dir x).Idle e := by
    simpa using Direction.idle_shut ho r
  refine ⟨guar_task (h.guar hw.started), hruns.flag, hruns.armed, hruns.started, hruns.marked,
    fun _ => hover.append _, fun ha => ?_, fun ha => ?_⟩
  · obtain ⟨og, hog, hcarries⟩ := hw.carries ha
    exact ⟨og, hog, hcarries.idle rfl rfl hidle⟩
  · rw [World.push_trace, Direction.endedCleanly_idle hidle]
    by_cases hin : (T.dir x).EndedCleanly w.trace → (T.dir x.other).Over w.trace
    · refine .inl ⟨?_, fun hclean => (hin hclean).append _⟩
      rcases hw.settled ha with hoverlaps | hcut
      · exact .inl (eachStep_concat.2 ⟨hoverlaps, fun _ => hin⟩)
      · exact .inr fun hspares => hcut fun y => (hspares y).of_append
    · obtain ⟨hclean, hgoes⟩ := Classical.not_imp.1 hin
      refine .inr ⟨hclean, fun hends => hgoes ?_, fun hoverlaps => hin ?_⟩
      · exact (Direction.over_idle (by simpa using hother.toIdle)).1 hends
      · exact (eachStep_concat.1 hoverlaps).2 (shuts_self ho r)

end Relays

/-! ### Steps that change the flags -/

theorem Ending.rests (h : T.Ending x w) (hsettled : T.Settled x w') (ht : w.trace <+: w'.trace) :
    T.Rests x w' :=
  ⟨hsettled, fun _ => h.started.mono ht, .inl (h.started.mono ht)⟩

/-- The flags at the end of the coroutine of `x`, as the other one sees them. -/
theorem finish_other {s : CloseFlags} (h : x.other.done s = false) (hclosed : s.closed = false)
    (hflag : s.peerStarted = true) :
    x.other.done (x.finish s) = false ∧ (x.finish s).closed = false ∧
      (x.finish s).peerStarted = true := by
  cases x with
  | up =>
      have hdone : s.peerDone = false := h
      simp [Side.finish, Side.other, Side.done, CloseFlags.finishMain, hdone, hclosed, hflag]
  | down =>
      have hdone : s.mainDone = false := h
      simp [Side.finish, Side.other, Side.done, CloseFlags.finishPeer, hdone, hclosed, hflag]

/-- It tells the other one that its direction is over. -/
theorem Ending.tells (hw : T.Ending x w) (hr : T.Runs x.other w)
    (hflags : x.other.done (T.flags w'.mem) = false ∧ (T.flags w'.mem).closed = false ∧
      (T.flags w'.mem).peerStarted = true)
    (harmed : T.armed w.mem → T.armed w'.mem) (habout : T.about w'.mem → T.about w.mem)
    (ht : w.trace <+: w'.trace) : T.Runs x.other w' := by
  refine ⟨hflags.1, hflags.2.1, hflags.2.2, harmed hr.armed, hr.started.mono ht, fun ha _ => ?_⟩
  obtain ⟨more, htrace⟩ := ht
  rw [Side.other_other, ← htrace]
  exact (hw.isOver (habout ha)).append more

/-- **The end of a coroutine** cuts off the other source if the other one has not ended, and then either
    was in time or leaves the promise broken. -/
theorem Ending.finish {f : K.Mem → K.Mem × List (Syscall K.Fd)} (hw : T.Ending x w)
    (hflags : T.flags (f w.mem).1 = x.finish (T.flags w.mem))
    (harmed : T.armed w.mem → T.armed (f w.mem).1) (habout : T.about (f w.mem).1 ↔ T.about w.mem)
    (hstate : ∀ y, (T.dir y).state (f w.mem).1 = (T.dir y).state w.mem ∧
      (T.dir y).left (f w.mem).1 = (T.dir y).left w.mem)
    (hcalls : (f w.mem).2 =
      if x.other.done (T.flags w.mem) then [] else [.shutdownRdWr (T.dir x.other).src]) :
    T.contract.guar (T.task x) w (w.call f) ∧ T.contract.post (T.task x) (w.call f) := by
  have hinit : w.trace <+: (w.call f).trace := List.prefix_append _ _
  have hleaves : ∀ y, (T.dir y).Leaves w (w.call f) := fun y =>
    ⟨(hstate y).1, (hstate y).2, _, rfl, by
      simpa using fun c _ => Direction.silent_sys c⟩
  -- what becomes of the promise
  have hpromise : T.about w.mem →
      (T.Overlaps x (w.call f).trace ∨ ¬ ∀ y, T.Spares y (w.call f).trace) ∧
        ((∀ y, T.Overlaps y (w.call f).trace) → (∀ y, T.Spares y w.trace) →
          ∀ y, T.Spares y (w.call f).trace) := by
    intro ha
    cases hdone : x.other.done (T.flags w.mem) with
    | true =>
        have htrace : (w.call f).trace = w.trace := by
          rw [World.call_trace, hcalls, hdone]
          exact List.append_nil _
        rw [htrace]
        rcases hw.owes ha with ⟨hsettled, -⟩ | ⟨-, hgoes, -⟩
        · exact ⟨hsettled, fun _ => id⟩
        · exact absurd (hw.marked ha hdone) hgoes
    | false =>
        have htrace : (w.call f).trace = w.trace ++ [.sys (.shutdownRdWr (T.dir x.other).src)] := by
          rw [World.call_trace, hcalls, hdone]
          rfl
        rw [htrace]
        rcases hw.owes ha with ⟨hsettled, hin⟩ | ⟨hclean, hgoes, hlate⟩
        · refine ⟨?_, fun _ hspares y => eachStep_concat.2 ⟨hspares y, fun hcuts => ?_⟩⟩
          · rcases hsettled with hoverlaps | hcut
            · exact .inl (awaits_append hoverlaps (by simp [shuts]))
            · exact .inr fun hspares => hcut fun y => (hspares y).of_append
          · -- it cuts off no source but this one
            have hsrc : (T.dir x.other).src = (T.dir y.other).src := of_decide_eq_true hcuts
            cases x with
            | up =>
                cases y with
                | up => exact hin
                | down => exact absurd hsrc (T.src_apart .down)
            | down =>
                cases y with
                | up => exact absurd hsrc (T.src_apart .up)
                | down => exact hin
        · refine ⟨.inr fun hspares => hgoes ?_, fun hoverlaps => ?_⟩
          · exact (eachStep_concat.1 (hspares x)).2 (decide_eq_true rfl) hclean
          · exact absurd (hoverlaps x).of_append hlate
  refine ⟨guar_task ⟨hinit, fun _ => habout, fun hs ha hoverlaps => ?_, fun _ => hw.started,
    fun _ => hleaves _, fun hr => ?_⟩, post_task (hw.rests (fun ha => ?_) hinit) fun _ ha => ?_⟩
  · have ha' := habout.1 ha
    exact (hpromise ha').2 hoverlaps (hs ha' fun y => (hoverlaps y).of_append)
  · refine hw.tells hr ?_ harmed habout.1 hinit
    rw [World.call_mem, hflags]
    exact finish_other hr.done hr.closed hr.flag
  · exact (hpromise (habout.1 ha)).1
  · obtain ⟨og, hog, hcarries⟩ := hw.delivered (habout.1 ha)
    exact ⟨(hw.isOver (habout.1 ha)).append _, og, hog, hcarries.leaves (hleaves x)⟩

/-- The peer marks its end. -/
theorem Ending.mark {f : K.Mem → K.Mem × List (Syscall K.Fd)} (hw : T.Ending .down w)
    (hflags : T.flags (f w.mem).1 = { T.flags w.mem with peerDone := true })
    (harmed : T.armed w.mem → T.armed (f w.mem).1) (habout : T.about (f w.mem).1 ↔ T.about w.mem)
    (hstate : ∀ y, (T.dir y).state (f w.mem).1 = (T.dir y).state w.mem ∧
      (T.dir y).left (f w.mem).1 = (T.dir y).left w.mem)
    (hcalls : (f w.mem).2 = []) :
    T.contract.guar T.peer w (w.call f) ∧ T.Ending .down (w.call f) := by
  have htrace : (w.call f).trace = w.trace ++ [] := by rw [World.call_trace, hcalls, List.map_nil]
  have hleaves : ∀ y, (T.dir y).Leaves w (w.call f) := fun y =>
    ⟨(hstate y).1, (hstate y).2, [], htrace, by simp⟩
  have hstarted : T.Started (w.call f) := hw.started.mono (List.prefix_append _ _)
  refine ⟨guar_task (x := .down) ⟨List.prefix_append _ _, fun _ => habout, fun hs => ?_,
    fun _ => hw.started, fun _ => hleaves _, fun hr => ?_⟩, ?_, harmed hw.armed, hstarted, ?_, ?_,
    ?_, ?_⟩
  · exact hs.append habout.1 htrace (by simp)
  · refine hw.tells hr ?_ harmed habout.1 (List.prefix_append _ _)
    rw [World.call_mem, hflags]
    exact ⟨hr.done, hr.closed, hr.flag⟩
  · rw [World.call_mem, hflags]
    exact hw.flag
  · intro ha hdone
    rw [World.call_mem, hflags] at hdone
    exact (hw.marked (habout.1 ha) hdone).append _
  · exact fun ha => (hw.isOver (habout.1 ha)).append _
  · intro ha
    obtain ⟨og, hog, hcarries⟩ := hw.delivered (habout.1 ha)
    exact ⟨og, hog, hcarries.leaves (hleaves .down)⟩
  · intro ha
    rw [htrace, List.append_nil]
    exact hw.owes (habout.1 ha)

/-- Before the peer is started the main coroutine is alone. -/
theorem Quiet.guar (hw : T.Quiet w) (hw' : T.Quiet w') (ht : w.trace <+: w'.trace) :
    T.contract.guar T.main w w' :=
  guar_task (x := .up) ⟨ht, fun hs => absurd hs hw.started, fun _ => hw'.spared, by simp,
    fun hs => absurd hs hw.started, fun hr => absurd hr.started hw.started⟩

theorem Quiet.append (hw : T.Quiet w) {more : List (Event K.object)}
    (htrace : w'.trace = w.trace ++ more) (hnone : Event.spawned T.peer ∉ more)
    (hmore : ∀ e ∈ more, ∀ fd, cuts fd e = false ∧ shuts fd e = false) : T.Quiet w' := by
  refine ⟨fun hs => ?_, fun e he => ?_⟩
  · rw [Started, htrace] at hs
    exact (List.mem_append.1 hs).elim hw.started hnone
  · rw [htrace] at he
    exact (List.mem_append.1 he).elim (hw.events e) (hmore e)

theorem Quiet.call (hw : T.Quiet w) {f : K.Mem → K.Mem × List (Syscall K.Fd)}
    (hcalls : ∀ fd, .shutdownRdWr fd ∉ (f w.mem).2) : T.Quiet (w.call f) := by
  refine hw.append rfl (by simp) fun e he fd => ?_
  obtain ⟨c, hc, rfl⟩ := List.mem_map.1 he
  refine ⟨?_, rfl⟩
  cases c with
  | shutdownRdWr fd' => exact absurd hc (hcalls fd')
  | close fd' => rfl

theorem Fresh.finish {f : K.Mem → K.Mem × List (Syscall K.Fd)} (hw : T.Fresh w)
    (hcalls : (f w.mem).2 = []) :
    T.contract.guar T.main w (w.call f) ∧ T.contract.post T.main (w.call f) := by
  have hquiet : T.Quiet (w.call f) := hw.toQuiet.call (by simp [hcalls])
  exact ⟨hw.toQuiet.guar hquiet (List.prefix_append _ _),
    post_task (x := .up) hquiet.rests fun hs => absurd hs hquiet.started⟩

/-- What the main coroutine finds at its end. -/
def MainEnds (T : TwoWay K) (w : World K.object) : Prop := T.Fresh w ∨ T.Ending .up w

theorem MainEnds.finish {f : K.Mem → K.Mem × List (Syscall K.Fd)} (hw : T.MainEnds w)
    (hflags : T.flags (f w.mem).1 = (T.flags w.mem).finishMain)
    (harmed : T.armed w.mem → T.armed (f w.mem).1) (habout : T.about (f w.mem).1 ↔ T.about w.mem)
    (hstate : ∀ y, (T.dir y).state (f w.mem).1 = (T.dir y).state w.mem ∧
      (T.dir y).left (f w.mem).1 = (T.dir y).left w.mem)
    (hcalls : (f w.mem).2 = if (T.flags w.mem).peerStarted && !(T.flags w.mem).peerDone then
      [.shutdownRdWr (T.dir .down).src] else []) :
    T.contract.guar T.main w (w.call f) ∧ T.contract.post T.main (w.call f) := by
  rcases hw with hw | hw
  · exact hw.finish (by simp [hcalls, hw.flag])
  · refine Ending.finish (x := .up) hw hflags harmed habout hstate ?_
    rw [hcalls, hw.flag]
    show _ = if (T.flags w.mem).peerDone then _ else _
    cases (T.flags w.mem).peerDone with
    | true => rfl
    | false => rfl

/-! ### Before the peer is started -/

/-- An instruction that starts nothing, changes no flag, nor what wakes the peer, and shuts nothing
    down. -/
def Prepares (T : TwoWay K) : ObjOp K.object → Prop
  | .member f => ∀ s, T.flags (f s).1 = T.flags s ∧ ∀ fd, .shutdownRdWr fd ∉ (f s).2
  | .io o => ∀ r fd, shuts fd (.io (O := K.object) o r) = false
  | .spawn _ => False
  | _ => True

theorem Fresh.call {f : K.Mem → K.Mem × List (Syscall K.Fd)} (hw : T.Fresh w)
    (hf : T.Prepares (.member f)) :
    T.contract.guar T.main w (w.call f) ∧ T.Fresh (w.call f) := by
  obtain ⟨hflags, hcalls⟩ := hf w.mem
  have hquiet : T.Quiet (w.call f) := hw.toQuiet.call hcalls
  exact ⟨hw.toQuiet.guar hquiet (List.prefix_append _ _), hquiet, hflags ▸ hw.mainDone,
    hflags ▸ hw.closed, hflags ▸ hw.flag, hflags ▸ hw.peerDone⟩

theorem Fresh.answer {o : K.object.Io.Op} (hw : T.Fresh w) (ho : T.Prepares (.io o))
    (r : K.object.Io.Res o) :
    T.contract.guar T.main w (w.answer o r) ∧ T.Fresh (w.answer o r) := by
  have htrace : (w.answer o r).trace = w.trace ++ [.io o r] := rfl
  have hquiet : T.Quiet (w.answer o r) :=
    hw.toQuiet.append htrace (by simp) (by simpa [cuts] using ho r)
  exact ⟨hw.toQuiet.guar hquiet (List.prefix_append _ _), hquiet, hw.mainDone, hw.closed, hw.flag,
    hw.peerDone⟩

theorem Fresh.not_rely (hw : T.Fresh w) : ¬ T.contract.rely T.main w w' := fun hr =>
  hw.started ((rely_task (x := .up) hr).begun rfl)

theorem Fresh.parked (hw : T.Fresh w) (o : K.object.Io.Op) : T.contract.parked T.main o w :=
  parked_task (x := .up) hw.toQuiet.rests fun _ _ _ hs => absurd hs hw.started

/-- What such instructions keep besides. -/
theorem frame_fresh {P : ObjOp K.object → Prop} {B : World K.object → Prop}
    (hP : ∀ o, P o → T.Prepares o) (hcall : ∀ f w, P (.member f) → B w → B (w.call f))
    (hanswer : ∀ o r w, P (.io o) → B w → B (w.answer o r)) :
    Frame T.contract T.main P fun w => T.Fresh w ∧ B w where
  rely _ _ hw hr := absurd hr hw.1.not_rely
  parked o _ _ _ hw := hw.1.parked o
  member f w hf hw _ :=
    have h := hw.1.call (hP _ hf)
    ⟨h.1, h.2, hcall f w hf hw.2⟩
  io o r w ho hw _ :=
    have h := hw.1.answer (hP _ ho) r
    ⟨h.1, h.2, hanswer o r w ho hw.2⟩
  spawn _ _ hu := (hP _ hu).elim

/-- The main coroutine announces the peer and starts it. -/
theorem wp_startPeer {f : K.Mem → K.Mem × List (Syscall K.Fd)} (hw : T.Fresh w)
    (hflags : T.flags (f w.mem).1 = { T.flags w.mem with peerStarted := true })
    (harmed : T.armed (f w.mem).1) (hcalls : (f w.mem).2 = [])
    (horigin : T.about (f w.mem).1 → ∀ x,
      T.origin x ((T.dir x).originAt ((w.call f).start T.peer)))
    (hleft : (T.dir .down).left (f w.mem).1 = []) :
    wp T.contract T.main (do Prog.member f; Prog.spawn T.peer) (Returns fun _ w' =>
      T.Relays .up ((T.dir .up).originAt (w.call f)).lead [] w' ∧
        (T.dir .up).state w'.mem = (T.dir .up).state (f w.mem).1 ∧
        (T.dir .up).left w'.mem = (T.dir .up).left (f w.mem).1 ∧
        (T.about w'.mem ↔ T.about (f w.mem).1)) w := by
  have hquiet : T.Quiet (w.call f) := hw.toQuiet.call (by simp [hcalls])
  have hstarted : T.Started ((w.call f).start T.peer) := List.mem_append_right _ (by simp)
  have hevents : ∀ e ∈ ((w.call f).start T.peer).trace, ∀ fd, cuts fd e = false ∧ shuts fd e = false := by
    intro e he
    rcases List.mem_append.1 he with he | he
    · exact hquiet.events e he
    · obtain rfl := List.mem_singleton.1 he
      exact fun _ => ⟨rfl, rfl⟩
  have hflags' : T.flags ((w.call f).start T.peer).mem =
      { T.flags w.mem with peerStarted := true } := hflags
  have hrelays : ∀ x, x.done (T.flags w.mem) = false → x.other.done (T.flags w.mem) = false →
      T.Relays x ((T.dir x).originAt ((w.call f).start T.peer)).lead []
        ((w.call f).start T.peer) := by
    intro x hdone hother
    refine ⟨⟨?_, ?_, ?_, harmed, hstarted, fun _ h => ?_⟩, fun _ => .inl ?_, fun ha => ?_⟩
    · rw [hflags', Side.done_start, hdone]
    · rw [hflags', hw.closed]
    · rw [hflags']
    -- neither has ended yet
    · rw [hflags', Side.done_start, hother] at h
      exact nomatch h
    · exact awaits_of_none fun e he => (hevents e he _).2
    · exact ⟨_, horigin ha x, Direction.Origin.carries_originAt _⟩
  have hup := hrelays .up hw.mainDone hw.peerDone
  have hdown : T.Relays .down [] [] ((w.call f).start T.peer) := by
    have h := hrelays .down hw.peerDone hw.mainDone
    rwa [Direction.originAt, World.start_mem, World.call_mem, hleft, if_pos rfl] at h
  refine wp_bind (wp_member fun _ => ⟨hw.toQuiet.guar hquiet (List.prefix_append _ _), ?_⟩)
  refine wp_spawn fun _ => ⟨?_, ⟨fun he => absurd he T.main_ne_peer.symm, fun _ => hdown⟩,
    fun w₁ hl => ?_⟩
  · refine guar_task (x := .up) ⟨List.prefix_append _ _, fun hs => absurd hs hquiet.started,
      fun _ _ _ _ => awaits_of_none fun e he => (hevents e he _).1, by simp,
      fun hs => absurd hs hquiet.started, fun hr => absurd hr.started hquiet.started⟩
  · -- from then on the peer runs as well
    have hkeeps : T.Relays .up ((T.dir .up).originAt (w.call f)).lead [] w₁ ∧
        (T.dir .up).state w₁.mem = (T.dir .up).state (f w.mem).1 ∧
        (T.dir .up).left w₁.mem = (T.dir .up).left (f w.mem).1 ∧
        (T.about w₁.mem ↔ T.about (f w.mem).1) := by
      induction hl with
      | refl => exact ⟨hup, rfl, rfl, .rfl⟩
      | tail _ hr ih =>
          have hg := (rely_task (x := .up) hr).grants (by simp)
          exact ⟨hg.relays ih.1, hg.leaves.state.trans ih.2.1, hg.leaves.left.trans ih.2.2.1,
            hg.about.trans ih.2.2.2⟩
    exact hkeeps

/-! ### The loops -/

section Loops

variable {dst src : NetStream K.Fd} {A : (T.dir x).State → Prop}

/-- What the other coroutine keeps of a relay and of its state. -/
theorem Relays.stays {O : NetOp K.Fd → Prop} {B : World K.object → Prop} (raw : List Bytes)
    (pending : Bytes) (hO : ∀ o, O o → o.Reads (T.dir x).src → raw = [] ∧ pending = [])
    (hB : ∀ w w', B w → T.Grants x w w' → B w') :
    Stays T.contract (T.task x) O fun w => T.Relays x raw pending w ∧ B w where
  rely w w' hw hr :=
    have hg := (rely_task hr).grants fun _ => hw.1.started
    ⟨hg.relays hw.1, hB w w' hw.2 hg⟩
  parked o w ho hw := by
    refine parked_task ⟨hw.1.settled, fun _ => hw.1.started, .inl hw.1.started⟩ ?_
    intro o' heq hreads _ ha
    obtain rfl := Sum.inl_injective heq
    obtain ⟨rfl, rfl⟩ := hO o ho hreads
    exact hw.1.carries ha

theorem state_grants (w w' : World K.object) (hw : A ((T.dir x).state w.mem))
    (hg : T.Grants x w w') : A ((T.dir x).state w'.mem) := by
  rwa [hg.leaves.state]

theorem Relays.wp_read (hsrc : src.fd = (T.dir x).src) (n : Nat) (hw : T.Relays x [] [] w)
    (hA : A ((T.dir x).state w.mem)) :
    wp T.contract (T.task x) (src.read n) (Returns fun rr w' =>
      if rr.eof then T.Relays x [] [] w' ∧ (T.dir x).Over w'.trace
      else if rr.error then T.Relays x [] [] w' ∧ (T.dir x).Over w'.trace
      else T.Relays x [rr.data] [] w' ∧ A ((T.dir x).state w'.mem)) w := by
  refine src.wp_read n (Relays.stays [] []
    (B := fun w => A ((T.dir x).state w.mem)) (fun _ _ _ => ⟨rfl, rfl⟩) state_grants) ⟨hw, hA⟩ ?_
  intro w e rr ⟨hw, hA⟩ he _ _
  rw [hsrc] at he
  obtain ⟨hg, hnext⟩ := hw.read he
  refine ⟨hg, ?_⟩
  rw [returns_ok]
  cases heof : rr.eof with
  | true =>
      rw [if_neg (by simp [rr.ok_eq, heof])] at hnext
      exact ⟨hnext, Direction.over_eof he heof⟩
  | false =>
      cases herr : rr.error with
      | true =>
          rw [if_neg (by simp [rr.ok_eq, herr])] at hnext
          exact ⟨hnext, .inr (Direction.failed_read he herr)⟩
      | false =>
          rw [if_pos (by simp [rr.ok_eq, heof, herr])] at hnext
          exact ⟨hnext, hA⟩

theorem Relays.wp_shutdownWrite (hdst : dst.fd = (T.dir x).dst) (hw : T.Relays x [] [] w)
    (hover : (T.dir x).Over w.trace) :
    wp T.contract (T.task x) dst.shutdownWrite (Returns fun _ => T.Ending x) w := by
  refine dst.wp_shutdownWrite (Relays.stays [] []
    (B := fun w => (T.dir x).Over w.trace) (fun _ _ _ => ⟨rfl, rfl⟩)
    fun _ _ hover hg => hg.over hover) ⟨hw, hover⟩ ?_
  intro w o r _ ⟨hw, hover⟩ ho _
  exact hw.shut hover (hdst ▸ ho) r

theorem Relays.wrote {out rest : Bytes} {failed : Bool} (hw : T.Relays x [] (out ++ rest) w)
    (hA : A ((T.dir x).state w.mem))
    (he : IsWrite (T.dir x).dst out failed e) :
    T.contract.guar (T.task x) w (w.push e) ∧
      if failed then T.Relays x [] [] (w.push e) ∧ A ((T.dir x).state w.mem) ∧
        (T.dir x).Failed (w.push e).trace
      else T.Relays x [] rest (w.push e) ∧ A ((T.dir x).state w.mem) := by
  obtain ⟨hg, hnext⟩ := hw.write he
  refine ⟨hg, ?_⟩
  cases failed with
  | true => exact ⟨hnext, hA, Direction.failed_write he⟩
  | false => exact ⟨hnext, hA⟩

/-- A write that fails ends the relay. -/
theorem Relays.wp_writeNonempty (hdst : dst.fd = (T.dir x).dst) {data : Bytes}
    (hw : T.Relays x [] data w) (hA : A ((T.dir x).state w.mem)) :
    wp T.contract (T.task x) (dst.writeNonempty data) (Returns fun written w' =>
      if written then T.Relays x [] [] w' ∧ A ((T.dir x).state w'.mem) else T.Ending x w') w := by
  refine wp_returns (dst.wp_writeNonempty
    (P := fun rest w => T.Relays x [] rest w ∧ A ((T.dir x).state w.mem))
    (F := fun w => T.Relays x [] [] w ∧ A ((T.dir x).state w.mem) ∧ (T.dir x).Failed w.trace)
    (fun rest => Relays.stays [] rest (fun _ ho hreads => absurd ho hreads.not_writes) state_grants)
    (fun w e out rest failed hw he _ => hw.1.wrote hw.2 (hdst ▸ he)) ⟨hw, hA⟩) ?_
  intro written w' hw'
  cases written with
  | true =>
      rcases hw' with hw' | hw'
      · exact hw'
      · exact ⟨hw'.1, hw'.2.1⟩
  | false => exact hw'.1.fails hw'.2.2

/-- The same of data that is not empty. -/
theorem Relays.wp_writeFull (hdst : dst.fd = (T.dir x).dst) {data : Bytes} (hdata : data ≠ [])
    (hw : T.Relays x [] data w) (hA : A ((T.dir x).state w.mem)) :
    wp T.contract (T.task x) (dst.writeFull data) (Returns fun n w' =>
      if n ≤ 0 then T.Ending x w' else T.Relays x [] [] w' ∧ A ((T.dir x).state w'.mem)) w := by
  refine wp_returns (dst.wp_writeFull
    (P := fun rest w => T.Relays x [] rest w ∧ A ((T.dir x).state w.mem))
    (F := fun w => T.Relays x [] [] w ∧ A ((T.dir x).state w.mem) ∧ (T.dir x).Failed w.trace)
    (fun rest => Relays.stays [] rest (fun _ ho hreads => absurd ho hreads.not_writes) state_grants)
    (fun w e out rest failed hw he _ => hw.1.wrote hw.2 (hdst ▸ he)) hdata ⟨hw, hA⟩) ?_
  rintro n w' (⟨hpos, hw' | hw'⟩ | ⟨hn, hw'⟩)
  · rw [returns_ok, if_neg (by omega)]
    exact hw'
  · rw [returns_ok, if_neg (by omega)]
    exact ⟨hw'.1, hw'.2.1⟩
  · rw [returns_ok, if_pos hn]
    exact hw'.1.fails hw'.2.2

/-- **`copyStream` delivers what it reads and ends when its direction is over**, and not before. -/
theorem Relays.wp_copyStream {stop : K.Mem → Bool} (hstop : ∀ s, stop s = (T.flags s).closed)
    (hdst : dst.fd = (T.dir x).dst) (hsrc : src.fd = (T.dir x).src) (hw : T.Relays x [] [] w)
    (hcopies : (T.dir x).Copies ((T.dir x).state w.mem)) :
    wp T.contract (T.task x) (copyStream dst src stop) (Returns fun _ => T.Ending x) w := by
  refine Cppvless.wp_copyStream
    (P := fun data w => T.Relays x [] data w ∧ (T.dir x).Copies ((T.dir x).state w.mem))
    (E := fun w => T.Relays x [] [] w ∧ (T.dir x).Over w.trace)
    (R := fun w => T.Relays x [] [] w ∧ (T.dir x).Over w.trace) ?_ ?_
    (fun w hw => Relays.wp_shutdownWrite hdst hw.1 hw.2)
    (fun w hw => Relays.wp_shutdownWrite hdst hw.1 hw.2) ?_ ⟨hw, hcopies⟩
  · intro w hw hs
    rw [hstop, hw.1.closed] at hs
    exact nomatch hs
  · intro w hw
    refine wp_returns (Relays.wp_read hsrc _ hw.1 hw.2) fun rr w' hr => ?_
    show if rr.eof = true then _ else if rr.error = true then _ else _
    split
    · next heof => rwa [if_pos heof] at hr
    · next heof =>
        rw [if_neg heof] at hr
        split
        · next herr => rwa [if_pos herr] at hr
        · next herr =>
            rw [if_neg herr] at hr
            exact ⟨hr.1.copy hr.2, hr.2⟩
  · intro data w hdata hw
    exact Relays.wp_writeFull hdst hdata hw.1 hw.2

/-- So do the loops that change the data, if every change is one that the direction knows. -/
theorem Relays.wp_relayTransformed {stop : K.Mem → Bool}
    (hstop : ∀ s, stop s = (T.flags s).closed) (hdst : dst.fd = (T.dir x).dst)
    (hsrc : src.fd = (T.dir x).src) {transform : Bytes → K.Prog (Option Bytes)}
    {direct : K.Mem → Bool}
    (htransform : ∀ data w, T.Relays x [data] [] w → A ((T.dir x).state w.mem) →
      wp T.contract (T.task x) (transform data) (Returns fun out w' =>
        ∃ data', out = some data' ∧ T.Relays x [] data' w' ∧ A ((T.dir x).state w'.mem)) w)
    (hdirect : ∀ s, A ((T.dir x).state s) → direct s = true →
      (T.dir x).Copies ((T.dir x).state s))
    (hw : T.Relays x [] [] w) (hA : A ((T.dir x).state w.mem)) :
    wp T.contract (T.task x) (relayTransformed dst src stop transform direct)
      (Returns fun _ => T.Ending x) w := by
  refine Cppvless.wp_relayTransformed
    (P := fun data w => T.Relays x [] data w ∧ A ((T.dir x).state w.mem))
    (D := fun data w => T.Relays x [data] [] w ∧ A ((T.dir x).state w.mem))
    (E := fun w => T.Relays x [] [] w ∧ (T.dir x).Over w.trace)
    (R := fun w => T.Relays x [] [] w ∧ (T.dir x).Over w.trace) ?_
    (fun w hw => Relays.wp_read hsrc _ hw.1 hw.2)
    (fun w hw => Relays.wp_shutdownWrite hdst hw.1 hw.2)
    (fun w hw => Relays.wp_shutdownWrite hdst hw.1 hw.2) ?_ ?_ ?_ ⟨hw, hA⟩
  · intro w hw hs
    rw [hstop, hw.1.closed] at hs
    exact nomatch hs
  · intro data w _ hw
    refine wp_returns (htransform data w hw.1 hw.2) ?_
    rintro _ w' ⟨out, rfl, hrelays⟩
    refine ⟨fun out' hout => ?_, by simp, by simp⟩
    obtain rfl := Option.some.inj (Except.ok.inj hout)
    exact hrelays
  · intro data w hw
    refine wp_returns (Relays.wp_writeNonempty hdst hw.1 hw.2) fun written w' hw' => ?_
    show if written = true then _ else _
    cases written with
    | true => exact hw'
    | false => exact hw'
  · intro w hw hd
    exact Relays.wp_copyStream hstop hdst hsrc hw.1 (hdirect w.mem hw.2 hd)

end Loops

/-- A session of another kind is not what this is about, and stays so. -/
theorem frame_idle (x : Side) : Frame T.contract (T.task x) (T.Own x) fun w =>
    T.Runs x w ∧ ¬ T.about w.mem where
  rely _ _ hw hr :=
    have hg := (rely_task hr).grants fun _ => hw.1.started
    ⟨hg.runs hw.1, fun ha => hw.2 (hg.about.1 ha)⟩
  parked _ _ _ _ hw :=
    parked_task ⟨fun ha => absurd ha hw.2, fun _ => hw.1.started, .inl hw.1.started⟩
      fun _ _ _ _ ha => absurd ha hw.2
  member f w hf hw _ :=
    have h : T.Steps x w (w.call f) := .call hf
    ⟨guar_task (h.guar hw.1.started), h.runs hw.1, fun ha => hw.2 (h.about.1 ha)⟩
  io o r w ho hw _ :=
    have h : T.Steps x w (w.answer o r) := .answer (ho r)
    ⟨guar_task (h.guar hw.1.started), h.runs hw.1, fun ha => hw.2 (h.about.1 ha)⟩
  spawn _ _ hu := hu.elim

theorem Runs.ending (hw : T.Runs x w) (habout : ¬ T.about w.mem) : T.Ending x w :=
  ⟨hw.flag, hw.armed, hw.started, hw.marked, fun ha => absurd ha habout,
    fun ha => absurd ha habout, fun ha => absurd ha habout⟩

/-! ### Exactly then the pattern keeps the promise -/

/-- **A two-way session keeps half-close if the directions overlap at their ends, and only then**: with the
    event loop in control, an end that did not overlap has cut off a source. -/
theorem halfCloses_iff [DecidableEq K.object.Task] {body : K.Task → K.Prog Unit}
    {p : Pool K.object}
    (hmain : wp T.contract T.main (body T.main) (fun _ => T.contract.post T.main) ⟨T.init, []⟩)
    (hpeer : ∀ w, T.Relays .down [] [] w →
      wp T.contract T.peer (body T.peer) (fun _ => T.contract.post T.peer) w)
    (hp : Reachable (O := K.object) body T.main T.init p) (habout : T.about p.world.mem) :
    ((∀ x, T.Overlaps x p.world.trace) → T.HalfCloses p) ∧
      (p.stack = [] → T.HalfCloses p → ∀ x, T.Overlaps x p.world.trace) := by
  have hbody : ∀ t w, T.contract.pre t w → T.contract.env w.trace →
      wp T.contract t (body t) (fun _ => T.contract.post t) w := by
    intro t w hpre _
    obtain ⟨x, rfl⟩ := task_cases (T := T) t
    cases x with
    | up =>
        obtain rfl := hpre.1 rfl
        exact hmain
    | down => exact hpeer w (hpre.2 rfl)
  have hpre : T.contract.pre T.main ⟨T.init, []⟩ :=
    ⟨fun _ => rfl, fun he => absurd he T.main_ne_peer⟩
  have hsound : Sound T.contract p := T.contract.sound stable hbody hpre hp trivial
  have hspared : T.Spared p.world :=
    T.contract.invariant stable hbody hpre T.Spared (fun _ _ _ => eachStep_nil)
      (fun t w w' hg _ hw => by
        obtain ⟨x, rfl⟩ := task_cases (T := T) t
        exact (hg x rfl).spared hw) hp trivial
  refine ⟨fun hoverlaps => ⟨hspared habout hoverlaps, fun x hs hfin => ?_, fun x hs hrests => ?_⟩,
    fun hstack hcloses => ?_⟩
  · exact ((hsound.post hfin x rfl).2 hs habout).1
  · rcases hrests with hfin | ⟨o, hawaits, hreads⟩
    · exact ((hsound.post hfin x rfl).2 hs habout).2
    · obtain ⟨k, hframe⟩ := Pool.frames_of_awaits hawaits
      exact (hsound.parked hframe hreads.suspends x rfl).2 o rfl hreads hs habout
  · -- where a coroutine rests, it has told of its own direction
    have hrests : ∀ x, p.frames (T.task x) ≠ none → T.Rests x p.world := by
      intro x hframe
      rcases hsound.suspended_or_finished hstack hframe with ⟨-, o, k, hframe, hsuspends⟩ | hfin
      · exact (hsound.parked hframe hsuspends x rfl).1
      · exact (hsound.post hfin x rfl).1
    have hsettled : ∀ x, T.Settled x p.world → T.Overlaps x p.world.trace := fun x h =>
      (h habout).resolve_right fun hcut => hcut hcloses.spares
    have hup := hrests .up ((frames_ne_none_iff hp T.main).2 (.inl rfl))
    intro x
    cases x with
    | up => exact hsettled .up hup.settled
    | down =>
        rcases hup.other with hs | hdown
        · exact hsettled .down (hrests .down ((frames_ne_none_iff hp T.peer).2 (.inr hs))).settled
        · exact hsettled .down hdown

end TwoWay

end Cppvless
