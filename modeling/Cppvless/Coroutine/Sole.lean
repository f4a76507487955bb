import Cppvless.Coroutine.Uses

set_option autoImplicit false

/-! # What one coroutine alone does

Of the events of an object some are made by its main coroutine only, as are some of its members. What
holds of these events and members then only depends on the main coroutine (`Sole.good`). -/

namespace Coroutine

variable {O : Object} {E M α β : Type}

/-- The events and members of one coroutine, and what is to hold of them. -/
structure Sole (O : Object) (E M : Type) where
  main : O.Task
  see : Event O → Option E
  part : O.Mem → M
  start : M
  Good : List E → M → Prop
  unseen_spawned : ∀ t, see (.spawned t) = none

namespace Sole

variable (S : Sole O E M)

def seen (tr : List (Event O)) : List E := tr.filterMap S.see

/-- What all the others do, and the main coroutine most of the time. -/
def Quiet : ObjOp O → Prop
  | .get => True
  | .member f => ∀ m, S.part (f m).1 = S.part m ∧ ∀ c ∈ (f m).2, S.see (.sys c) = none
  | .io o => ∀ r, S.see (.io o r) = none
  | .spawn u => u ≠ S.main

/-- Nothing the coroutine knows of has happened since it started. -/
structure At (l : List E) (x : M) (w : World O) : Prop where
  seen : S.seen w.trace = l
  part : S.part w.mem = x

def contract : Contract O where
  env _ := True
  guar t w w' :=
    (t = S.main → S.Good (S.seen w'.trace) (S.part w'.mem)) ∧
      (t ≠ S.main → S.seen w'.trace = S.seen w.trace ∧ S.part w'.mem = S.part w.mem)
  parked _ _ _ := True
  pre t w := t = S.main → S.At [] S.start w
  post _ _ := True

theorem stable : S.contract.Stable :=
  ⟨fun _ _ _ => trivial, fun _ _ _ _ _ _ => trivial, fun _ _ _ _ _ => trivial⟩

variable {S} {t : O.Task} {w w' : World O} {l : List E} {x : M}

theorem At.good (hw : S.At l x w) (h : S.Good l x) : S.Good (S.seen w.trace) (S.part w.mem) := by
  rwa [hw.seen, hw.part]

theorem guar_main (h : S.Good (S.seen w'.trace) (S.part w'.mem)) : S.contract.guar S.main w w' :=
  ⟨fun _ => h, fun hne => absurd rfl hne⟩

theorem seen_push {tr : List (Event O)} {e : Event O} (h : S.see e = none) :
    S.seen (tr ++ [e]) = S.seen tr := by
  simp [seen, h]

theorem At.call {f : O.Mem → O.Mem × List O.Sys} (hw : S.At l x w) (hf : S.Quiet (.member f)) :
    S.At l x (w.call f) := by
  refine ⟨?_, (hf w.mem).1.trans hw.part⟩
  have hnone : ((f w.mem).2.map Event.sys).filterMap S.see = [] := by
    refine List.filterMap_eq_nil_iff.2 fun e he => ?_
    obtain ⟨c, hc, rfl⟩ := List.mem_map.1 he
    exact (hf w.mem).2 c hc
  show (w.trace ++ (f w.mem).2.map Event.sys).filterMap S.see = l
  rw [List.filterMap_append, hnone, List.append_nil]
  exact hw.seen

theorem At.answer {o : O.Io.Op} (hw : S.At l x w) (ho : S.Quiet (.io o)) (r : O.Io.Res o) :
    S.At l x (w.answer o r) :=
  ⟨(seen_push (ho r)).trans hw.seen, hw.part⟩

theorem At.start (hw : S.At l x w) (u : O.Task) : S.At l x (w.start u) :=
  ⟨(seen_push (S.unseen_spawned u)).trans hw.seen, hw.part⟩

theorem frame_main (hgood : S.Good l x) : Frame S.contract S.main S.Quiet (S.At l x) where
  rely w w' hw hr := by
    obtain ⟨u, hu, hguar, _⟩ := hr
    obtain ⟨hseen, hpart⟩ := hguar.2 hu
    exact ⟨hseen.trans hw.seen, hpart.trans hw.part⟩
  parked _ _ _ _ _ := trivial
  member _ _ hf hw _ := ⟨guar_main ((hw.call hf).good hgood), hw.call hf⟩
  io _ r _ ho hw _ := ⟨guar_main ((hw.answer ho r).good hgood), hw.answer ho r⟩
  spawn u _ hu hw _ := ⟨guar_main ((hw.start u).good hgood), fun h => absurd h hu, hw.start u⟩

theorem frame_other (ht : t ≠ S.main) : Frame S.contract t S.Quiet fun _ => True := by
  have hguar : ∀ {w w' : World O}, S.At (S.seen w.trace) (S.part w.mem) w' → S.contract.guar t w w' := by
    intro w w' hw'
    exact ⟨fun h => absurd h ht, fun _ => ⟨hw'.seen, hw'.part⟩⟩
  have hnow : ∀ w : World O, S.At (S.seen w.trace) (S.part w.mem) w := fun _ => ⟨rfl, rfl⟩
  exact {
    rely := fun _ _ _ _ => trivial
    parked := fun _ _ _ _ _ => trivial
    member := fun _ w hf _ _ => ⟨hguar ((hnow w).call hf), trivial⟩
    io := fun _ r w ho _ _ => ⟨hguar ((hnow w).answer ho r), trivial⟩
    spawn := fun u w hu _ _ => ⟨hguar ((hnow w).start u), fun h => absurd h hu, trivial⟩ }

/-! ## Rules for the main coroutine -/

/-- The postcondition of what comes last. -/
def Kept (S : Sole O E M) (w : World O) : Prop := S.Good (S.seen w.trace) (S.part w.mem)

theorem wp_quiet {c : O.Prog α} (hc : Coro.Uses (S := O.sig) S.Quiet c) (hgood : S.Good l x) (hw : S.At l x w) :
    wp S.contract S.main c (fun _ => S.At l x) w :=
  wp_of_uses (frame_main hgood) hc hw

theorem wp_rest {c : O.Prog α} (hc : Coro.Uses (S := O.sig) S.Quiet c) (hw : S.Kept w) :
    wp S.contract S.main c (fun _ => S.Kept) w :=
  wp_mono (wp_quiet hc hw ⟨rfl, rfl⟩) fun _ _ h => h.good hw

/-- Something quiet before the rest. -/
theorem wp_quiet_then {c : O.Prog β} {f : β → O.Prog α} (hc : Coro.Uses (S := O.sig) S.Quiet c)
    (hgood : S.Good l x) (hw : S.At l x w)
    (hf : ∀ b w', S.At l x w' → wp S.contract S.main (f b) (fun _ => S.Kept) w') :
    wp S.contract S.main (c >>= f) (fun _ => S.Kept) w :=
  wp_seq (wp_quiet hc hgood hw) hf fun _ _ h => h.good hgood

/-- A member function that is not quiet. -/
theorem wp_step {f : O.Mem → O.Mem × List O.Sys} {Q : Except O.Exn Unit → World O → Prop} (l' : List E) (x' : M)
    (hw : S.At l x w) (hseen : (f w.mem).2.filterMap (fun c => S.see (.sys c)) = l')
    (hpart : S.part (f w.mem).1 = x') (hgood : S.Good (l ++ l') x')
    (hQ : ∀ w', S.At (l ++ l') x' w' → Q (.ok ()) w') : wp S.contract S.main (Prog.member f) Q w := by
  have hnext : S.At (l ++ l') x' (w.call f) := by
    refine ⟨?_, hpart⟩
    show (w.trace ++ (f w.mem).2.map Event.sys).filterMap S.see = l ++ l'
    rw [List.filterMap_append, List.filterMap_map]
    exact congrArg₂ _ hw.seen hseen
  exact wp_member fun _ => ⟨guar_main (hnext.good hgood), hQ _ hnext⟩

/-- An operation answered on the spot that is not quiet. -/
theorem wp_ask {o : O.Io.Op} {Q : Except O.Exn (O.Io.Res o) → World O → Prop} (hs : O.suspends o = false)
    (hw : S.At l x w) (hgood : ∀ r, S.Good (l ++ (S.see (.io o r)).toList) x)
    (hQ : ∀ r w', S.At (l ++ (S.see (.io o r)).toList) x w' → Q (.ok r) w') :
    wp S.contract S.main (Prog.io o) Q w := by
  refine wp_call hs fun r _ => ?_
  have hnext : S.At (l ++ (S.see (.io o r)).toList) x (w.answer o r) := by
    refine ⟨?_, hw.part⟩
    show (w.trace ++ [Event.io o r]).filterMap S.see = l ++ (S.see (.io o r)).toList
    rw [List.filterMap_append]
    have hlast : [Event.io o r].filterMap S.see = (S.see (.io o r)).toList := by
      cases h : S.see (.io o r) with
      | none => simp [h]
      | some e => simp [h]
    exact congrArg₂ _ hw.seen hlast
  exact ⟨guar_main (hnext.good (hgood r)), hQ r _ hnext⟩

/-- **What holds in all runs.** -/
theorem good [DecidableEq O.Task] {body : O.Task → O.Prog Unit} {mem : O.Mem} (hpart : S.part mem = S.start)
    (hstart : S.Good [] S.start)
    (hmain : ∀ w, S.At [] S.start w → wp S.contract S.main (body S.main) (fun _ => S.Kept) w)
    (hothers : ∀ t, t ≠ S.main → Coro.Uses (S := O.sig) S.Quiet (body t)) {p : Pool O}
    (hp : Reachable body S.main mem p) : S.Good (S.seen p.world.trace) (S.part p.world.mem) := by
  refine S.contract.invariant S.stable ?_ (fun _ => ⟨rfl, hpart⟩) S.Kept (At.good ⟨rfl, hpart⟩ hstart) ?_ hp trivial
  · intro t w hpre _
    by_cases ht : t = S.main
    · subst ht
      exact wp_mono (hmain w (hpre rfl)) fun _ _ _ => trivial
    · exact wp_mono (wp_of_uses (frame_other ht) (hothers t ht) trivial) fun _ _ _ => trivial
  · intro t w w' hguar _ hw
    by_cases ht : t = S.main
    · exact hguar.1 ht
    · obtain ⟨hseen, hpart⟩ := hguar.2 ht
      show S.Good _ _
      rw [hseen, hpart]
      exact hw

end Sole

end Coroutine
