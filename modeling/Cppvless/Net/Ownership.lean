import Cppvless.Coroutine.Sole
import Cppvless.Net.Io

set_option autoImplicit false

/-! # Who has to close a descriptor

What a connection does with its descriptors, as a history. A descriptor is held from when it was opened
until it is closed, and only what is held may be closed or left to another object. -/

namespace Cppvless

open Coroutine

inductive FdEvent (Fd : Type)
  | opened (fd : Fd)
  | closed (fd : Fd)
  /-- left to another object, which closes it -/
  | handed (fd : Fd)
  deriving DecidableEq

namespace FdEvent

variable {Fd : Type} {l l' es es' : List (FdEvent Fd)} {fd : Fd}

/-- No descriptor is opened twice under one name. -/
def Held (l : List (FdEvent Fd)) (fd : Fd) : Prop := .opened fd ∈ l ∧ .closed fd ∉ l

/-- What an event needs. -/
def Allowed (l : List (FdEvent Fd)) : FdEvent Fd → Prop
  | .opened _ => True
  | .closed fd => Held l fd
  | .handed fd => Held l fd

/-- After the history `l` all goes well for a while. -/
def Valid : List (FdEvent Fd) → List (FdEvent Fd) → Prop
  | _, [] => True
  | l, e :: es => e.Allowed l ∧ Valid (l ++ [e]) es

@[simp] theorem valid_nil (l : List (FdEvent Fd)) : Valid l [] := trivial

theorem valid_append : Valid l (es ++ es') ↔ Valid l es ∧ Valid (l ++ es) es' := by
  induction es generalizing l with
  | nil => simp
  | cons e es ih => simp [Valid, ih, and_assoc]

def map {Fd' : Type} (f : Fd → Fd') : FdEvent Fd → FdEvent Fd'
  | .opened fd => .opened (f fd)
  | .closed fd => .closed (f fd)
  | .handed fd => .handed (f fd)

theorem valid_iff : Valid l es ↔ ∀ es₁ e es₂, es = es₁ ++ e :: es₂ → e.Allowed (l ++ es₁) := by
  constructor
  · rintro h es₁ e es₂ rfl
    exact (valid_append.1 h).2.1
  · intro h
    induction es generalizing l with
    | nil => trivial
    | cons e es ih =>
        refine ⟨by simpa using h [] e es rfl, ih fun es₁ e' es₂ hes => ?_⟩
        have hlater := h (e :: es₁) e' es₂ (by rw [hes]; rfl)
        rwa [List.append_assoc]

theorem opened_mem_map {Fd' : Type} {f : Fd → Fd'} {x : Fd'} :
    .opened x ∈ l.map (map f) ↔ ∃ fd, f fd = x ∧ .opened fd ∈ l := by
  constructor
  · intro h
    obtain ⟨e, he, hx⟩ := List.mem_map.1 h
    match e, he, hx with
    | .opened fd, he, rfl => exact ⟨fd, rfl, he⟩
  · rintro ⟨fd, rfl, h⟩
    exact List.mem_map_of_mem h

theorem closed_mem_map {Fd' : Type} {f : Fd → Fd'} {x : Fd'} :
    .closed x ∈ l.map (map f) ↔ ∃ fd, f fd = x ∧ .closed fd ∈ l := by
  constructor
  · intro h
    obtain ⟨e, he, hx⟩ := List.mem_map.1 h
    match e, he, hx with
    | .closed fd, he, rfl => exact ⟨fd, rfl, he⟩
  · rintro ⟨fd, rfl, h⟩
    exact List.mem_map_of_mem h

def isHanded : FdEvent Fd → Bool
  | .handed _ => true
  | _ => false

theorem held_filter : Held (l.filter fun e => !e.isHanded) fd ↔ Held l fd := by
  simp [Held, isHanded]

theorem Valid.filter (h : Valid l es) :
    Valid (l.filter fun e => !e.isHanded) (es.filter fun e => !e.isHanded) := by
  induction es generalizing l with
  | nil => trivial
  | cons e es ih =>
      have hrest := ih h.2
      rw [List.filter_append] at hrest
      match e, h.1 with
      | .opened _, _ => exact ⟨trivial, hrest⟩
      | .closed _, hheld => exact ⟨held_filter.2 hheld, hrest⟩
      | .handed _, _ => simpa [isHanded] using hrest

end FdEvent

open FdEvent

/-- What a connection does after it was given the client descriptor `client`: it keeps that, and holds the
    descriptor in its member and what another object closes for it. -/
structure Custody {Fd : Type} (client : Fd) (l : List (FdEvent Fd)) (member : Option Fd) : Prop where
  valid : Valid [.opened client] l
  kept : .opened client ∉ l ∧ .closed client ∉ l
  member : ∀ fd, member = some fd → fd ≠ client ∧ .handed fd ∉ l ∧ Held l fd
  handed : ∀ fd, .handed fd ∈ l → Held l fd

section Custody

variable {Fd : Type} {client fd : Fd}

theorem custody_start : Custody client [] none where
  valid := trivial
  kept := by simp
  member := nofun
  handed := by simp

theorem custody_opened {member : Option Fd} (h : fd ≠ client) (hmember : ∀ x, member = some x → x = fd) :
    Custody client [.opened fd] member where
  valid := ⟨trivial, trivial⟩
  kept := by simp [h.symm]
  member x hx := by simp [Held, hmember x hx, h]
  handed := by simp

theorem custody_closed (h : fd ≠ client) : Custody client [.opened fd, .closed fd] none where
  valid := by simp [Valid, Allowed, Held]
  kept := by simp [h.symm]
  member := nofun
  handed := by simp

theorem custody_handed (h : fd ≠ client) : Custody client [.opened fd, .handed fd] none where
  valid := by simp [Valid, Allowed, Held]
  kept := by simp [h.symm]
  member := nofun
  handed := by simp [Held]

variable {l es : List (FdEvent Fd)} {member : Option Fd}

theorem held_cons (h : Held l fd) : Held (.opened client :: l) fd :=
  ⟨List.mem_cons_of_mem _ h.1, by simpa using h.2⟩

theorem Custody.holds (h : Custody client l member) : Held (.opened client :: l) client :=
  ⟨List.mem_cons_self, by simpa using h.kept.2⟩

/-- As far as it is the connection that closes. -/
theorem Custody.filter (h : Custody client l member) : Custody client (l.filter fun e => !e.isHanded) member where
  valid := h.valid.filter
  kept := ⟨fun hmem => h.kept.1 (List.mem_filter.1 hmem).1, fun hmem => h.kept.2 (List.mem_filter.1 hmem).1⟩
  member fd hfd := ⟨(h.member fd hfd).1, by simp [isHanded], held_filter.2 (h.member fd hfd).2.2⟩
  handed fd := by simp [isHanded]

/-- What comes later. -/
theorem Custody.later (h : Custody client (l ++ es) member) :
    Valid (.opened client :: l) es ∧ .opened client ∉ es :=
  ⟨(valid_append.1 h.valid).2, fun hmem => h.kept.1 (List.mem_append_right _ hmem)⟩

/-- The destructor closes the descriptor in the member, and the client descriptor. -/
theorem Custody.doClose (h : Custody client l member) :
    Valid (.opened client :: l) ((member.toList ++ [client]).map .closed) := by
  cases hmember : member with
  | none => exact ⟨h.holds, trivial⟩
  | some fd =>
      obtain ⟨hne, -, hheld⟩ := h.member fd hmember
      refine ⟨held_cons hheld, ⟨List.mem_append_left _ h.holds.1, fun hmem => ?_⟩, trivial⟩
      rcases List.mem_append.1 hmem with hbefore | hlast
      · exact h.holds.2 hbefore
      · exact hne (by simpa using (List.mem_singleton.1 hlast).symm)

end Custody

/-- The descriptors a connection opens itself, and their closing. -/
def fdEvent {K : Kind} : Event K.object → Option (FdEvent K.Fd)
  | .io (.inl (.socket fd _ _)) success => if (success : Bool) then some (.opened fd) else none
  | .sys (.close fd) => some (.closed fd)
  | _ => none

/-- The main coroutine of a connection is the one that deals with descriptors. -/
def Kind.ownership (K : Kind) (main : K.Task) (client : K.Fd) (member : K.Mem → Option K.Fd)
    (see : Event K.object → Option (FdEvent K.Fd)) (hspawned : ∀ t, see (.spawned t) = none) :
    Sole K.object (FdEvent K.Fd) (Option K.Fd) where
  main := main
  see := see
  part := member
  start := none
  Good := Custody client
  unseen_spawned := hspawned

end Cppvless
