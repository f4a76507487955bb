import Cppvless.Net.Stream
import Cppvless.Coroutine.Eval
import Cppvless.Coroutine.Reader

set_option autoImplicit false

/-! # Exact reads over a stream

`coro::UringBufferedStream` turns a stream into exact reads, keeping what a read delivers beyond
them. A protocol parser is a `Reader`: it knows of no stream and awaits exact reads only.
`Reader.over` runs it on a buffered stream.

Two facts connect the two. Against a source that delivers a byte string in arbitrary non-empty
pieces, a parser ends with what `Reader.run` says of the string, and what is left of the buffer and
the source is what `run` leaves (`eval_over`). Inside a connection, whatever the stream answers and
the other coroutines do, a strict parser has seen what it read, and the buffer holds less than the
last piece (`wp_over`). -/

namespace Cppvless

open Coroutine

/-- `coro::UringBufferedStream` without the stream: `consumed` bytes of `buffer` are used up. -/
structure UringBufferedStream where
  buffer : Bytes
  consumed : Nat
  consumed_le : consumed ≤ buffer.length

namespace UringBufferedStream

variable {S : Sig} {α : Type}

def empty : UringBufferedStream := ⟨[], 0, Nat.le_refl 0⟩

def available (bs : UringBufferedStream) : Nat := bs.buffer.length - bs.consumed

def consume (bs : UringBufferedStream) (n : Nat) : Except Exn (Bytes × UringBufferedStream) :=
  if h : bs.consumed + n ≤ bs.buffer.length then
    let result := (bs.buffer.drop bs.consumed).take n
    -- all consumed: the buffer is cleared
    if bs.consumed + n = bs.buffer.length then .ok (result, empty)
    else .ok (result, ⟨bs.buffer, bs.consumed + n, h⟩)
  else .error .outOfBounds

/-- `buffer_.insert(buffer_.end(), ..)` -/
def insert (bs : UringBufferedStream) (data : Bytes) : UringBufferedStream :=
  ⟨bs.buffer ++ data, bs.consumed, by
    have := bs.consumed_le
    simp only [List.length_append]
    omega⟩

/-- One round of the loop of `read`. -/
def readRound (src : Coro Exn S RecvResult) (need : Nat) (bs : UringBufferedStream) :
    Coro Exn S (UringBufferedStream ⊕ Bytes × UringBufferedStream) :=
  if bs.available < need then do
    let rr ← src
    if rr.error || rr.eof then
      if 0 < bs.available then do
        return .inr (← Coro.ofExcept (bs.consume bs.available))
      else
        return .inr ([], bs)
    else
      return .inl (bs.insert rr.data)
  else do
    return .inr (← Coro.ofExcept (bs.consume need))

/-- `UringBufferedStream::read` over the stream whose `read` is `src`. -/
def read (src : Coro Exn S RecvResult) (need : Nat) (bs : UringBufferedStream) :
    Coro Exn S (Bytes × UringBufferedStream) :=
  Coro.loop bs (readRound src need)

def drainRemaining (bs : UringBufferedStream) : Bytes × UringBufferedStream :=
  (bs.buffer.drop bs.consumed, ⟨bs.buffer, bs.buffer.length, Nat.le_refl _⟩)

/-- The bytes not consumed yet. -/
def unread (bs : UringBufferedStream) : Bytes := bs.buffer.drop bs.consumed

@[simp] theorem unread_empty : empty.unread = [] := rfl

@[simp] theorem available_eq (bs : UringBufferedStream) : bs.available = bs.unread.length := by
  simp [available, unread]

@[simp] theorem unread_insert (bs : UringBufferedStream) (data : Bytes) :
    (bs.insert data).unread = bs.unread ++ data := by
  simp [unread, insert, List.drop_append_of_le_length bs.consumed_le]

@[simp] theorem drainRemaining_fst (bs : UringBufferedStream) :
    bs.drainRemaining.1 = bs.unread := rfl

@[simp] theorem unread_drainRemaining (bs : UringBufferedStream) :
    bs.drainRemaining.2.unread = [] := by
  simp [drainRemaining, unread]

/-- Consuming what is there takes it off the front. -/
theorem consume_ok (bs : UringBufferedStream) {n : Nat} (h : n ≤ bs.unread.length) :
    ∃ bs', bs.consume n = .ok (bs.unread.take n, bs') ∧ bs'.unread = bs.unread.drop n := by
  have hle := bs.consumed_le
  have hn : bs.consumed + n ≤ bs.buffer.length := by
    simp only [unread, List.length_drop] at h
    omega
  by_cases hall : bs.consumed + n = bs.buffer.length
  · refine ⟨empty, ?_, ?_⟩
    · simp only [consume, dif_pos hn, if_pos hall, unread]
    · simp [unread, empty, hall]
  · refine ⟨⟨bs.buffer, bs.consumed + n, hn⟩, ?_, ?_⟩
    · simp only [consume, dif_pos hn, if_neg hall, unread]
    · simp [unread]

theorem readRound_enough (src : Coro Exn S RecvResult) (bs : UringBufferedStream) {need : Nat}
    (h : need ≤ bs.unread.length) :
    ∃ bs', readRound src need bs = pure (.inr (bs.unread.take need, bs')) ∧
      bs'.unread = bs.unread.drop need := by
  obtain ⟨bs', hcons, hrest⟩ := bs.consume_ok h
  refine ⟨bs', ?_, hrest⟩
  rw [readRound, available_eq, if_neg (Nat.not_lt.2 h), hcons]
  rfl

theorem readRound_short (src : Coro Exn S RecvResult) (bs : UringBufferedStream) {need : Nat}
    (h : bs.unread.length < need) :
    ∃ bs', bs'.unread = [] ∧ readRound src need bs = src >>= fun rr =>
      pure (if rr.ok then .inl (bs.insert rr.data) else .inr (bs.unread, bs')) := by
  have hround : ∀ r : Bytes × UringBufferedStream,
      (if 0 < bs.available then (do return .inr (← Coro.ofExcept (bs.consume bs.available)))
        else pure (.inr ([], bs)) : Coro Exn S (UringBufferedStream ⊕ Bytes × UringBufferedStream))
        = pure (.inr r) →
      readRound src need bs = src >>= fun rr =>
        pure (if rr.ok then .inl (bs.insert rr.data) else .inr r) := by
    intro r hr
    rw [readRound, available_eq, if_pos h]
    congr 1
    funext rr
    rw [← available_eq, hr, rr.ok_eq]
    cases rr.eof <;> cases rr.error <;> rfl
  by_cases hpos : 0 < bs.available
  · obtain ⟨bs', hcons, hrest⟩ := bs.consume_ok (Nat.le_of_eq bs.available_eq)
    refine ⟨bs', by simp [hrest], hround _ ?_⟩
    rw [if_pos hpos, hcons, available_eq, List.take_length]
    rfl
  · have hnil : bs.unread = [] := by
      rw [available_eq] at hpos
      exact List.eq_nil_of_length_eq_zero (by omega)
    refine ⟨bs, hnil, hround _ ?_⟩
    rw [if_neg hpos, hnil]

/-- Run a parser over a buffered stream. The parser's exception is returned and not thrown, since
    the buffered stream outlives it. -/
def parse (src : Coro Exn S RecvResult) :
    Reader Exn UInt8 α → UringBufferedStream → Coro Exn S (Except Exn α × UringBufferedStream)
  | .done r, bs => pure (r, bs)
  | .read n k, bs => do
      let (data, bs) ← bs.read src n
      parse src (k data) bs

end UringBufferedStream

/-! ## Against a source -/

/-- The awaited operation of a stream that is only read. -/
@[reducible] def readSig : Sig := ⟨Unit, fun _ => RecvResult⟩

/-- What a peer sends, in the pieces it arrives in, and how the stream ends. -/
structure Source where
  chunks : List { bs : Bytes // bs ≠ [] }
  ending : { rr : RecvResult // rr.ok = false }

namespace Source

def bytes (src : Source) : Bytes := src.chunks.flatMap Subtype.val

/-- One read. -/
def deliver (_ : readSig.Op) (src : Source) : RecvResult × Source :=
  match src.chunks with
  | [] => (src.ending.1, src)
  | c :: cs => (.ofBytes c.1, { src with chunks := cs })

def read : Coro Exn readSig RecvResult := Coro.await (S := readSig) ()

end Source

namespace UringBufferedStream

open Coro

variable {α : Type}

theorem eval_read_enough (src : Source) (bs : UringBufferedStream) {need : Nat}
    (h : need ≤ bs.unread.length) :
    ∃ bs', Eval Source.deliver (bs.read Source.read need) src (.ok (bs.unread.take need, bs')) src ∧
      bs'.unread = bs.unread.drop need := by
  obtain ⟨bs', hround, hrest⟩ := readRound_enough Source.read bs h
  refine ⟨bs', .loop_last ?_, hrest⟩
  rw [hround]
  exact .done _ _

/-- An exact read gets the next `need` bytes of what is buffered and still to come, or all of them
    if there are fewer, however they arrive. -/
theorem eval_read (need : Nat) (bs : UringBufferedStream) (src : Source) :
    ∃ data bs' src', Eval Source.deliver (bs.read Source.read need) src (.ok (data, bs')) src' ∧
      data = (bs.unread ++ src.bytes).take need ∧
      bs'.unread ++ src'.bytes = (bs.unread ++ src.bytes).drop need := by
  obtain ⟨chunks, ending⟩ := src
  induction chunks generalizing bs with
  | nil =>
      rcases Nat.lt_or_ge bs.unread.length need with hlt | hge
      · obtain ⟨bs', hrest, hround⟩ := readRound_short Source.read bs hlt
        refine ⟨bs.unread, bs', ⟨[], ending⟩, .loop_last ?_, ?_, ?_⟩
        · rw [hround]
          refine .bind (.await (S := readSig) () _) ?_
          simp only [Source.deliver, ending.2]
          exact .done _ _
        · simp [Source.bytes, List.take_of_length_le (Nat.le_of_lt hlt)]
        · simp [Source.bytes, hrest, Nat.le_of_lt hlt]
      · obtain ⟨bs', hev, hrest⟩ := eval_read_enough ⟨[], ending⟩ bs hge
        exact ⟨_, bs', _, hev, by simp [Source.bytes], by simp [Source.bytes, hrest]⟩
  | cons c cs ih =>
      rcases Nat.lt_or_ge bs.unread.length need with hlt | hge
      · obtain ⟨_, -, hround⟩ := readRound_short Source.read bs hlt
        obtain ⟨data, bs', src', hev, hdata, hrest⟩ := ih (bs.insert c.1)
        refine ⟨data, bs', src', .loop_next ?_ hev, ?_, ?_⟩
        · rw [hround]
          refine .bind (.await (S := readSig) () _) ?_
          have hok : (RecvResult.ofBytes c.1).ok = true := by
            simp [RecvResult.ok, RecvResult.ofBytes, List.length_pos_iff, c.2]
          simp only [Source.deliver, hok]
          exact .done _ _
        · simpa [Source.bytes] using hdata
        · simpa [Source.bytes] using hrest
      · obtain ⟨bs', hev, hrest⟩ := eval_read_enough ⟨c :: cs, ending⟩ bs hge
        refine ⟨_, bs', _, hev, ?_, ?_⟩
        · rw [List.take_append_of_le_length hge]
        · rw [hrest, List.drop_append_of_le_length hge]

/-- **A parser does not see how its input arrives**: what it ends with is what `Reader.run` says of
    the whole string, and what `run` leaves is still buffered or to come. -/
theorem eval_parse (p : Reader Exn UInt8 α) (bs : UringBufferedStream) (src : Source) :
    ∃ bs' src', Eval Source.deliver (parse Source.read p bs) src
        (.ok ((p.run (bs.unread ++ src.bytes)).1, bs')) src' ∧
      bs'.unread ++ src'.bytes = (p.run (bs.unread ++ src.bytes)).2 := by
  induction p generalizing bs src with
  | done r => exact ⟨bs, src, .done _ _, rfl⟩
  | read n k ih =>
      obtain ⟨data, bs₁, src₁, hread, hdata, hrest⟩ := eval_read n bs src
      subst hdata
      obtain ⟨bs', src', hev, hleft⟩ := ih _ bs₁ src₁
      rw [hrest] at hev hleft
      exact ⟨bs', src', .bind hread hev, hleft⟩

/-! ## Inside a connection -/

/-- `rest` is nothing, or the end of the last piece and not all of it. -/
def Within (chunks : List Bytes) (rest : Bytes) : Prop :=
  rest = [] ∨ ∃ front c, chunks = front ++ [c] ∧ rest.length < c.length

/-- If the pieces are ever cut at the end of `s`, nothing was read beyond it. -/
theorem Within.eq_nil {chunks front all : List Bytes} {s rest : Bytes} (h : Within chunks rest)
    (hchunks : chunks <+: all) (hfront : front <+: all) (hbytes : chunks.flatten = s ++ rest)
    (hs : front.flatten = s) : rest = [] := by
  have hmono : ∀ {l l' : List Bytes}, l <+: l' → l.flatten.length ≤ l'.flatten.length := by
    rintro l _ ⟨more, rfl⟩
    simp
  have hlength := congrArg List.length hbytes
  rw [List.length_append] at hlength
  rcases h with hnil | ⟨init, c, rfl, hlt⟩
  · exact hnil
  · rcases List.prefix_or_prefix_of_prefix hfront hchunks with hle | hle
    · rcases List.prefix_concat_iff.1 hle with heq | hle
      · rw [heq, hbytes] at hs
        exact List.append_right_eq_self.1 hs
      · -- the last piece would lie behind `s` as a whole
        have hfirst := hmono hle
        rw [hs] at hfirst
        simp only [List.flatten_append, List.flatten_cons, List.flatten_nil, List.append_nil,
          List.length_append] at hlength
        omega
    · have hall := hmono hle
      rw [hs] at hall
      exact List.eq_nil_of_length_eq_zero (by omega)

/-- And if no piece is empty, the pieces read are those up to the cut. -/
theorem Within.eq_cut {chunks front all : List Bytes} {s rest : Bytes} (h : Within chunks rest)
    (hchunks : chunks <+: all) (hfront : front <+: all) (hbytes : chunks.flatten = s ++ rest)
    (hs : front.flatten = s) (hne : ∀ c ∈ all, c ≠ []) : chunks = front ∧ rest = [] := by
  have hnil := h.eq_nil hchunks hfront hbytes hs
  rw [hnil, List.append_nil, ← hs] at hbytes
  -- what one has beyond the other are pieces without a byte
  have hmore : ∀ {l more : List Bytes}, l ++ more <+: all → (l ++ more).flatten = l.flatten →
      more = [] := by
    intro l more hall hflatten
    rw [List.flatten_append, List.append_right_eq_self, List.flatten_eq_nil_iff] at hflatten
    refine List.eq_nil_iff_forall_not_mem.2 fun c hc => ?_
    exact hne c (hall.subset (List.mem_append_right _ hc)) (hflatten c hc)
  refine ⟨?_, hnil⟩
  rcases List.prefix_or_prefix_of_prefix hchunks hfront with ⟨more, hle⟩ | ⟨more, hle⟩
  · subst hle
    rw [hmore hfront hbytes.symm, List.append_nil]
  · subst hle
    rw [hmore hchunks hbytes, List.append_nil]

section Wp

variable {K : Kind} {C : Contract K.object} {t : K.Task} {src : K.Prog RecvResult}
  {Φ Ψ : List Bytes → World K.object → Prop}

/-- `Φ` holds as long as the pieces read are `chunks`, `Ψ` once the stream has ended after them. -/
theorem wp_read
    (hsrc : ∀ chunks w, Φ chunks w → wp C t src (Returns fun rr w' =>
      if rr.ok then Φ (chunks ++ [rr.data]) w' else Ψ chunks w') w)
    (need : Nat) (bs : UringBufferedStream) {chunks : List Bytes} {w : World K.object}
    (hΦ : Φ chunks w) (hwithin : Within chunks bs.unread) :
    wp C t (bs.read src need) (Returns fun (data, bs') w' =>
      ∃ got, data ++ bs'.unread = bs.unread ++ got.flatten ∧ Within (chunks ++ got) bs'.unread ∧
        (data.length = need ∧ Φ (chunks ++ got) w' ∨
          data.length < need ∧ bs'.unread = [] ∧ Ψ (chunks ++ got) w')) w := by
  refine wp_loop (fun bs' w' => ∃ got, Φ (chunks ++ got) w' ∧
    bs'.unread = bs.unread ++ got.flatten ∧
    (got = [] ∨ ∃ front c, got = front ++ [c] ∧ bs'.unread.length < need + c.length))
    ⟨[], by simpa using hΦ, by simp, .inl rfl⟩ ?_
  rintro bs' w' ⟨got, hΦ', hunread, hlast⟩
  rcases Nat.lt_or_ge bs'.unread.length need with hlt | hge
  · obtain ⟨bs'', hnil, hround⟩ := readRound_short src bs' hlt
    rw [hround]
    refine wp_then (hsrc _ w' hΦ') ?_
    intro rr w'' hr
    by_cases hok : rr.ok = true
    · simp only [hok, if_true] at hr
      simp only [hok, if_true, wp_pure]
      refine ⟨got ++ [rr.data], by simpa using hr, by simp [hunread], .inr ⟨got, _, rfl, ?_⟩⟩
      simp only [unread_insert, List.length_append]
      omega
    · simp only [hok, Bool.false_eq_true, if_false] at hr
      simp only [hok, Bool.false_eq_true, if_false, wp_pure]
      exact ⟨got, by simp [hnil, hunread], .inl hnil, .inr ⟨hlt, hnil, hr⟩⟩
  · obtain ⟨bs'', hround, hrest⟩ := readRound_enough src bs' hge
    rw [hround]
    refine ⟨got, by rw [hrest, List.take_append_drop, hunread], ?_, .inl ⟨?_, hΦ'⟩⟩
    · rw [hrest]
      rcases hlast with rfl | ⟨front, c, rfl, hc⟩
      · have heq : bs'.unread = bs.unread := by simpa using hunread
        rcases hwithin with hnil | ⟨front, c, rfl, hc⟩
        · exact .inl (by simp [heq, hnil])
        · refine .inr ⟨front, c, by simp, ?_⟩
          rw [heq, List.length_drop]
          omega
      · rcases Nat.eq_zero_or_pos (bs'.unread.drop need).length with hz | hpos
        · exact .inl (List.eq_nil_of_length_eq_zero hz)
        · refine .inr ⟨chunks ++ front, c, by simp, ?_⟩
          rw [List.length_drop] at hpos ⊢
          omega
    · rw [List.length_take]
      omega

/-- **A parser on a connection's stream** has seen what was read: its result is that of `run` on it,
    and what `run` leaves is buffered. The stream had not ended, or the parser has noticed. -/
theorem wp_parse_of
    (hsrc : ∀ chunks w, Φ chunks w → wp C t src (Returns fun rr w' =>
      if rr.ok then Φ (chunks ++ [rr.data]) w' else Ψ chunks w') w)
    {α : Type} {p : Reader Exn UInt8 α} {F : Except Exn α → Prop} (hp : p.StopsShort F)
    (bs : UringBufferedStream) {chunks : List Bytes} {w : World K.object} (hΦ : Φ chunks w)
    (hwithin : Within chunks bs.unread) :
    wp C t (parse src p bs) (Returns fun (res, bs') w' =>
      ∃ got, p.run (bs.unread ++ got.flatten) = (res, bs'.unread) ∧
        Within (chunks ++ got) bs'.unread ∧
        (Φ (chunks ++ got) w' ∨ F res ∧ Ψ (chunks ++ got) w')) w := by
  induction p generalizing bs chunks w with
  | done r => exact ⟨[], by simp [Reader.run], by simpa using hwithin, .inl (by simpa using hΦ)⟩
  | read n k ih =>
      refine wp_then (wp_read hsrc n bs hΦ hwithin) ?_
      rintro ⟨data, bs₁⟩ w' ⟨got, hdata, hwithin', hcase⟩
      rcases hcase with ⟨hlen, hΦ'⟩ | ⟨hlen, hnil, hΨ⟩
      · refine wp_mono (ih data (hp.1 data hlen) bs₁ hΦ' hwithin') ?_
        intro r' w'' hr'
        rcases r' with e | ⟨res, bs'⟩
        · exact hr'.elim
        · obtain ⟨got', hrun, hrest⟩ := hr'
          refine ⟨got ++ got', ?_, by simpa using hrest⟩
          rw [List.flatten_append, ← List.append_assoc, ← hdata, List.append_assoc,
            Reader.run, List.take_left' hlen, List.drop_left' hlen, hrun]
      · obtain ⟨r, hr, hdone⟩ := hp.2 data hlen
        rw [hnil, List.append_nil] at hdata
        show wp C t (parse src (k data) bs₁) _ _
        rw [hdone]
        refine ⟨got, ?_, hwithin', .inr ⟨hr, hΨ⟩⟩
        rw [← hdata, Reader.run, List.take_of_length_le (by omega),
          List.drop_of_length_le (by omega), hdone, Reader.run, hnil]

/-- **A strict parser on a connection's stream** has seen what was read: its result is that of `run`
    on it, what `run` leaves is buffered, and if it succeeded the stream had not ended. -/
theorem wp_parse
    (hsrc : ∀ chunks w, Φ chunks w → wp C t src (Returns fun rr w' =>
      if rr.ok then Φ (chunks ++ [rr.data]) w' else Ψ chunks w') w)
    {α : Type} {p : Reader Exn UInt8 α} (hp : p.Strict) (bs : UringBufferedStream)
    {chunks : List Bytes} {w : World K.object} (hΦ : Φ chunks w)
    (hwithin : Within chunks bs.unread) :
    wp C t (parse src p bs) (Returns fun (res, bs') w' =>
      ∃ got, p.run (bs.unread ++ got.flatten) = (res, bs'.unread) ∧
        Within (chunks ++ got) bs'.unread ∧
        (Φ (chunks ++ got) w' ∨ (∃ e, res = .error e) ∧ Ψ (chunks ++ got) w')) w :=
  wp_parse_of hsrc hp.stopsShort bs hΦ hwithin

end Wp

end UringBufferedStream

end Cppvless
