import Cppvless.Net.Trace
import Cppvless.Net.BufferedStream

set_option autoImplicit false

/-! # Reasoning about streams and relay loops

The rules for `NetStream` and the loops of `Net.Stream`, in terms of reads and writes and whatever the
stream is made of, and the operations each of them can come to. -/

namespace Cppvless

open Coroutine

variable {K : Kind} {C : Contract K.object} {t : K.Task} {w : World K.object}

/-! ## Weakest preconditions -/

/-- `I` survives what the others do, and allows `t` to suspend on the operations `S`. -/
structure Stays (C : Contract K.object) (t : K.Task) (S : NetOp K.Fd → Prop)
    (I : World K.object → Prop) : Prop where
  rely : ∀ w w', I w → C.rely t w w' → I w'
  parked : ∀ o w, S o → I w → C.parked t (.inl o) w

theorem Stays.later {S : NetOp K.Fd → Prop} {I : World K.object → Prop} (h : Stays C t S I)
    {w w' : World K.object} (hI : I w) (hl : C.Later t w w') : I w' := by
  induction hl with
  | refl => exact hI
  | tail _ hr ih => exact h.rely _ _ ih hr

theorem wp_net {o : NetOp K.Fd} {S : NetOp K.Fd → Prop} {I : World K.object → Prop}
    {Q : Except Exn o.Res → World K.object → Prop} (hs : o.suspends = true) (hI : Stays C t S I)
    (ho : S o) (hw : I w)
    (h : ∀ w r, I w → C.env (w.push (.io (.inl o) r)).trace →
      C.guar t w (w.push (.io (.inl o) r)) ∧ Q (.ok r) (w.push (.io (.inl o) r))) :
    wp C t (net o) Q w := by
  refine wp_await (O := K.object) (o := .inl o) hs (hI.parked o w ho hw) ?_
  intro w₁ hl r he
  exact h w₁ r (hI.later hw hl) he

theorem wp_net_seq {α : Type} {o : NetOp K.Fd} {S : NetOp K.Fd → Prop} {I : World K.object → Prop}
    {f : o.Res → K.Prog α} {Q : Except Exn α → World K.object → Prop} (hs : o.suspends = true)
    (hI : Stays C t S I) (ho : S o) (hw : I w)
    (h : ∀ w r, I w → C.env (w.push (.io (.inl o) r)).trace →
      C.guar t w (w.push (.io (.inl o) r)) ∧ wp C t (f r) Q (w.push (.io (.inl o) r))) :
    wp C t (net o >>= f) Q w := wp_bind (wp_net hs hI ho hw h)

namespace NetStream

theorem wp_read (s : NetStream K.Fd) (n : Nat) {I : World K.object → Prop}
    {Q : Except Exn RecvResult → World K.object → Prop}
    (hI : Stays C t (NetOp.Reads s.fd) I) (hw : I w)
    (h : ∀ w e rr, I w → IsRead s.fd rr e → rr.data.length ≤ n → C.env (w.push e).trace →
      C.guar t w (w.push e) ∧ Q (.ok rr) (w.push e)) :
    wp C t (s.read n) Q w := by
  cases s with
  | async fd =>
      refine wp_bind (wp_net rfl hI (show (NetOp.recv fd n).Reads fd from rfl) hw ?_)
      intro w r hw he
      exact h w _ r.1 hw (isRead_recv fd n r) r.2 he
  | tls fd =>
      refine wp_bind (wp_net rfl hI (show (NetOp.tlsRead fd n).Reads fd from rfl) hw ?_)
      intro w r hw he
      exact h w _ r.1 hw (isRead_tlsRead fd n r) r.2 he

theorem wp_shutdownWrite (s : NetStream K.Fd) {I : World K.object → Prop}
    {Q : Except Exn Int → World K.object → Prop} (hI : Stays C t (NetOp.Shuts s.fd) I) (hw : I w)
    (h : ∀ w (o : NetOp K.Fd) (r : o.Res) n, I w → o.Shuts s.fd →
      C.env (w.push (.io (.inl o) r)).trace →
      C.guar t w (w.push (.io (.inl o) r)) ∧ Q (.ok n) (w.push (.io (.inl o) r))) :
    wp C t s.shutdownWrite Q w := by
  cases s with
  | async fd =>
      refine wp_net rfl hI (show (NetOp.shutdownWr fd).Shuts fd from rfl) hw ?_
      intro w r hw he
      exact h w (.shutdownWr fd) r r hw rfl he
  | tls fd =>
      refine wp_net rfl hI (show (NetOp.tlsShutdownWrite fd).Shuts fd from rfl) hw ?_
      intro w r hw he
      exact h w (.tlsShutdownWrite fd) r r hw rfl he

/-- `P rest` holds while `rest` is still to be written, `F` after a failed write. -/
theorem wp_writeFull (s : NetStream K.Fd) {P : Bytes → World K.object → Prop}
    {F : World K.object → Prop}
    (hP : ∀ rest, Stays C t (NetOp.Writes s.fd) (P rest))
    (hwrite : ∀ w e out rest failed, P (out ++ rest) w → IsWrite s.fd out failed e →
      C.env (w.push e).trace →
      C.guar t w (w.push e) ∧ if failed then F (w.push e) else P rest (w.push e))
    {data : Bytes} (hdata : data ≠ []) (hw : P data w) :
    wp C t (s.writeFull data) (Returns fun n w' =>
      0 < n ∧ (P [] w' ∨ F w') ∨ n ≤ 0 ∧ F w') w := by
  cases s with
  | async fd =>
      refine wp_loop (fun offset w => P (data.drop offset) w) (by simpa using hw) ?_
      intro offset w hw
      by_cases hlt : offset < data.length
      · rw [if_pos hlt]
        refine wp_bind (wp_net rfl (hP _) (show (NetOp.send fd _).Writes fd from rfl) hw ?_)
        intro w r hw he
        have hsplit : (data.drop offset).take r.1.toNat ++ (data.drop offset).drop r.1.toNat =
            data.drop offset := List.take_append_drop _ _
        obtain ⟨hg, hnext⟩ := hwrite w _ _ _ _ (hsplit.symm ▸ hw) (isWrite_send fd _ r) he
        refine ⟨hg, ?_⟩
        by_cases hr : r.1 ≤ 0
        · simp only [hr, decide_true, if_true] at hnext
          simp only [hr, if_true, wp_pure]
          -- what was accepted before the failure is reported as a success
          by_cases hoff : 0 < offset
          · rw [if_pos hoff]
            exact .inl ⟨by omega, .inr hnext⟩
          · rw [if_neg hoff]
            exact .inr ⟨hr, hnext⟩
        · simp only [hr, decide_false, Bool.false_eq_true, if_false] at hnext
          simp only [hr, if_false, wp_pure]
          rw [List.drop_drop] at hnext
          exact hnext
      · rw [if_neg hlt]
        rw [List.drop_of_length_le (by omega)] at hw
        have := List.length_pos_iff.2 hdata
        exact .inl ⟨by omega, .inl hw⟩
  | tls fd =>
      refine wp_bind (wp_net rfl (hP data) (show (NetOp.tlsWriteFull fd data).Writes fd from rfl)
        hw ?_)
      intro w r hw he
      have hsplit : data.take r.1.toNat ++ data.drop r.1.toNat = data := List.take_append_drop _ _
      obtain ⟨hg, hnext⟩ := hwrite w _ _ _ _ (hsplit.symm ▸ hw) (isWrite_tlsWriteFull fd data r) he
      refine ⟨hg, ?_⟩
      have hpos := List.length_pos_iff.2 hdata
      by_cases hr : r.1 < data.length
      · simp only [hr, decide_true, if_true] at hnext
        rcases lt_or_ge 0 r.1 with hr' | hr'
        · exact .inl ⟨hr', .inr hnext⟩
        · exact .inr ⟨hr', hnext⟩
      · simp only [hr, decide_false, Bool.false_eq_true, if_false] at hnext
        rw [List.drop_of_length_le (by omega)] at hnext
        exact .inl ⟨by omega, .inl hnext⟩

theorem wp_writeNonempty (s : NetStream K.Fd) {P : Bytes → World K.object → Prop}
    {F : World K.object → Prop}
    (hP : ∀ rest, Stays C t (NetOp.Writes s.fd) (P rest))
    (hwrite : ∀ w e out rest failed, P (out ++ rest) w → IsWrite s.fd out failed e →
      C.env (w.push e).trace →
      C.guar t w (w.push e) ∧ if failed then F (w.push e) else P rest (w.push e))
    {data : Bytes} (hw : P data w) :
    wp C t (s.writeNonempty data) (Returns fun written w' =>
      if written then P [] w' ∨ F w' else F w') w := by
  rw [writeNonempty]
  by_cases hdata : data = []
  · rw [if_pos hdata]
    exact .inl (hdata ▸ hw)
  · rw [if_neg hdata]
    refine wp_then (s.wp_writeFull hP hwrite hdata hw) ?_
    intro n w' hr
    rcases hr with ⟨hn, hr⟩ | ⟨hn, hr⟩
    · rw [decide_eq_true hn]
      exact hr
    · rw [decide_eq_false (Int.not_lt.2 hn)]
      exact hr

end NetStream

/-- The rule of the copy loop: `P rest` holds while `rest` is still to be written, `E` after the end of
    the source and `R` after a failed read. -/
theorem wp_copyBetween {writeFull : Bytes → K.Prog Int} {shutdownWrite : K.Prog Int}
    {read : K.Prog RecvResult} {stop : K.Mem → Bool}
    {P : Bytes → World K.object → Prop} {E R : World K.object → Prop}
    {Q : Except Exn Bool → World K.object → Prop}
    (hstop : ∀ w, P [] w → stop w.mem = true → Q (.ok false) w)
    (hread : ∀ w, P [] w → wp C t read (Returns fun rr w' =>
      if rr.eof then E w' else if rr.error then R w' else P rr.data w') w)
    (hend : ∀ w, E w → wp C t shutdownWrite (Returns fun _ => Q (.ok true)) w)
    (herror : ∀ w, R w → wp C t shutdownWrite (Returns fun _ => Q (.ok false)) w)
    (hwrite : ∀ data w, data ≠ [] → P data w → wp C t (writeFull data) (Returns fun n w' =>
      if n ≤ 0 then Q (.ok false) w' else P [] w') w)
    (hw : P [] w) : wp C t (copyBetween writeFull shutdownWrite read stop) Q w := by
  refine wp_loop (fun _ => P []) hw ?_
  intro _ w hw
  refine wp_get_seq (O := K.object) ?_
  cases hs : stop w.mem with
  | true => exact hstop w hw hs
  | false =>
      refine wp_then (hread w hw) ?_
      intro rr w' hr
      cases heof : rr.eof with
      | true =>
          simp only [heof, if_true] at hr
          exact wp_then (hend w' hr) fun _ _ hr => hr
      | false =>
          cases herr : rr.error with
          | true =>
              simp only [heof, herr, if_true, Bool.false_eq_true, if_false] at hr
              exact wp_then (herror w' hr) fun _ _ hr => hr
          | false =>
              simp only [heof, herr, Bool.false_eq_true, if_false] at hr
              have hok : rr.ok = true := by simp [rr.ok_eq, heof, herr]
              refine wp_then (hwrite _ w' (RecvResult.data_ne_nil_of_ok hok) hr) ?_
              intro n w'' hr
              by_cases hn : n ≤ 0
              · simp only [hn, if_true] at hr ⊢
                exact hr
              · simp only [hn, if_false] at hr ⊢
                exact hr

/-- The same rule for a source that is a stream. -/
theorem wp_copyInto {writeFull : Bytes → K.Prog Int} {shutdownWrite : K.Prog Int}
    {src : NetStream K.Fd} {stop : K.Mem → Bool}
    {P : Bytes → World K.object → Prop} {E R : World K.object → Prop}
    {Q : Except Exn Bool → World K.object → Prop}
    (hstop : ∀ w, P [] w → stop w.mem = true → Q (.ok false) w)
    (hread : ∀ w, P [] w → wp C t src.read (Returns fun rr w' =>
      if rr.eof then E w' else if rr.error then R w' else P rr.data w') w)
    (hend : ∀ w, E w → wp C t shutdownWrite (Returns fun _ => Q (.ok true)) w)
    (herror : ∀ w, R w → wp C t shutdownWrite (Returns fun _ => Q (.ok false)) w)
    (hwrite : ∀ data w, data ≠ [] → P data w → wp C t (writeFull data) (Returns fun n w' =>
      if n ≤ 0 then Q (.ok false) w' else P [] w') w)
    (hw : P [] w) : wp C t (copyInto writeFull shutdownWrite src stop) Q w :=
  wp_copyBetween hstop hread hend herror hwrite hw

/-- The same rule for a destination that is a stream. -/
theorem wp_copyStream {dst src : NetStream K.Fd} {stop : K.Mem → Bool}
    {P : Bytes → World K.object → Prop} {E R : World K.object → Prop}
    {Q : Except Exn Bool → World K.object → Prop}
    (hstop : ∀ w, P [] w → stop w.mem = true → Q (.ok false) w)
    (hread : ∀ w, P [] w → wp C t src.read (Returns fun rr w' =>
      if rr.eof then E w' else if rr.error then R w' else P rr.data w') w)
    (hend : ∀ w, E w → wp C t dst.shutdownWrite (Returns fun _ => Q (.ok true)) w)
    (herror : ∀ w, R w → wp C t dst.shutdownWrite (Returns fun _ => Q (.ok false)) w)
    (hwrite : ∀ data w, data ≠ [] → P data w → wp C t (dst.writeFull data) (Returns fun n w' =>
      if n ≤ 0 then Q (.ok false) w' else P [] w') w)
    (hw : P [] w) : wp C t (copyStream dst src stop) Q w :=
  wp_copyInto hstop hread hend herror hwrite hw

/-- The rule of the relay loops that change the data: `D` holds of the data read until it is
    transformed. -/
theorem wp_relayTransformed {dst src : NetStream K.Fd} {stop direct : K.Mem → Bool}
    {transform : Bytes → K.Prog (Option Bytes)} {P D : Bytes → World K.object → Prop}
    {E R : World K.object → Prop} {Q : Except Exn Bool → World K.object → Prop}
    (hstop : ∀ w, P [] w → stop w.mem = true → Q (.ok true) w)
    (hread : ∀ w, P [] w → wp C t src.read (Returns fun rr w' =>
      if rr.eof then E w' else if rr.error then R w' else D rr.data w') w)
    (hend : ∀ w, E w → wp C t dst.shutdownWrite (Returns fun _ => Q (.ok true)) w)
    (herror : ∀ w, R w → wp C t dst.shutdownWrite (Returns fun _ => Q (.ok false)) w)
    (htransform : ∀ data w, data ≠ [] → D data w → wp C t (transform data) (fun r w' =>
      (∀ out, r = .ok (some out) → P out w') ∧ (r = .ok none → Q (.ok false) w') ∧
        ∀ e, r = .error e → Q (.error e) w') w)
    (hwrite : ∀ data w, P data w → wp C t (dst.writeNonempty data) (Returns fun written w' =>
      if written then P [] w' else Q (.ok false) w') w)
    (hdirect : ∀ w, P [] w → direct w.mem = true → wp C t (copyStream dst src stop) Q w)
    (hw : P [] w) : wp C t (relayTransformed dst src stop transform direct) Q w := by
  refine wp_loop (fun _ => P []) hw ?_
  intro _ w hw
  refine wp_get_seq (O := K.object) ?_
  cases hs : stop w.mem with
  | true => exact hstop w hw hs
  | false =>
      refine wp_then (hread w hw) ?_
      intro rr w' hr
      cases heof : rr.eof with
      | true =>
          simp only [heof, if_true] at hr
          exact wp_then (hend w' hr) fun _ _ hr => hr
      | false =>
          cases herr : rr.error with
          | true =>
              simp only [heof, herr, if_true, Bool.false_eq_true, if_false] at hr
              exact wp_then (herror w' hr) fun _ _ hr => hr
          | false =>
              simp only [heof, herr, Bool.false_eq_true, if_false] at hr
              have hok : rr.ok = true := by simp [rr.ok_eq, heof, herr]
              refine wp_seq (htransform _ w' (RecvResult.data_ne_nil_of_ok hok) hr) ?_
                fun e _ hr => hr.2.2 e rfl
              intro out w'' hr
              cases out with
              | none => exact hr.2.1 rfl
              | some out =>
                  refine wp_then (hwrite out w'' (hr.1 out rfl)) ?_
                  intro written w₃ hr
                  cases written with
                  | false => exact hr
                  | true =>
                      refine wp_get_seq (O := K.object) ?_
                      cases hd : direct w₃.mem with
                      | false => exact hr
                      | true => exact wp_seq (hdirect w₃ hr hd) (fun _ _ hr => hr) fun _ _ hr => hr

/-! ## Flows -/

/-- What `t` needs of `G` to write the pending bytes of `f`. -/
structure FlowWrites (C : Contract K.object) (t : K.Task) (f : Flow K.Fd)
    (G : World K.object → Prop) : Prop where
  sticky : ∀ tr, C.env tr → Sticky f.dst tr
  stays : ∀ pending, Stays C t (NetOp.Writes f.dst) fun w => f.Carries pending w.trace ∧ G w
  write : ∀ w e out failed pending, G w → IsWrite f.dst out failed e →
    f.Carries pending (w.push e).trace → C.env (w.push e).trace →
    C.guar t w (w.push e) ∧ G (w.push e)

/-- What `t` needs of `G` to copy the bytes of `f`, `G'` holding from the end of the source on. -/
structure FlowCopies (C : Contract K.object) (t : K.Task) (f : Flow K.Fd)
    (G G' : World K.object → Prop) : Prop extends FlowWrites C t f G where
  ended : ∀ w, G w → G' w
  reads : Stays C t (NetOp.Reads f.src) fun w => f.Carries [] w.trace ∧ G w
  read : ∀ w e rr, G w → IsRead f.src rr e → f.Carries rr.data (w.push e).trace →
    C.env (w.push e).trace →
    C.guar t w (w.push e) ∧ if rr.ok then G (w.push e) else G' (w.push e)
  shuts : Stays C t (NetOp.Shuts f.dst) fun w => f.Carries [] w.trace ∧ G' w
  shut : ∀ w (o : NetOp K.Fd) r, G' w → o.Shuts f.dst →
    f.Carries [] (w.push (.io (.inl o) r)).trace → C.env (w.push (.io (.inl o) r)).trace →
    C.guar t w (w.push (.io (.inl o) r)) ∧ G' (w.push (.io (.inl o) r))

section Flow

variable {f : Flow K.Fd} {G G' : World K.object → Prop} {dst src : NetStream K.Fd}

/-- One write of a flow. -/
theorem FlowWrites.step (h : FlowWrites C t f G) {w : World K.object} {e : Event K.object}
    {out rest : Bytes} {failed : Bool} (hw : f.Carries (out ++ rest) w.trace ∧ G w)
    (he : IsWrite f.dst out failed e) (henv : C.env (w.push e).trace) :
    C.guar t w (w.push e) ∧
      if failed then f.Carries [] (w.push e).trace ∧ G (w.push e)
      else f.Carries rest (w.push e).trace ∧ G (w.push e) := by
  have hnext := hw.1.write (h.sticky _ henv) (readFrom_other (he.heard_none _)) he.wrote_self
  cases failed with
  | true =>
      have hcarries : f.Carries [] (w.push e).trace := .inr hnext
      obtain ⟨hg, hG⟩ := h.write w e out true [] hw.2 he hcarries henv
      exact ⟨hg, hcarries, hG⟩
  | false =>
      obtain ⟨hg, hG⟩ := h.write w e out false rest hw.2 he hnext henv
      exact ⟨hg, hnext, hG⟩

theorem FlowWrites.wp_writeFull (h : FlowWrites C t f G) (hdst : dst.fd = f.dst) {data : Bytes}
    (hdata : data ≠ []) (hw : f.Carries data w.trace ∧ G w) :
    wp C t (dst.writeFull data) (Returns fun _ w' => f.Carries [] w'.trace ∧ G w') w := by
  refine wp_returns (dst.wp_writeFull (F := fun w => f.Carries [] w.trace ∧ G w) (hdst ▸ h.stays)
    (fun w e out rest failed hw he henv => ?_) hdata hw) ?_
  · exact h.step hw (hdst ▸ he) henv
  · rintro n w' (⟨-, hw' | hw'⟩ | ⟨-, hw'⟩)
    · exact hw'
    · exact hw'
    · exact hw'

theorem FlowWrites.wp_writeNonempty (h : FlowWrites C t f G) (hdst : dst.fd = f.dst) {data : Bytes}
    (hw : f.Carries data w.trace ∧ G w) :
    wp C t (dst.writeNonempty data) (Returns fun _ w' => f.Carries [] w'.trace ∧ G w') w := by
  rw [NetStream.writeNonempty]
  by_cases hdata : data = []
  · rw [if_pos hdata]
    exact hdata ▸ hw
  · rw [if_neg hdata]
    exact wp_then (h.wp_writeFull hdst hdata hw) fun _ _ hw => hw

/-- **`copyStream` carries a flow**: whatever ends it, what was read has been written, unless a write
    failed. -/
theorem FlowCopies.wp_copyStream (h : FlowCopies C t f G G') (hdst : dst.fd = f.dst)
    (hsrc : src.fd = f.src) (stop : K.Mem → Bool) (hw : f.Carries [] w.trace ∧ G w) :
    wp C t (copyStream dst src stop) (Returns fun _ w' => f.Carries [] w'.trace ∧ G' w') w := by
  have hshut : ∀ w, f.Carries [] w.trace ∧ G' w → wp C t dst.shutdownWrite
      (Returns fun _ w' => f.Carries [] w'.trace ∧ G' w') w := by
    intro w hw
    refine dst.wp_shutdownWrite (hdst ▸ h.shuts) hw fun w o r n hw ho henv => ?_
    rw [hdst] at ho
    have hcarries : f.Carries [] (w.push (.io (.inl o) r)).trace :=
      hw.1.other (readFrom_other (heard_eq_none ho.not_reads r)) (wrote_eq_none ho.not_writes r)
    obtain ⟨hg, hG⟩ := h.shut w o r hw.2 ho hcarries henv
    exact ⟨hg, hcarries, hG⟩
  refine Cppvless.wp_copyStream (P := fun pending w => f.Carries pending w.trace ∧ G w)
    (E := fun w => f.Carries [] w.trace ∧ G' w) (R := fun w => f.Carries [] w.trace ∧ G' w)
    ?_ ?_ hshut hshut ?_ hw
  · exact fun w hw _ => ⟨hw.1, h.ended w hw.2⟩
  · intro w hw
    refine src.wp_read _ (hsrc ▸ h.reads) hw fun w e rr hw he _ henv => ?_
    rw [hsrc] at he
    have hcarries := hw.1.read he.heard_self (he.wrote_none f.dst)
    obtain ⟨hg, hG⟩ := h.read w e rr hw.2 he hcarries henv
    refine ⟨hg, ?_⟩
    show if rr.eof = true then _ else if rr.error = true then _ else _
    cases hok : rr.ok with
    | true =>
        simp only [hok, if_true] at hG
        obtain ⟨heof, herr⟩ : rr.eof = false ∧ rr.error = false := by simpa [rr.ok_eq] using hok
        simp only [heof, herr, Bool.false_eq_true, if_false]
        exact ⟨hcarries, hG⟩
    | false =>
        simp only [hok, Bool.false_eq_true, if_false] at hG
        rw [RecvResult.data_eq_nil_of_not_ok hok] at hcarries
        cases heof : rr.eof with
        | true => exact ⟨hcarries, hG⟩
        | false =>
            have herr : rr.error = true := by simpa [rr.ok_eq, heof] using hok
            simp only [herr, Bool.false_eq_true, if_false, if_true]
            exact ⟨hcarries, hG⟩
  · intro data w hdata hw
    refine wp_returns (h.toFlowWrites.wp_writeFull hdst hdata hw) fun n w' hw' => ?_
    show if n ≤ 0 then _ else _
    by_cases hn : n ≤ 0
    · rw [if_pos hn]
      exact ⟨hw'.1, h.ended w' hw'.2⟩
    · rw [if_neg hn]
      exact hw'

end Flow

/-! ## Operations -/

/-- `P` allows what relaying from `src` to `dst` needs. -/
structure Relays (P : ObjOp K.object → Prop) (src dst : K.Fd) : Prop where
  get : P .get
  read : ∀ o : NetOp K.Fd, o.Reads src → P (.io (.inl o))
  write : ∀ o : NetOp K.Fd, o.Writes dst → P (.io (.inl o))
  shut : ∀ o : NetOp K.Fd, o.Shuts dst → P (.io (.inl o))

section Uses

variable {P : ObjOp K.object → Prop} {α : Type}

/-- `c` comes to operations of the kind `P` only. -/
abbrev Only (P : ObjOp K.object → Prop) (c : K.Prog α) : Prop := Coro.Uses (S := K.object.sig) P c

theorem NetStream.only_read (s : NetStream K.Fd) (n : Nat)
    (h : ∀ o : NetOp K.Fd, o.Reads s.fd → P (.io (.inl o))) : Only P (s.read n) := by
  cases s with
  | async fd => exact .bind (.await (h (.recv fd n) rfl)) fun _ => trivial
  | tls fd => exact .bind (.await (h (.tlsRead fd n) rfl)) fun _ => trivial

theorem NetStream.only_writeFull (s : NetStream K.Fd) (data : Bytes)
    (h : ∀ o : NetOp K.Fd, o.Writes s.fd → P (.io (.inl o))) : Only P (s.writeFull data) := by
  cases s with
  | async fd =>
      refine .loop fun offset => .ite (fun _ => ?_) fun _ => trivial
      refine .bind (.await (h (.send fd _) rfl)) fun sent => ?_
      exact .ite (fun _ => trivial) fun _ => trivial
  | tls fd => exact .bind (.await (h (.tlsWriteFull fd data) rfl)) fun _ => trivial

theorem NetStream.only_shutdownWrite (s : NetStream K.Fd)
    (h : ∀ o : NetOp K.Fd, o.Shuts s.fd → P (.io (.inl o))) : Only P s.shutdownWrite := by
  cases s with
  | async fd => exact .await (h (.shutdownWr fd) rfl)
  | tls fd => exact .await (h (.tlsShutdownWrite fd) rfl)

theorem NetStream.only_writeNonempty (s : NetStream K.Fd) (data : Bytes)
    (h : ∀ o : NetOp K.Fd, o.Writes s.fd → P (.io (.inl o))) : Only P (s.writeNonempty data) :=
  .ite (fun _ => trivial) fun _ => .bind (s.only_writeFull data h) fun _ => trivial

theorem only_copyStream {dst src : NetStream K.Fd} (stop : K.Mem → Bool)
    (h : Relays P src.fd dst.fd) : Only P (copyStream dst src stop) := by
  refine .loop fun _ => .bind (.await h.get) fun s => .ite (fun _ => trivial) fun _ => ?_
  refine .bind (src.only_read _ h.read) fun rr => .ite (fun _ => ?_) fun _ => .ite (fun _ => ?_) fun _ => ?_
  · exact .bind (dst.only_shutdownWrite h.shut) fun _ => trivial
  · exact .bind (dst.only_shutdownWrite h.shut) fun _ => trivial
  · exact .bind (dst.only_writeFull _ h.write) fun _ => .ite (fun _ => trivial) fun _ => trivial

theorem only_relayTransformed {dst src : NetStream K.Fd} (stop direct : K.Mem → Bool)
    {transform : Bytes → K.Prog (Option Bytes)} (h : Relays P src.fd dst.fd)
    (htransform : ∀ data, Only P (transform data)) :
    Only P (relayTransformed dst src stop transform direct) := by
  refine .loop fun _ => .bind (.await h.get) fun s => .ite (fun _ => trivial) fun _ => ?_
  refine .bind (src.only_read _ h.read) fun rr => .ite (fun _ => ?_) fun _ => .ite (fun _ => ?_) fun _ => ?_
  · exact .bind (dst.only_shutdownWrite h.shut) fun _ => trivial
  · exact .bind (dst.only_shutdownWrite h.shut) fun _ => trivial
  · refine .bind (htransform rr.data) fun out => ?_
    cases out with
    | none => trivial
    | some data =>
        refine .bind (dst.only_writeNonempty data h.write) fun ok => .ite (fun _ => trivial) fun _ => ?_
        refine .bind (.await h.get) fun s => .ite (fun _ => ?_) fun _ => trivial
        exact .bind (only_copyStream stop h) fun _ => trivial

theorem UringBufferedStream.only_parse {src : K.Prog RecvResult} (hsrc : Only P src)
    (p : Reader Exn UInt8 α) (bs : UringBufferedStream) : Only P (parse src p bs) := by
  induction p generalizing bs with
  | done r => trivial
  | read n k ih =>
      refine .bind (.loop fun bs => .ite (fun _ => ?_) fun _ => ?_) fun (data, bs) => ih data bs
      · refine .bind hsrc fun rr => .ite (fun _ => .ite (fun _ => ?_) fun _ => trivial) fun _ => trivial
        exact .bind (by cases bs.consume bs.available <;> trivial) fun _ => trivial
      · exact .bind (by cases bs.consume n <;> trivial) fun _ => trivial

end Uses

end Cppvless
