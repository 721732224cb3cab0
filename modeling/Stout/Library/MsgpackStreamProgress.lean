import Stout.Library.MsgpackStream
import Stout.Library.Shrinking

/-! # Nothing is put back

No method of the reader on a stream adds to what is still to come, whatever it meets: an
end, a prefix it does not know, or a buffer that is full.
-/
namespace Stout

namespace Buffered
variable {α : Type*}

theorem Source.read_rest {s t : Source α} {n : ℕ} {b : List α} (h : s.read n = some (b,t)) : b ++ t.rest = s.rest := by
  unfold Source.read at h
  split at h
  · cases h
  · cases h
    exact List.take_append_drop _ _

theorem Reader.length_read {size n : ℕ} {r t : Reader α} {b : List α} (h : r.read size n = some (b,t)) :
    t.pending.length ≤ r.pending.length := by
  unfold Reader.read at h
  unfold Reader.pending
  split at h
  · rename_i hb
    split at h
    · obtain ⟨⟨c,u⟩,hc,he⟩ := Option.map_eq_some_iff.mp h
      cases he
      have hr := congrArg List.length (Source.read_rest hc)
      rw [List.length_append] at hr
      simp only [hb, List.nil_append]
      omega
    · obtain ⟨⟨c,u⟩,hc,he⟩ := Option.map_eq_some_iff.mp h
      cases he
      have hr := congrArg List.length (Source.read_rest hc)
      rw [List.length_append] at hr
      simp only [hb, List.nil_append, List.length_append, List.length_drop]
      omega
  · cases h
    simp only [List.length_append, List.length_drop]
    omega

theorem Reader.length_copyLoop (size chunk fuel n : ℕ) (r : Reader α) :
    (r.copyLoop size chunk fuel n).2.2.pending.length ≤ r.pending.length := by
  induction fuel generalizing n r with
  | zero => exact le_rfl
  | succ fuel ih =>
    rw [copyLoop]
    split
    · exact le_rfl
    split
    · exact le_rfl
    · rename_i b t hr
      exact (ih _ t).trans (length_read hr)

end Buffered

namespace Forward.Reader
variable {α : Type*}

theorem length_pending_drop {n : ℕ} {r : Reader α} (h : n ≤ r.buf.length) : (r.drop n).pending.length ≤ r.pending.length := by
  rw [pending_drop h, List.length_drop]
  exact Nat.sub_le _ _

theorem length_peek (n : ℕ) (r : Reader α) : (r.peek n).2.pending.length ≤ r.pending.length := by
  rcases le_or_gt n r.pending.length with h | h
  · obtain ⟨t,ht,hl,-⟩ := peek_ok h
    rw [ht, hl.pending]
  · obtain ⟨t,ht,hl⟩ := peek_eof h
    rw [ht, hl.pending]

theorem length_next (n : ℕ) (r : Reader α) : (r.next n).2.pending.length ≤ r.pending.length := by
  rcases le_or_gt n r.pending.length with h | h
  · obtain ⟨t,ht,hl⟩ := next_ok h
    rw [ht, hl.pending, List.length_drop]
    exact Nat.sub_le _ _
  · obtain ⟨t,ht,hl⟩ := next_eof h
    rw [ht, hl.pending]

theorem length_skipLoop (fuel n : ℕ) (r : Reader α) : (r.skipLoop fuel n).2.pending.length ≤ r.pending.length := by
  induction fuel generalizing n r with
  | zero => exact le_rfl
  | succ fuel ih =>
    rw [skipLoop]
    split
    · rcases r.more_cases with ⟨-,hm⟩ | ⟨-,-,hm⟩ | ⟨t,hm,-,-,hp⟩
      · simp only [hm]
        exact length_pending_drop (Nat.min_le_left ..)
      · simp only [hm]
        exact length_pending_drop (Nat.min_le_left ..)
      · simp only [hm]
        rw [← hp]
        exact (ih _ _).trans (length_pending_drop (Nat.min_le_left ..))
    · exact le_rfl

theorem length_skip (n : ℕ) (r : Reader α) : (r.skip n).2.pending.length ≤ r.pending.length := by
  unfold skip
  split
  · exact length_pending_drop ‹_›
  · exact length_skipLoop n n r

theorem length_readFull (n : ℕ) (r : Reader α) : (r.readFull n).2.pending.length ≤ r.pending.length := by
  obtain ⟨t,ht,hl⟩ := r.readFull_spec n
  rw [ht, hl.pending, List.length_drop]
  exact Nat.sub_le _ _

theorem length_copyN (chunk n : ℕ) (r : Reader α) : (r.copyN chunk n).2.2.pending.length ≤ r.pending.length :=
  Buffered.Reader.length_copyLoop ..

end Forward.Reader

namespace Msgpack

def Stream.size (r : Stream) : ℕ := r.pending.length

namespace Stream
variable {α : Type}

theorem shrinks_call {f : Stream → Except Forward.Err α × Stream} (h : ∀ r, (f r).2.size ≤ r.size) :
    Shrinks size (call f) := by
  intro r
  have hr := h r
  unfold call
  rcases hf : f r with ⟨e | a,t⟩ <;> rw [hf] at hr <;> exact hr

theorem shrinks_peek (n : ℕ) : Shrinks size (peek n) := shrinks_call (Forward.Reader.length_peek n)

theorem shrinks_next (n : ℕ) : Shrinks size (next n) := shrinks_call (Forward.Reader.length_next n)

theorem shrinks_skipBytes (n : ℕ) : Shrinks size (skipBytes n) := shrinks_call (Forward.Reader.length_skip n)

theorem shrinks_lead : Shrinks size lead := (shrinks_peek 1).bind fun _ => .pure _

theorem shrinks_field (k : ℕ) : Shrinks size (field k) := (shrinks_next _).bind fun _ => .pure _

theorem shrinks_fix (a : α) : Shrinks size (do skipBytes 1; pure a) := (shrinks_skipBytes 1).bind fun _ => .pure a

theorem shrinks_readArrayHeader : Shrinks size readArrayHeader := by
  refine shrinks_lead.bind fun lead => .ite (shrinks_fix _) ?_
  split
  · exact shrinks_field 2
  · exact shrinks_field 4
  · exact .throw _

theorem shrinks_readMapHeader : Shrinks size readMapHeader := by
  refine shrinks_lead.bind fun lead => .ite (shrinks_fix _) ?_
  split
  · exact shrinks_field 2
  · exact shrinks_field 4
  · exact .throw _

theorem shrinks_fill (n : ℕ) : Shrinks size (fill n) :=
  .ite (.pure _) (shrinks_call (Forward.Reader.length_readFull n))

theorem shrinks_stringField (k : ℕ) : Shrinks size (stringField k) := (shrinks_field k).bind shrinks_fill

theorem shrinks_readString : Shrinks size readString := by
  refine shrinks_lead.bind fun lead => .ite ((shrinks_skipBytes 1).bind fun _ => shrinks_fill _) ?_
  split
  · exact shrinks_stringField 1
  · exact shrinks_stringField 2
  · exact shrinks_stringField 4
  · exact .throw _

theorem shrinks_peekExtensionType : Shrinks size peekExtensionType := by
  refine (shrinks_peek 2).bind fun p => ?_
  split
  · exact .throw _
  · exact .ite (.throw _) (.ite (.pure _) ((shrinks_peek _).bind fun _ => .pure _))

theorem shrinks_nextType : Shrinks size nextType := by
  refine shrinks_lead.bind fun lead => ?_
  split
  · exact .throw _
  · exact .ite (shrinks_peekExtensionType.bind fun _ => .pure _) (.pure _)

theorem shrinks_getNextSize : Shrinks size getNextSize := by
  refine shrinks_lead.bind fun lead => ?_
  split
  · exact .throw _
  · exact .ite (.pure _) ((shrinks_peek _).bind fun _ => .pure _)

theorem shrinks_sizeToSkip : Shrinks size sizeToSkip := by
  intro r
  unfold sizeToSkip
  split
  · refine ((shrinks_peek 5).bind fun p => ?_) r
    split
    · exact .pure _
    · exact .throw _
  · exact shrinks_getNextSize r

theorem shrinks_skipObjects (fuel n : ℕ) : Shrinks size (skipObjects fuel n) := by
  induction fuel generalizing n with
  | zero =>
    cases n with
    | zero => exact .pure _
    | succ n => exact .throw _
  | succ fuel ih =>
    cases n with
    | zero => exact .pure _
    | succ n =>
      exact (shrinks_sizeToSkip.bind fun _ => (shrinks_skipBytes _).bind fun _ => .pure _).bind fun _ => ih _

theorem shrinks_skip : Shrinks size skip := fun r => shrinks_skipObjects _ 1 r

theorem shrinks_takeObject (v : ℕ) : Shrinks size (takeObject v) := by
  intro r
  unfold takeObject
  split
  · have hr := Forward.Reader.length_next v r
    unfold takeWhole
    split <;> rename_i h <;> rw [h] at hr <;> exact hr
  · have hr := Forward.Reader.length_copyN copyChunk v r
    unfold takePieces
    split <;> rename_i h <;> rw [h] at hr <;> exact hr

theorem shrinks_copyObjects (fuel n : ℕ) (acc : Bytes) : Shrinks size (copyObjects fuel n acc) := by
  induction fuel generalizing n acc with
  | zero =>
    cases n with
    | zero => exact .pure _
    | succ n => exact .throw _
  | succ fuel ih =>
    cases n with
    | zero => exact .pure _
    | succ n =>
      exact (shrinks_getNextSize.bind fun _ => (shrinks_takeObject _).bind fun _ => .pure _).bind fun _ => ih _ _

theorem shrinks_copyNext : Shrinks size copyNext := fun r => shrinks_copyObjects _ 1 [] r

end Stream
end Msgpack
end Stout
