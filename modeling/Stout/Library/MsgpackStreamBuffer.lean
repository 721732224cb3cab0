import Stout.Library.MsgpackStreamSpec

/-! # What is buffered

Reads of values that are in the buffer do not read from the source. How much is buffered
matters to `Skip` only: it looks at five buffered bytes at once if there are as many, which
are too few for the header of an extension with a length of four bytes, and it does not go
on from a buffer that is full.
-/
namespace Stout.Msgpack

section FromBuffer
variable {α : Type}

/-- The program returns the value and leaves the reader with `rest` in its buffer. -/
def Takes (M : Stream.M α) (r : Stream) (a : α) (rest : Bytes) : Prop :=
  ∃ t : Stream, M r = .ok a t ∧ t.buf = rest ∧ t.src = r.src ∧ t.cap = r.cap

/-- What the buffer holds is read without a read of the source. -/
def FromBuffer (M : Stream.M α) (f : Bytes → Read α) : Prop := ∀ r a rest, f r.buf = (.ok a,rest) → Takes M r a rest

theorem fromBuffer_lead {F : UInt8 → Stream.M α} {f : Bytes → Read α} (hnil : ∀ a rest, f [] ≠ (.ok a,rest))
    (hcons : ∀ (r : Stream) lead tail, r.buf = lead :: tail → ∀ a rest, f r.buf = (.ok a,rest) → Takes (F lead) r a rest) :
    FromBuffer (Stream.lead >>= F) f := by
  intro r a rest h
  cases hb : r.buf with
  | nil =>
    rw [hb] at h
    exact absurd h (hnil a rest)
  | cons lead tail =>
    have hp := Forward.Reader.peek_buffered (r := r) (n := 1) (by rw [hb]; exact Nat.succ_pos _)
    rw [hb, List.take_succ_cons, List.take_zero] at hp
    have hlead : Stream.lead r = .ok lead r := bind_of_ok (Stream.call_ok hp)
    rw [Takes, bind_of_ok hlead]
    exact hcons r lead tail hb a rest h

theorem fromBuffer_field (k : ℕ) : FromBuffer (Stream.field k) (readField k) := by
  intro r a rest h
  unfold readField at h
  split at h
  · rename_i hk
    cases h
    refine ⟨r.drop (1 + k),?_,rfl,rfl,rfl⟩
    rw [Stream.field, Stream.next, bind_of_ok (Stream.call_ok (Forward.Reader.next_buffered hk)), List.drop_take,
      Nat.add_sub_cancel_left]
    rfl
  · cases h

theorem takes_fix {r : Stream} {lead : UInt8} {tail : Bytes} (hb : r.buf = lead :: tail) (a : α) :
    Takes (do Stream.skipBytes 1; pure a) r a tail := by
  have hskip : Forward.Reader.skip 1 r = (.ok (),r.drop 1) := if_pos (by rw [hb]; exact Nat.succ_pos _)
  refine ⟨r.drop 1,by rw [Stream.skipBytes, bind_of_ok (Stream.call_ok hskip)]; rfl,?_,rfl,rfl⟩
  change r.buf.drop 1 = tail
  rw [hb, List.drop_one, List.tail_cons]

theorem fromBuffer_readArrayHeader : FromBuffer Stream.readArrayHeader readArrayHeader := by
  refine fromBuffer_lead nofun fun r lead tail hb a rest h => ?_
  rw [hb] at h
  unfold readArrayHeader at h
  dsimp only at h
  split at h
  · rename_i hfix
    cases h
    rw [if_pos hfix]
    exact takes_fix hb _
  · rename_i hfix
    rw [if_neg hfix]
    split at h
    · exact fromBuffer_field 2 r a rest (by rwa [hb])
    · exact fromBuffer_field 4 r a rest (by rwa [hb])
    · cases h

theorem fromBuffer_signedField (k : ℕ) : FromBuffer (Stream.signedField k) (readSignedField k) := by
  intro r a rest h
  unfold readSignedField at h
  rcases hf : readField k r.buf with ⟨e | n,tail⟩
  · rw [hf] at h
    cases h
  · rw [hf] at h
    dsimp only at h
    obtain ⟨t,ht,hbuf,hsrc,hcap⟩ := fromBuffer_field k r n tail hf
    rw [Takes, Stream.signedField, bind_of_ok ht]
    split at h
    · cases h
    · rename_i hneg
      cases h
      rw [if_neg hneg]
      exact ⟨t,rfl,hbuf,hsrc,hcap⟩

theorem fromBuffer_readUint64 : FromBuffer Stream.readUint64 readUint64 := by
  refine fromBuffer_lead nofun fun r lead tail hb a rest h => ?_
  rw [hb] at h
  unfold readUint64 at h
  dsimp only at h
  split at h
  · rename_i hfix
    cases h
    rw [if_pos hfix]
    exact takes_fix hb _
  · rename_i hfix
    rw [if_neg hfix]
    rw [← hb] at h
    split at h
    · exact fromBuffer_signedField 1 r a rest h
    · exact fromBuffer_field 1 r a rest h
    · exact fromBuffer_signedField 2 r a rest h
    · exact fromBuffer_field 2 r a rest h
    · exact fromBuffer_signedField 4 r a rest h
    · exact fromBuffer_field 4 r a rest h
    · exact fromBuffer_signedField 8 r a rest h
    · exact fromBuffer_field 8 r a rest h
    · split at h <;> cases h

end FromBuffer

/-! ## Skipping -/

end Stout.Msgpack
