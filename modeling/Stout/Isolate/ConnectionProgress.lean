import Stout.Isolate.ConnectionStream
import Stout.Library.MsgpackStreamProgress

/-! # The loop ends

Each turn of `HandleConn` takes the head of a frame, which is three bytes at least, and
nothing is ever put back, so a connection that ends is closed after a bounded number of
turns, whatever was sent on it and however it arrives.
-/
namespace Stout.Isolate
open Msgpack

theorem next_taken {r rest : Bytes} {head : Bool × ℕ × ℕ} (h : next r = .ok head rest) : rest.length + 3 ≤ r.length := by
  have hok {α : Type} {f : Bytes → Read α} {r s : Bytes} {a : α} (h : reading f r = .ok a s) : f r = (.ok a,s) := by
    unfold reading at h
    rcases hf : f r with ⟨e | b,t⟩ <;> rw [hf] at h <;> cases h
    rfl
  unfold next at h
  cases h₁ : reading readArrayHeader r with
  | error e s =>
    rw [bind_error h₁] at h
    cases h
  | ok sz s =>
    rw [bind_ok h₁] at h
    cases h₂ : reading readUint64 s with
    | error e t =>
      rw [bind_error h₂] at h
      cases h
    | ok channel t =>
      rw [bind_ok h₂] at h
      cases h₃ : reading readUint64 t with
      | error e u =>
        rw [bind_error h₃] at h
        cases h
      | ok c u =>
        rw [bind_ok h₃] at h
        cases h
        have := readArrayHeader_taken (hok h₁)
        have := readUint64_taken (hok h₂)
        have := readUint64_taken (hok h₃)
        omega

namespace Conn
open Msgpack.Stream (size)

theorem shrinks_reading {α : Type} {f : Stream.M α} (h : Shrinks size f) : Shrinks size (reading f) := by
  intro r
  have hr := h r
  unfold reading
  cases hf : f r <;> rw [hf] at hr <;> exact hr

theorem shrinks_checkSize (num : ℕ) : Shrinks size (checkSize num) :=
  (shrinks_reading Stream.shrinks_readArrayHeader).bind fun _ => .ite (.throw _) (.pure _)

theorem shrinks_readPairs (i : ℕ) (mp : List (Bytes × Bytes)) : Shrinks size (readPairs i mp) := by
  induction i generalizing mp with
  | zero => exact .pure mp
  | succ i ih =>
    exact (shrinks_reading Stream.shrinks_readString).bind fun _ =>
      (shrinks_reading Stream.shrinks_readString).bind fun _ => ih _

theorem shrinks_readMapStrStr : Shrinks size readMapStrStr :=
  (shrinks_reading Stream.shrinks_readMapHeader).bind fun sz => shrinks_readPairs sz []

theorem shrinks_readProfile : Shrinks size readProfile :=
  (shrinks_reading Stream.shrinks_nextType).bind fun _ => .ite (.throw _) (shrinks_reading Stream.shrinks_copyNext)

theorem shrinks_readSpool : Shrinks size readSpool :=
  (shrinks_checkSize _).bind fun _ => shrinks_readProfile.bind fun _ =>
    (shrinks_reading Stream.shrinks_readString).bind fun _ => .pure _

theorem shrinks_readSpawn : Shrinks size readSpawn :=
  (shrinks_checkSize _).bind fun _ => shrinks_readProfile.bind fun _ => (shrinks_reading Stream.shrinks_readString).bind fun _ =>
    (shrinks_reading Stream.shrinks_readString).bind fun _ => shrinks_readMapStrStr.bind fun _ =>
      shrinks_readMapStrStr.bind fun _ => .pure _

theorem skip_size (r : Stream) : (skip r).size ≤ r.size := by
  have hr := Stream.shrinks_skip r
  unfold skip
  cases hs : Stream.skip r <;> rw [hs] at hr <;> exact hr

theorem handle_size (boxes : Bytes → Bool) (d : Dispatcher) (id : ℕ) (r : Stream) :
    (handle boxes d id r).reader.size ≤ r.size := by
  cases d with
  | initialDispatch stream =>
    rcases id with _ | _ | id
    · have hr := shrinks_readSpool r
      rw [handle]
      cases hread : readSpool r <;> rw [hread] at hr <;> exact hr
    · have hr := shrinks_readSpawn r
      rw [handle]
      cases hread : readSpawn r <;> rw [hread] at hr <;> exact hr
    · exact le_rfl
  | spoolCancelationDispatch _ | spawnDispatch _ =>
    cases id with
    | zero => exact skip_size r
    | succ id => exact le_rfl

theorem skipHeaders_size (hasHeaders : Bool) (r : Stream) : (skipHeaders hasHeaders r).size ≤ r.size := by
  unfold skipHeaders
  split
  · exact skip_size r
  · exact le_rfl

/-- The head is read as it is from the list of the bytes, however they arrive. -/
theorem next_size {r t : Stream} {head : Bool × ℕ × ℕ} (h : next r = .ok head t) : t.size + 3 ≤ r.size := by
  have hs := follows_next r r.pending (show Holds 0 r r.pending from ⟨rfl,Nat.zero_le _⟩)
  rw [h] at hs
  generalize hn : Isolate.next r.pending = x at hs
  cases hs with
  | ok hR =>
    have htaken := next_taken hn
    rw [← hR.1] at htaken
    exact htaken

theorem turn_size {boxes : Bytes → Bool} {h h' : Handler} {r t : Stream} (ht : (turn boxes h r).2 = some (h',t)) :
    t.size + 3 ≤ r.size := by
  unfold turn at ht
  cases hn : next r with
  | error e s =>
    rw [hn] at ht
    cases ht
  | ok head s =>
    have htaken := next_size hn
    obtain ⟨hasHeaders,channel,c⟩ := head
    rw [hn] at ht
    dsimp only at ht
    cases hd : h.dispatcher channel with
    | none =>
      rw [hd] at ht
      cases ht
      have := skipHeaders_size hasHeaders (skip s)
      have := skip_size s
      omega
    | some p =>
      rw [hd] at ht
      obtain ⟨h₂,-,he⟩ := Option.map_eq_some_iff.mp ht
      cases he
      have := skipHeaders_size hasHeaders (handle boxes p.1 c s).reader
      have := handle_size boxes p.1 c s
      omega

end Conn

/-- On any bytes, in any pieces and through any buffer, with any dispatchers, the loop is over
after a turn for each three bytes and one more. -/
theorem conversation_ends (boxes : Bytes → Bool) (schedule : List (List ℕ)) (h : Handler) (r : Stream) :
    (Conn.conversation boxes schedule h r).length ≤ r.pending.length / 3 + 1 := by
  change _ ≤ r.size / 3 + 1
  induction schedule generalizing h r with
  | nil => exact Nat.zero_le _
  | cons detached later ih =>
    unfold Conn.conversation
    dsimp only
    cases ht : (Conn.turn boxes (detached.foldl Handler.detach h) r).2 with
    | none => simp
    | some p =>
      have htaken := Conn.turn_size ht
      have hrest := ih p.1 p.2
      rw [List.length_cons]
      dsimp only
      omega

end Stout.Isolate
