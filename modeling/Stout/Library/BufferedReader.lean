import Mathlib

/-! # A buffered reader

A source hands out its elements in pieces of its own choice: a read gets at least one
element if there is one left, and possibly fewer than it asked for. The reader keeps
what it has read and not yet given away; a read that asks for at least the size of the
buffer while the buffer is empty goes past it.
-/
namespace Stout.Buffered
variable {α : Type*}

/-- What is still to come, and how many elements the next reads get at most; when the
numbers run out a read gets all it asks for. -/
structure Source (α : Type*) where
  rest : List α
  pieces : List ℕ

/-- A read with room for `n` elements; `none` at the end. -/
def Source.read (s : Source α) (n : ℕ) : Option (List α × Source α) :=
  match s.rest with
  | [] => none
  | _ :: _ =>
    let k := min n (max 1 (s.pieces.headD n))
    some (s.rest.take k,⟨s.rest.drop k,s.pieces.tail⟩)

structure Reader (α : Type*) where
  buf : List α
  src : Source α

def Reader.pending (r : Reader α) : List α := r.buf ++ r.src.rest

/-- A read with room for `n` elements, over a buffer of the given size. -/
def Reader.read (size : ℕ) (r : Reader α) (n : ℕ) : Option (List α × Reader α) :=
  match r.buf with
  | [] =>
    if size ≤ n then (r.src.read n).map fun p => (p.1,⟨[],p.2⟩)
    else (r.src.read size).map fun p => (p.1.take n,⟨p.1.drop n,p.2⟩)
  | _ :: _ => some (r.buf.take n,⟨r.buf.drop n,r.src⟩)

/-- How many elements a read can get at once without going past the buffer. -/
def Reader.ready (size : ℕ) (r : Reader α) : ℕ :=
  match r.buf with
  | [] => ((r.src.read size).elim [] Prod.fst).length
  | _ :: _ => r.buf.length

/-- Reads through a window of `chunk` elements until `n` have come or the end; the
elements, whether they are all, and the reader after them. -/
def Reader.copyLoop (size chunk : ℕ) : ℕ → ℕ → Reader α → List α × Bool × Reader α
  | 0, n, r => ([],n == 0,r)
  | fuel + 1, n, r =>
    if n = 0 then ([],true,r)
    else match r.read size (min n chunk) with
      | none => ([],false,r)
      | some (b,r') =>
        let (out,complete,r'') := r'.copyLoop size chunk fuel (n - b.length)
        (b ++ out,complete,r'')

/-- Every read brings something, so `n` reads are enough. -/
def Reader.copyN (size chunk : ℕ) (n : ℕ) (r : Reader α) : List α × Bool × Reader α := r.copyLoop size chunk n n

theorem Source.read_eq_none {s : Source α} {n : ℕ} : s.read n = none ↔ s.rest = [] := by
  unfold Source.read
  split
  · rename_i h
    simp [h]
  · rename_i h
    simp [h]

theorem Source.read_some {s t : Source α} {n : ℕ} {b : List α} (hn : 0 < n) (h : s.read n = some (b,t)) :
    b ≠ [] ∧ b.length ≤ n ∧ b ++ t.rest = s.rest := by
  unfold Source.read at h
  split at h
  · cases h
  · rename_i x xs hs
    cases h
    have hk : 0 < min n (max 1 (s.pieces.headD n)) := by omega
    refine ⟨?_,?_,List.take_append_drop _ _⟩
    · rw [hs, Ne, List.take_eq_nil_iff]
      simp only [reduceCtorEq, or_false]
      omega
    · rw [List.length_take]
      omega

theorem Reader.read_eq_none {size n : ℕ} {r : Reader α} : r.read size n = none ↔ r.pending = [] := by
  unfold Reader.read Reader.pending
  split
  · rename_i hb
    rw [hb, List.nil_append]
    split <;> rw [Option.map_eq_none_iff, Source.read_eq_none]
  · rename_i hb
    simp [hb]

theorem Reader.read_some {size n : ℕ} {r t : Reader α} {b : List α} (hs : 0 < size) (hn : 0 < n)
    (h : r.read size n = some (b,t)) : b ≠ [] ∧ b.length ≤ n ∧ b ++ t.pending = r.pending := by
  unfold Reader.read at h
  unfold Reader.pending
  split at h
  · rename_i hb
    rw [hb, List.nil_append]
    split at h
    · obtain ⟨⟨c,u⟩,hc,he⟩ := Option.map_eq_some_iff.mp h
      cases he
      exact Source.read_some hn hc
    · obtain ⟨⟨c,u⟩,hc,he⟩ := Option.map_eq_some_iff.mp h
      cases he
      obtain ⟨hne,-,hr⟩ := Source.read_some hs hc
      refine ⟨?_,?_,?_⟩
      · rw [Ne, List.take_eq_nil_iff]
        rintro (h0 | h0)
        · omega
        · exact hne h0
      · rw [List.length_take]
        omega
      · rw [← hr, ← List.append_assoc, List.take_append_drop]
  · rename_i x xs hb
    cases h
    refine ⟨?_,?_,?_⟩
    · rw [hb, Ne, List.take_eq_nil_iff]
      simp only [reduceCtorEq, or_false]
      omega
    · rw [List.length_take]
      omega
    · rw [← List.append_assoc, List.take_append_drop]

theorem Reader.read_length {size n : ℕ} {r t : Reader α} {b : List α} (hn : n < size)
    (h : r.read size n = some (b,t)) : b.length = min n (r.ready size) := by
  unfold Reader.read at h
  unfold Reader.ready
  split at h
  · rw [if_neg (by omega)] at h
    obtain ⟨⟨c,u⟩,hc,he⟩ := Option.map_eq_some_iff.mp h
    cases he
    simp [hc]
  · rename_i x xs hb
    cases h
    simp [hb]

/-- Whatever the pieces, `n` elements are copied if there are as many. -/
theorem Reader.copyLoop_eq {size chunk : ℕ} (hs : 0 < size) (hc : 0 < chunk) {fuel n : ℕ} {r : Reader α} (hf : n ≤ fuel) :
    (r.copyLoop size chunk fuel n).1 = r.pending.take n ∧
      (r.copyLoop size chunk fuel n).2.1 = decide (n ≤ r.pending.length) ∧
      (r.copyLoop size chunk fuel n).2.2.pending = r.pending.drop n := by
  induction fuel generalizing n r with
  | zero =>
    have hn : n = 0 := by omega
    subst hn
    simp [copyLoop]
  | succ fuel ih =>
    unfold copyLoop
    split
    · rename_i hn
      subst hn
      simp
    · rename_i hn
      split
      · rename_i hr
        have hp := read_eq_none.mp hr
        rw [hp]
        simp
        omega
      · rename_i b t hr
        obtain ⟨hne,hlen,hp⟩ := read_some hs (by omega) hr
        have hpos : 0 < b.length := List.length_pos_iff.mpr hne
        obtain ⟨h1,h2,h3⟩ := ih (n := n - b.length) (r := t) (by omega)
        dsimp only
        rw [h1, h2, h3, ← hp]
        refine ⟨?_,?_,?_⟩
        · rw [List.take_append, List.take_of_length_le (by omega : b.length ≤ n)]
        · rw [List.length_append]
          congr 1
          rw [eq_iff_iff]
          omega
        · rw [List.drop_append, List.drop_of_length_le (by omega : b.length ≤ n), List.nil_append]

theorem Reader.copyN_eq {size chunk : ℕ} (hs : 0 < size) (hc : 0 < chunk) (n : ℕ) (r : Reader α) :
    (r.copyN size chunk n).1 = r.pending.take n ∧ (r.copyN size chunk n).2.1 = decide (n ≤ r.pending.length) ∧
      (r.copyN size chunk n).2.2.pending = r.pending.drop n :=
  copyLoop_eq hs hc le_rfl

end Stout.Buffered
