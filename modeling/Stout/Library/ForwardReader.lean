import Stout.Library.BufferedReader

/-! # A reader that looks ahead

A buffered reader whose buffer grows when more is asked for than it holds. `peek` looks
at the next elements, `next` takes them, `skip` drops them and `readFull` copies them
out. A read into a full buffer gets nothing and counts as no progress.
-/
namespace Stout.Forward
open Buffered (Source)
variable {α : Type*}

inductive Err where
  | eof
  | unexpectedEOF
  | noProgress
deriving DecidableEq, Repr

/-- In the middle of something the end is unexpected. -/
def Err.noEOF : Err → Err
  | .eof => .unexpectedEOF
  | e => e

/-- What is buffered, what is behind it, and the size of the buffer. -/
structure Reader (α : Type*) extends Buffered.Reader α where
  cap : ℕ
  fits : buf.length ≤ cap

theorem length_read_le {s t : Source α} {n : ℕ} {b : List α} (h : s.read n = some (b,t)) : b.length ≤ n := by
  unfold Source.read at h
  split at h
  · cases h
  · cases h
    rw [List.length_take]
    omega

/-- One read of the source into the free part of the buffer, and the error it sets. -/
def Reader.more (r : Reader α) : Option Err × Reader α :=
  if r.cap - r.buf.length = 0 then (some .noProgress,r)
  else match h : r.src.read (r.cap - r.buf.length) with
    | none => (some .eof,r)
    | some (b,src) => (none,⟨⟨r.buf ++ b,src⟩,r.cap,by
        have hb := length_read_le h
        have hr := r.fits
        rw [List.length_append]
        omega⟩)

/-- Reads until `n` elements are buffered or there is an error; each read brings an
element, so `n` reads are enough. -/
def Reader.fillLoop : ℕ → ℕ → Reader α → Option Err × Reader α
  | 0, _, r => (none,r)
  | fuel + 1, n, r =>
    if r.buf.length < n then
      match r.more with
      | (none,r) => fillLoop fuel n r
      | (some e,r) => (some e,r)
    else (none,r)

def Reader.fill (n : ℕ) (r : Reader α) : Option Err × Reader α := r.fillLoop n n

def Reader.grow (n : ℕ) (r : Reader α) : Reader α :=
  if r.cap < n then ⟨r.toReader,n + r.buf.length,Nat.le_add_left ..⟩ else r

def Reader.drop (n : ℕ) (r : Reader α) : Reader α :=
  ⟨⟨r.buf.drop n,r.src⟩,r.cap,by
    have hr := r.fits
    rw [List.length_drop]
    omega⟩

/-- The next `n` elements, which stay where they are. -/
def Reader.peek (n : ℕ) (r : Reader α) : Except Err (List α) × Reader α :=
  match (r.grow n).fill n with
  | (none,r) => (.ok (r.buf.take n),r)
  | (some e,r) => (.error e,r)

/-- The next `n` elements. If they have not all come, the reader stays where it is. -/
def Reader.next (n : ℕ) (r : Reader α) : Except Err (List α) × Reader α :=
  match (r.grow n).fill n with
  | (none,r) => (.ok (r.buf.take n),r.drop n)
  | (some e,r) => (.error e.noEOF,r)

/-- Fills the buffer and drops what has come until `n` elements are dropped. -/
def Reader.skipLoop : ℕ → ℕ → Reader α → Except Err Unit × Reader α
  | 0, _, r => (.ok (),r)
  | fuel + 1, n, r =>
    if r.buf.length < n then
      match r.more with
      | (none,r) => skipLoop fuel (n - min r.buf.length n) (r.drop (min r.buf.length n))
      | (some e,r) => (.error e.noEOF,r.drop (min r.buf.length n))
    else (.ok (),r)

def Reader.skip (n : ℕ) (r : Reader α) : Except Err Unit × Reader α :=
  if n ≤ r.buf.length then (.ok (),r.drop n) else r.skipLoop n n

/-- What is buffered is copied out; more than the buffer can hold is read past it. Each
turn copies an element or fills an empty buffer, which bounds the fuel. -/
def Reader.readFullLoop : ℕ → ℕ → List α → Reader α → Except Err (List α) × Reader α
  | 0, _, out, r => (.ok out,r)
  | fuel + 1, n, out, r =>
    if n = 0 then (.ok out,r)
    else if r.buf ≠ [] then readFullLoop fuel (n - min n r.buf.length) (out ++ r.buf.take n) (r.drop (min n r.buf.length))
    else if r.cap < n then
      match r.src.read n with
      | none => (.error .unexpectedEOF,r)
      | some (b,src) => readFullLoop fuel (n - b.length) (out ++ b) ⟨⟨r.buf,src⟩,r.cap,r.fits⟩
    else
      match r.more with
      | (none,r) => readFullLoop fuel n out r
      | (some e,r) => (.error e.noEOF,r)

def Reader.readFull (n : ℕ) (r : Reader α) : Except Err (List α) × Reader α := r.readFullLoop (2 * n) n []

theorem length_buf_read {size n : ℕ} {r t : Buffered.Reader α} {b : List α} (h : r.read size n = some (b,t))
    (hr : r.buf.length ≤ size) : t.buf.length ≤ size := by
  unfold Buffered.Reader.read at h
  split at h
  · split at h
    · obtain ⟨p,-,he⟩ := Option.map_eq_some_iff.mp h
      cases he
      exact Nat.zero_le _
    · obtain ⟨p,hp,he⟩ := Option.map_eq_some_iff.mp h
      cases he
      have hlen := length_read_le hp
      simp only [List.length_drop]
      omega
  · cases h
    simp only [List.length_drop]
    omega

theorem length_buf_copyLoop {size chunk fuel n : ℕ} {r : Buffered.Reader α} (hr : r.buf.length ≤ size) :
    (r.copyLoop size chunk fuel n).2.2.buf.length ≤ size := by
  induction fuel generalizing n r with
  | zero => exact hr
  | succ fuel ih =>
    rw [Buffered.Reader.copyLoop]
    split
    · exact hr
    split
    · exact hr
    · rename_i b t h
      exact ih (length_buf_read h hr)

/-- Reads through a window until `n` elements have come or the end; the elements, and
whether they are all. -/
def Reader.copyN (chunk n : ℕ) (r : Reader α) : List α × Bool × Reader α :=
  let p := r.toReader.copyN r.cap chunk n
  (p.1,p.2.1,⟨p.2.2,r.cap,length_buf_copyLoop r.fits⟩)

/-! ## One read -/

section Step
variable {r : Reader α}

@[simp] theorem Reader.drop_cap (n : ℕ) : (r.drop n).cap = r.cap := rfl

theorem Reader.pending_drop {n : ℕ} (h : n ≤ r.buf.length) : (r.drop n).pending = r.pending.drop n := by
  simp [drop, Buffered.Reader.pending, List.drop_append, Nat.sub_eq_zero_of_le h]

theorem Reader.pending_length (r : Reader α) : r.pending.length = r.buf.length + r.src.rest.length := List.length_append

theorem Reader.take_buf {n : ℕ} (h : n ≤ r.buf.length) : r.buf.take n = r.pending.take n :=
  (List.take_append_of_le_length h).symm

theorem Reader.more_read {b : List α} {src : Source α} (hroom : r.buf.length < r.cap)
    (h : r.src.read (r.cap - r.buf.length) = some (b,src)) :
    ∃ t : Reader α, r.more = (none,t) ∧ t.toReader = ⟨r.buf ++ b,src⟩ ∧ t.cap = r.cap := by
  unfold more
  rw [if_neg (by omega)]
  split
  · rename_i h'
    rw [h] at h'
    cases h'
  · rename_i b' src' h'
    rw [h] at h'
    cases h'
    exact ⟨_,rfl,rfl,rfl⟩

theorem Reader.more_cases (r : Reader α) :
    (r.buf.length = r.cap ∧ r.more = (some .noProgress,r)) ∨
    (r.buf.length < r.cap ∧ r.src.rest = [] ∧ r.more = (some .eof,r)) ∨
    ∃ t : Reader α, r.more = (none,t) ∧ r.buf.length < t.buf.length ∧ t.cap = r.cap ∧ t.pending = r.pending := by
  have hfits := r.fits
  by_cases hroom : r.buf.length < r.cap
  · right
    cases hread : r.src.read (r.cap - r.buf.length) with
    | none =>
      left
      refine ⟨hroom,Buffered.Source.read_eq_none.mp hread,?_⟩
      unfold more
      rw [if_neg (by omega)]
      split
      · rfl
      · rename_i h
        rw [hread] at h
        cases h
    | some p =>
      right
      obtain ⟨t,hm,ht,hcap⟩ := more_read hroom hread
      obtain ⟨hne,-,hrest⟩ := Buffered.Source.read_some (by omega) hread
      refine ⟨t,hm,?_,hcap,?_⟩
      · have hpos := List.length_pos_iff.mpr hne
        rw [ht, List.length_append]
        omega
      · rw [ht, Buffered.Reader.pending, Buffered.Reader.pending, List.append_assoc, hrest]
  · left
    refine ⟨by omega,?_⟩
    unfold more
    rw [if_pos (by omega)]

end Step

/-! ## What the methods do

Each method is a function of the elements still to come, however they arrive. -/

/-- The elements to come after a method; the buffer is not smaller. -/
structure Reader.Leads (r t : Reader α) (rest : List α) : Prop where
  pending : t.pending = rest
  cap : r.cap ≤ t.cap

theorem Reader.fillLoop_spec {fuel n : ℕ} {r : Reader α} (hn : n ≤ r.cap) (hf : n ≤ r.buf.length + fuel) :
    ∃ t : Reader α, t.cap = r.cap ∧ t.pending = r.pending ∧
      (n ≤ r.pending.length ∧ n ≤ t.buf.length ∧ r.fillLoop fuel n = (none,t) ∨
        r.pending.length < n ∧ r.fillLoop fuel n = (some .eof,t)) := by
  induction fuel generalizing r with
  | zero =>
    have hlen := r.pending_length
    exact ⟨r,rfl,rfl,Or.inl ⟨by omega,by omega,rfl⟩⟩
  | succ fuel ih =>
    have hlen := r.pending_length
    rw [fillLoop]
    split
    · rename_i hlt
      rcases r.more_cases with ⟨hfull,hm⟩ | ⟨-,hend,hm⟩ | ⟨t,hm,hgt,hcap,hp⟩
      · omega
      · rw [hend, List.length_nil] at hlen
        simp only [hm]
        exact ⟨r,rfl,rfl,Or.inr ⟨by omega,rfl⟩⟩
      · simp only [hm]
        rw [← hp, ← hcap]
        exact ih (by omega) (by omega)
    · exact ⟨r,rfl,rfl,Or.inl ⟨by omega,by omega,rfl⟩⟩

theorem Reader.grow_spec (n : ℕ) (r : Reader α) :
    n ≤ (r.grow n).cap ∧ r.cap ≤ (r.grow n).cap ∧ (r.grow n).pending = r.pending := by
  unfold grow
  split
  · refine ⟨?_,?_,rfl⟩
    · dsimp only
      omega
    · dsimp only
      omega
  · exact ⟨by omega,le_rfl,rfl⟩

theorem Reader.fill_grow (n : ℕ) (r : Reader α) :
    ∃ t : Reader α, r.Leads t r.pending ∧
      (n ≤ r.pending.length ∧ n ≤ t.buf.length ∧ (r.grow n).fill n = (none,t) ∨
        r.pending.length < n ∧ (r.grow n).fill n = (some .eof,t)) := by
  obtain ⟨hn,hcap,hp⟩ := r.grow_spec n
  obtain ⟨t,htcap,htp,hcases⟩ := fillLoop_spec hn (Nat.le_add_left n _)
  rw [hp] at htp hcases
  exact ⟨t,⟨htp,htcap ▸ hcap⟩,hcases⟩

theorem Reader.peek_ok {n : ℕ} {r : Reader α} (h : n ≤ r.pending.length) :
    ∃ t, r.peek n = (.ok (r.pending.take n),t) ∧ r.Leads t r.pending ∧ n ≤ t.buf.length := by
  obtain ⟨t,ht,⟨-,hb,hf⟩ | ⟨hlt,-⟩⟩ := r.fill_grow n
  · refine ⟨t,?_,ht,hb⟩
    simp only [peek, hf, take_buf hb, ht.pending]
  · omega

theorem Reader.peek_eof {n : ℕ} {r : Reader α} (h : r.pending.length < n) :
    ∃ t, r.peek n = (.error .eof,t) ∧ r.Leads t r.pending := by
  obtain ⟨t,ht,⟨hle,-⟩ | ⟨-,hf⟩⟩ := r.fill_grow n
  · omega
  · refine ⟨t,?_,ht⟩
    simp only [peek, hf]

theorem Reader.fill_buffered {n : ℕ} {r : Reader α} (h : n ≤ r.buf.length) : (r.grow n).fill n = (none,r) := by
  have hfits := r.fits
  rw [grow, if_neg (by omega), fill]
  cases n with
  | zero => rfl
  | succ n => rw [fillLoop, if_neg (by omega)]

theorem Reader.peek_buffered {n : ℕ} {r : Reader α} (h : n ≤ r.buf.length) : r.peek n = (.ok (r.buf.take n),r) := by
  simp only [peek, fill_buffered h]

theorem Reader.next_buffered {n : ℕ} {r : Reader α} (h : n ≤ r.buf.length) :
    r.next n = (.ok (r.buf.take n),r.drop n) := by
  simp only [next, fill_buffered h]

theorem Reader.next_ok {n : ℕ} {r : Reader α} (h : n ≤ r.pending.length) :
    ∃ t, r.next n = (.ok (r.pending.take n),t) ∧ r.Leads t (r.pending.drop n) := by
  obtain ⟨t,ht,⟨-,hb,hf⟩ | ⟨hlt,-⟩⟩ := r.fill_grow n
  · refine ⟨t.drop n,?_,?_,ht.cap⟩
    · simp only [next, hf, take_buf hb, ht.pending]
    · rw [pending_drop hb, ht.pending]
  · omega

theorem Reader.next_eof {n : ℕ} {r : Reader α} (h : r.pending.length < n) :
    ∃ t, r.next n = (.error .unexpectedEOF,t) ∧ r.Leads t r.pending := by
  obtain ⟨t,ht,⟨hle,-⟩ | ⟨-,hf⟩⟩ := r.fill_grow n
  · omega
  · refine ⟨t,?_,ht⟩
    simp only [next, hf, Err.noEOF]

/-! ## Skipping -/

theorem Reader.skipLoop_spec {fuel n : ℕ} {r : Reader α} (hf : n ≤ fuel) (hroom : r.buf.length < n → r.buf.length < r.cap)
    (hbuf : r.buf.length < n ∨ n = 0) :
    ∃ t, r.skipLoop fuel n = (if n ≤ r.pending.length then .ok () else .error .unexpectedEOF,t) ∧
      r.Leads t (r.pending.drop n) := by
  induction fuel generalizing n r with
  | zero =>
    obtain rfl : n = 0 := by omega
    exact ⟨r,by simp [skipLoop],rfl,le_rfl⟩
  | succ fuel ih =>
    rw [skipLoop]
    split
    · rename_i hlt
      rcases r.more_cases with ⟨hfull,-⟩ | ⟨-,hend,hm⟩ | ⟨t,hm,hgt,hcap,hp⟩
      · have := hroom hlt
        omega
      · have hlen : r.pending.length = r.buf.length := by simp [pending_length, hend]
        refine ⟨r.drop (min r.buf.length n),?_,?_,le_rfl⟩
        · rw [if_neg (by omega)]
          simp only [hm, Err.noEOF]
        · rw [pending_drop (Nat.min_le_left ..), List.drop_of_length_le (by omega), List.drop_of_length_le (by omega)]
      · simp only [hm]
        have hk : min t.buf.length n ≤ t.buf.length := Nat.min_le_left ..
        have hlen : t.pending.length = t.buf.length + t.src.rest.length := t.pending_length
        have hdrop : (t.drop (min t.buf.length n)).buf.length = t.buf.length - min t.buf.length n := List.length_drop
        have hfits := t.fits
        obtain ⟨u,hu,hlead⟩ := ih (n := n - min t.buf.length n) (r := t.drop (min t.buf.length n)) (by omega)
          (by rw [hdrop, drop_cap]; omega) (by rw [hdrop]; omega)
        rw [pending_drop hk, hp, List.length_drop, List.drop_drop] at *
        refine ⟨u,?_,?_,?_⟩
        · rw [hu]
          congr 1
          have : (n - min t.buf.length n ≤ r.pending.length - min t.buf.length n) ↔ n ≤ r.pending.length := by
            rw [← hp]
            omega
          simp only [this]
        · rw [hlead.pending]
          congr 1
          omega
        · exact hcap ▸ hlead.cap
    · obtain rfl : n = 0 := by omega
      exact ⟨r,by simp,rfl,le_rfl⟩

theorem Reader.skip_spec {n : ℕ} {r : Reader α} (h : n ≤ r.buf.length ∨ r.buf.length < r.cap) :
    ∃ t, r.skip n = (if n ≤ r.pending.length then .ok () else .error .unexpectedEOF,t) ∧
      r.Leads t (r.pending.drop n) := by
  unfold skip
  split
  · rename_i hle
    have hlen := r.pending_length
    refine ⟨r.drop n,?_,pending_drop hle,le_rfl⟩
    rw [if_pos (by omega)]
  · rename_i hlt
    exact skipLoop_spec le_rfl (by omega) (by omega)

def full (n : ℕ) (out pending : List α) : Except Err (List α) :=
  if n ≤ pending.length then .ok (out ++ pending.take n) else .error .unexpectedEOF

theorem full_append {n : ℕ} {p : List α} (hp : p.length ≤ n) (out rest : List α) :
    full (n - p.length) (out ++ p) rest = full n out (p ++ rest) := by
  have hiff : n - p.length ≤ rest.length ↔ n ≤ (p ++ rest).length := by
    rw [List.length_append]
    omega
  simp only [full, hiff, List.take_append, List.take_of_length_le hp, List.append_assoc]

theorem Reader.Leads.append {r s t : Reader α} {n : ℕ} {p : List α} (hp : p.length ≤ n) (hr : r.pending = p ++ s.pending)
    (hcap : r.cap ≤ s.cap) (h : s.Leads t (s.pending.drop (n - p.length))) : r.Leads t (r.pending.drop n) := by
  refine ⟨?_,hcap.trans h.cap⟩
  rw [h.pending, hr, List.drop_append, List.drop_of_length_le hp, List.nil_append]

theorem Reader.readFullLoop_spec {fuel n : ℕ} {out : List α} {r : Reader α}
    (hf : 2 * n ≤ fuel + if r.buf = [] then 0 else 1) :
    ∃ t, r.readFullLoop fuel n out = (full n out r.pending,t) ∧ r.Leads t (r.pending.drop n) := by
  induction fuel generalizing n out r with
  | zero =>
    obtain rfl : n = 0 := by split at hf <;> omega
    exact ⟨r,by simp [readFullLoop, full],rfl,le_rfl⟩
  | succ fuel ih =>
    rw [readFullLoop]
    split
    · rename_i hn
      subst hn
      exact ⟨r,by simp [full],rfl,le_rfl⟩
    rename_i hn
    split
    · -- what is buffered
      rename_i hb
      have hpos := List.length_pos_iff.mpr hb
      have hk : (r.buf.take n).length = min n r.buf.length := List.length_take
      have hsplit : r.pending = r.buf.take n ++ (r.drop (min n r.buf.length)).pending := by
        rw [pending_drop (Nat.min_le_right ..), List.take_eq_take_min, take_buf (Nat.min_le_right ..), List.take_append_drop]
      rw [if_neg hb] at hf
      obtain ⟨t,ht,hlead⟩ := @ih (n - min n r.buf.length) (out ++ r.buf.take n)
        (r.drop (min n r.buf.length)) (by split <;> omega)
      rw [← hk] at hsplit ht hlead ⊢
      rw [full_append (by omega), ← hsplit] at ht
      exact ⟨t,ht,.append (by omega) hsplit le_rfl hlead⟩
    rename_i hb
    rw [not_not] at hb
    rw [if_pos hb] at hf
    split
    · -- past the buffer
      split
      · rename_i hr
        have hend : r.pending = [] := by simp [Buffered.Reader.pending, hb, Buffered.Source.read_eq_none.mp hr]
        refine ⟨r,?_,?_,le_rfl⟩
        · rw [full, if_neg (by rw [hend, List.length_nil]; omega)]
        · simp [hend]
      · rename_i b src hr
        obtain ⟨hne,hle,hrest⟩ := Buffered.Source.read_some (by omega) hr
        have hpos := List.length_pos_iff.mpr hne
        obtain ⟨t,ht,hlead⟩ := @ih (n - b.length) (out ++ b) ⟨⟨r.buf,src⟩,r.cap,r.fits⟩ (by
          simp only [hb, if_true]
          omega)
        have hsplit : r.pending = b ++ (⟨⟨r.buf,src⟩,r.cap,r.fits⟩ : Reader α).pending := by
          simp [Buffered.Reader.pending, hb, hrest]
        rw [full_append hle, ← hsplit] at ht
        exact ⟨t,ht,.append hle hsplit le_rfl hlead⟩
    · rcases r.more_cases with ⟨hfull,-⟩ | ⟨-,hend,hm⟩ | ⟨t,hm,hgt,hcap,hp⟩
      · rw [hb, List.length_nil] at hfull
        omega
      · have hend : r.pending = [] := by simp [Buffered.Reader.pending, hb, hend]
        refine ⟨r,?_,?_,le_rfl⟩
        · rw [full, if_neg (by rw [hend, List.length_nil]; omega)]
          simp only [hm, Err.noEOF]
        · simp [hend]
      · have hne : t.buf ≠ [] := List.ne_nil_of_length_pos (by omega)
        obtain ⟨u,hu,hlead⟩ := @ih n out t (by rw [if_neg hne]; omega)
        simp only [hm]
        rw [hp] at hu hlead
        exact ⟨u,hu,hlead.pending,hcap ▸ hlead.cap⟩

theorem Reader.copyN_spec {chunk : ℕ} {r : Reader α} (hr : 0 < r.cap) (hc : 0 < chunk) (n : ℕ) :
    (r.copyN chunk n).1 = r.pending.take n ∧ (r.copyN chunk n).2.1 = decide (n ≤ r.pending.length) ∧
      r.Leads (r.copyN chunk n).2.2 (r.pending.drop n) := by
  obtain ⟨h1,h2,h3⟩ := Buffered.Reader.copyN_eq hr hc n r.toReader
  exact ⟨h1,h2,h3,le_rfl⟩

theorem Reader.readFull_spec (n : ℕ) (r : Reader α) :
    ∃ t, r.readFull n = (full n [] r.pending,t) ∧ r.Leads t (r.pending.drop n) :=
  readFullLoop_spec (Nat.le_add_right ..)

end Stout.Forward
