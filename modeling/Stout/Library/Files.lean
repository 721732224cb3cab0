import Mathlib

/-! # Files under names

A file has a number; a name stands for a file, and two names may stand for the same
one. Creating a name that stands for a file empties that file.
-/
namespace Stout

structure Files (N B : Type) where
  name : N → Option ℕ
  file : ℕ → List B
  next : ℕ
  bound : ∀ n i, name n = some i → i < next

namespace Files
variable {N B : Type} [DecidableEq N]

def empty : Files N B where
  name _ := none
  file _ := []
  next := 0
  bound _ _ h := by cases h

def read (fs : Files N B) (n : N) : Option (List B) := (fs.name n).map fs.file

def Same (fs : Files N B) (m n : N) : Prop := fs.name m = fs.name n

instance (fs : Files N B) (m n : N) : Decidable (fs.Same m n) := inferInstanceAs (Decidable (_ = _))

def write (fs : Files N B) (i : ℕ) (bs : List B) : Files N B := { fs with file := Function.update fs.file i bs }

def add (fs : Files N B) (n : N) (bs : List B) : Files N B where
  name := Function.update fs.name n (some fs.next)
  file := Function.update fs.file fs.next bs
  next := fs.next + 1
  bound m i h := by
    by_cases hm : m = n
    · subst hm
      rw [Function.update_self] at h
      cases h
      exact Nat.lt_succ_self _
    · rw [Function.update_of_ne hm] at h
      exact Nat.lt_succ_of_lt (fs.bound m i h)

/-- The file under the name emptied, or a new empty one. -/
def create (fs : Files N B) (n : N) : Files N B :=
  match fs.name n with
  | some i => fs.write i []
  | none => fs.add n []

def remove (fs : Files N B) (n : N) : Files N B where
  name := Function.update fs.name n none
  file := fs.file
  next := fs.next
  bound m i h := by
    by_cases hm : m = n
    · subst hm
      rw [Function.update_self] at h
      cases h
    · rw [Function.update_of_ne hm] at h
      exact fs.bound m i h

/-- The file of `m` under the name `n`, in place of any that was there. -/
def move (fs : Files N B) (m n : N) : Files N B where
  name := Function.update (Function.update fs.name m none) n (fs.name m)
  file := fs.file
  next := fs.next
  bound k i h := by
    by_cases hn : k = n
    · subst hn
      rw [Function.update_self] at h
      exact fs.bound m i h
    · rw [Function.update_of_ne hn] at h
      by_cases hm : k = m
      · subst hm
        rw [Function.update_self] at h
        cases h
      · rw [Function.update_of_ne hm] at h
        exact fs.bound k i h

theorem read_add_of_ne {fs : Files N B} {m n : N} (h : m ≠ n) (bs : List B) : (fs.add n bs).read m = fs.read m := by
  unfold read add
  dsimp only
  rw [Function.update_of_ne h]
  cases hm : fs.name m with
  | none => rfl
  | some i =>
    have hlt := fs.bound m i hm
    rw [Option.map_some, Option.map_some, Function.update_of_ne (by omega)]

theorem read_create_self (fs : Files N B) (n : N) : (fs.create n).read n = some [] := by
  unfold create
  split
  · rename_i i h
    simp [read, write, h]
  · simp [read, add]

theorem read_create_same {fs : Files N B} {m n : N} (h : fs.Same m n) (hm : (fs.name m).isSome = true) :
    (fs.create n).read m = some [] := by
  unfold create
  split
  · rename_i i hn
    have hmi : fs.name m = some i := Eq.trans h hn
    simp [read, write, hmi]
  · rename_i hn
    have hmn : fs.name m = none := Eq.trans h hn
    rw [hmn] at hm
    cases hm

theorem read_create_other {fs : Files N B} {m n : N} (h : ¬fs.Same m n) : (fs.create n).read m = fs.read m := by
  have hne : m ≠ n := by
    rintro rfl
    exact h rfl
  unfold create
  split
  · rename_i i hn
    unfold read write
    cases hm : fs.name m with
    | none => rfl
    | some j =>
      have hij : j ≠ i := by
        rintro rfl
        exact h (hm.trans hn.symm)
      dsimp only
      rw [Option.map_some, Option.map_some, Function.update_of_ne hij]
  · exact read_add_of_ne hne []

theorem read_remove_self (fs : Files N B) (n : N) : (fs.remove n).read n = none := by
  simp [read, remove]

theorem read_remove_of_ne {fs : Files N B} {m n : N} (h : m ≠ n) : (fs.remove n).read m = fs.read m := by
  simp [read, remove, Function.update_of_ne h]

theorem name_create_isSome (fs : Files N B) (n : N) : ((fs.create n).name n).isSome = true := by
  unfold create
  split
  · rename_i i h
    simp [write, h]
  · simp [add]

theorem name_create_of_ne {fs : Files N B} {m n : N} (h : m ≠ n) : (fs.create n).name m = fs.name m := by
  unfold create
  split
  · rfl
  · simp [add, Function.update_of_ne h]

/-! ## One name for each file -/

/-- The number and the contents of the file that a name stands for. -/
def entry (fs : Files N B) (n : N) : Option (ℕ × List B) := (fs.name n).map fun i => (i,fs.file i)

def Distinct (fs : Files N B) : Prop := ∀ m n i, fs.name m = some i → fs.name n = some i → m = n

section Distinct
variable {fs : Files N B} {k m n : N} {i : ℕ} {bs : List B}

omit [DecidableEq N] in
theorem entry_eq_some {p : ℕ × List B} : fs.entry n = some p ↔ fs.name n = some p.1 ∧ fs.file p.1 = p.2 := by
  rw [entry, Option.map_eq_some_iff]
  constructor
  · rintro ⟨j,hj,rfl⟩
    exact ⟨hj,rfl⟩
  · rintro ⟨hj,hf⟩
    exact ⟨p.1,hj,by rw [hf]⟩

theorem entry_create_self (fs : Files N B) (n : N) : ∃ i, (fs.create n).entry n = some (i,[]) := by
  obtain ⟨i,hi⟩ := Option.isSome_iff_exists.mp (fs.name_create_isSome n)
  have hr := fs.read_create_self n
  rw [read, hi, Option.map_some, Option.some.injEq] at hr
  exact ⟨i,entry_eq_some.mpr ⟨hi,hr⟩⟩

omit [DecidableEq N] in
theorem Distinct.entry_write_of_ne (h : fs.Distinct) (hn : fs.name n = some i) (hne : m ≠ n) (bs : List B) :
    (fs.write i bs).entry m = fs.entry m := by
  unfold entry write
  cases hm : fs.name m with
  | none => rfl
  | some j =>
    have hij : j ≠ i := by
      rintro rfl
      exact hne (h m n j hm hn)
    dsimp only
    rw [Option.map_some, Option.map_some, Function.update_of_ne hij]

omit [DecidableEq N] in
theorem entry_write_self (hn : fs.name n = some i) (bs : List B) : (fs.write i bs).entry n = some (i,bs) :=
  entry_eq_some.mpr ⟨hn,Function.update_self ..⟩

theorem Distinct.entry_create_of_ne (h : fs.Distinct) (hne : m ≠ n) : (fs.create n).entry m = fs.entry m := by
  unfold create
  split
  · rename_i i hn
    exact h.entry_write_of_ne hn hne []
  · unfold entry add
    dsimp only
    rw [Function.update_of_ne hne]
    cases hm : fs.name m with
    | none => rfl
    | some j =>
      have hlt := fs.bound m j hm
      rw [Option.map_some, Option.map_some, Function.update_of_ne (by omega)]

theorem entry_remove_of_ne (hne : m ≠ n) : (fs.remove n).entry m = fs.entry m := by
  simp [entry, remove, Function.update_of_ne hne]

theorem entry_move_of_ne (hm : k ≠ m) (hn : k ≠ n) : (fs.move m n).entry k = fs.entry k := by
  simp [entry, move, Function.update_of_ne hm, Function.update_of_ne hn]

theorem entry_move_self (fs : Files N B) (m n : N) : (fs.move m n).entry n = fs.entry m := by
  simp [entry, move]

theorem Distinct.create (h : fs.Distinct) (n : N) : (fs.create n).Distinct := by
  unfold Files.create
  split
  · exact h
  · intro k m i hk hm
    have hname : (fs.add n []).name = Function.update fs.name n (some fs.next) := rfl
    have hold {x : N} (hx : x ≠ n) (hi : (fs.add n []).name x = some i) : fs.name x = some i := by
      rwa [hname, Function.update_of_ne hx] at hi
    have hnew (hi : (fs.add n []).name n = some i) : i = fs.next := by
      rw [hname, Function.update_self] at hi
      exact (Option.some.inj hi).symm
    by_cases hkn : k = n <;> by_cases hmn : m = n
    · rw [hkn, hmn]
    · subst hkn
      exact absurd (hnew hk) (fs.bound m i (hold hmn hm)).ne
    · subst hmn
      exact absurd (hnew hm) (fs.bound k i (hold hkn hk)).ne
    · exact h k m i (hold hkn hk) (hold hmn hm)

theorem Distinct.remove (h : fs.Distinct) (n : N) : (fs.remove n).Distinct := by
  have hname : (fs.remove n).name = Function.update fs.name n none := rfl
  have hold {x : N} {i : ℕ} (hi : (fs.remove n).name x = some i) : fs.name x = some i := by
    rw [hname] at hi
    by_cases hx : x = n
    · subst hx
      rw [Function.update_self] at hi
      cases hi
    · rwa [Function.update_of_ne hx] at hi
  exact fun k m i hk hm => h k m i (hold hk) (hold hm)

theorem Distinct.move (h : fs.Distinct) (m n : N) : (fs.move m n).Distinct := by
  have hname : (fs.move m n).name = Function.update (Function.update fs.name m none) n (fs.name m) := rfl
  -- a name other than `n` stands for what it stood for, and is not `m`
  have hold {x : N} {i : ℕ} (hx : x ≠ n) (hi : (fs.move m n).name x = some i) : x ≠ m ∧ fs.name x = some i := by
    rw [hname, Function.update_of_ne hx] at hi
    by_cases hm : x = m
    · rw [hm, Function.update_self] at hi
      cases hi
    · rw [Function.update_of_ne hm] at hi
      exact ⟨hm,hi⟩
  have hnew {i : ℕ} (hi : (fs.move m n).name n = some i) : fs.name m = some i := by
    rwa [hname, Function.update_self] at hi
  intro k l i hk hl
  by_cases hkn : k = n <;> by_cases hln : l = n
  · rw [hkn, hln]
  · subst hkn
    exact absurd (h _ _ i (hold hln hl).2 (hnew hk)) (hold hln hl).1
  · subst hln
    exact absurd (h _ _ i (hold hkn hk).2 (hnew hl)) (hold hkn hk).1
  · exact h k l i (hold hkn hk).2 (hold hln hl).2

end Distinct

end Files
end Stout
