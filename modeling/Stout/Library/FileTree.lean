import Mathlib

/-! # Trees of directories and files

A path is the list of its names, the last one first: the directory it is in is its tail,
and it is below another one if that is a suffix of it. What is there is in a directory,
by construction.
-/
namespace Stout

inductive Node where
  | dir
  | file
deriving DecidableEq, Repr

inductive Errno where
  | exists_
  | noEntry
  | notDir
  | isDir
  | busy
  | invalid
  | notEmpty
deriving DecidableEq, Repr

structure FileTree (N : Type) where
  node : List N → Option Node
  root : node [] = some .dir
  parent : ∀ x p, (node (x :: p)).isSome = true → node p = some .dir

namespace FileTree
variable {N : Type} {t u : FileTree N} {p q : List N}

theorem dir_of_above (hpq : p <:+ q) (hne : p ≠ q) (h : (t.node q).isSome = true) : t.node p = some .dir := by
  induction q with
  | nil => exact absurd (List.suffix_nil.mp hpq) hne
  | cons x q ih =>
    have hq := t.parent x q h
    rcases List.suffix_cons_iff.mp hpq with rfl | hpq
    · exact absurd rfl hne
    · by_cases he : p = q
      · rw [he]
        exact hq
      · exact ih hpq he (by rw [hq]; rfl)

theorem dir_of_suffix (hpq : p <:+ q) (h : t.node q = some .dir) : t.node p = some .dir := by
  by_cases he : p = q
  · rw [he]
    exact h
  · exact dir_of_above hpq he (by rw [h]; rfl)

def Grows (t u : FileTree N) : Prop := ∀ p n, t.node p = some n → u.node p = some n

theorem Grows.refl (t : FileTree N) : t.Grows t := fun _ _ h => h

theorem Grows.trans {v : FileTree N} (h : t.Grows u) (k : u.Grows v) : t.Grows v := fun p n hp => k p n (h p n hp)

/-! ## What can be in one tree -/

structure Item (N : Type) where
  path : List N
  kind : Node
deriving DecidableEq

/-- One of the two is a file where the other one needs something else. -/
def Clash (g e : Item N) : Prop :=
  (g.kind = .file ∧ g.path <:+ e.path ∨ e.kind = .file ∧ e.path <:+ g.path) ∧ g ≠ e

def Has (t : FileTree N) (known : List (Item N)) : Prop := ∀ g ∈ known, t.node g.path = some g.kind

/-- Nothing is there but the items and the directories they are in. -/
def Bare (t : FileTree N) (known : List (Item N)) : Prop :=
  ∀ q, (t.node q).isSome = true → ∃ g ∈ known, q <:+ g.path

theorem Has.grows {known : List (Item N)} (h : t.Has known) (htu : t.Grows u) : u.Has known :=
  fun g hg => htu g.path g.kind (h g hg)

theorem not_clash_of_node {g e : Item N} (hg : t.node g.path = some g.kind) (he : t.node e.path = some e.kind) :
    ¬Clash g e := by
  have hfile {a b : Item N} (ha : t.node a.path = some a.kind) (hb : t.node b.path = some b.kind)
      (hk : a.kind = .file) (hab : a.path <:+ b.path) : a = b := by
    rw [hk] at ha
    have hp : a.path = b.path := by
      by_contra hne
      rw [dir_of_above hab hne (by rw [hb]; rfl)] at ha
      cases ha
    rw [hp, hb] at ha
    cases a
    cases b
    cases hp
    cases hk
    cases ha
    rfl
  rintro ⟨⟨hk,hab⟩ | ⟨hk,hab⟩,hne⟩
  · exact hne (hfile hg he hk hab)
  · exact hne (hfile he hg hk hab).symm

theorem Bare.file {known : List (Item N)} (hb : t.Bare known) (hh : t.Has known) (hq : t.node q = some .file) :
    ⟨q,.file⟩ ∈ known := by
  obtain ⟨⟨gp,gk⟩,hg,hqg⟩ := hb q (by rw [hq]; rfl)
  have hn : t.node gp = some gk := hh _ hg
  have he : q = gp := by
    by_contra hne
    rw [dir_of_above hqg hne (by rw [hn]; rfl)] at hq
    cases hq
  subst he
  rw [hn] at hq
  cases hq
  exact hg

/-! ## Calls -/

def missing (t : FileTree N) : List N → Errno
  | [] => .noEntry
  | _ :: p =>
    match t.node p with
    | some .file => .notDir
    | some .dir => .noEntry
    | none => t.missing p

theorem missing_of_noFile (h : ∀ q, q <:+ p → t.node q ≠ some .file) : t.missing p = .noEntry := by
  induction p with
  | nil => rfl
  | cons x p ih =>
    rw [missing]
    rcases hn : t.node p with _ | _ | _
    · exact ih fun q hq => h q (hq.trans (List.suffix_cons x p))
    · rfl
    · exact absurd hn (h p (List.suffix_cons x p))

def stat (t : FileTree N) (p : List N) : Except Errno Node :=
  match t.node p with
  | some n => .ok n
  | none => .error (t.missing p)

variable [DecidableEq N]

instance (g e : Item N) : Decidable (Clash g e) := inferInstanceAs (Decidable ((_ ∧ _ ∨ _ ∧ _) ∧ _))

def add (t : FileTree N) (x : N) (p : List N) (n : Node) (hp : t.node p = some .dir) (hx : t.node (x :: p) = none) :
    FileTree N where
  node := Function.update t.node (x :: p) (some n)
  root := by rw [Function.update_of_ne (List.cons_ne_nil x p).symm, t.root]
  parent y q h := by
    have hne : q ≠ x :: p := by
      rintro rfl
      rw [Function.update_of_ne (List.cons_ne_self y (x :: p)), Option.isSome_iff_exists] at h
      obtain ⟨m,hm⟩ := h
      have hdir := t.parent y (x :: p) (by rw [hm]; rfl)
      rw [hx] at hdir
      cases hdir
    rw [Function.update_of_ne hne]
    by_cases he : y :: q = x :: p
    · cases he
      exact hp
    · rw [Function.update_of_ne he] at h
      exact t.parent y q h

def mkdir (t : FileTree N) : List N → Except Errno (FileTree N)
  | [] => .error .exists_
  | x :: p =>
    if hx : t.node (x :: p) = none then
      if hp : t.node p = some .dir then .ok (t.add x p .dir hp hx) else .error (t.missing (x :: p))
    else .error .exists_

/-- A file that is there is truncated, which the tree does not show. -/
def openFile (t : FileTree N) : List N → Except Errno (FileTree N)
  | [] => .error .isDir
  | x :: p =>
    if hx : t.node (x :: p) = none then
      if hp : t.node p = some .dir then .ok (t.add x p .file hp hx) else .error (t.missing (x :: p))
    else if t.node (x :: p) = some .dir then .error .isDir
    else .ok t

/-- The node and all below it; the root stays. -/
def removeAll (t : FileTree N) (p : List N) : Except Errno (FileTree N) :=
  if hp : p = [] then .error .busy
  else .ok {
    node := fun q => if p <:+ q then none else t.node q
    root := by
      rw [if_neg (fun h => hp (List.suffix_nil.mp h))]
      exact t.root
    parent := by
      intro x q h
      by_cases hx : p <:+ x :: q
      · rw [if_pos hx] at h
        cases h
      · rw [if_neg hx] at h
        rw [if_neg (fun hq => hx (hq.trans (List.suffix_cons x q)))]
        exact t.parent x q h }

def above (ps : List (List N)) : FileTree N where
  node q := if q = [] ∨ ∃ p ∈ ps, q <:+ p then some .dir else none
  root := if_pos (Or.inl rfl)
  parent := by
    intro x q h
    by_cases hx : x :: q = [] ∨ ∃ p ∈ ps, x :: q <:+ p
    · refine if_pos (Or.inr ?_)
      rcases hx with hx | ⟨p,hp,hx⟩
      · exact absurd hx (List.cons_ne_nil x q)
      · exact ⟨p,hp,(List.suffix_cons x q).trans hx⟩
    · rw [if_neg hx] at h
      cases h

theorem above_node (ps : List (List N)) (q : List N) :
    (above ps).node q = if q = [] ∨ ∃ p ∈ ps, q <:+ p then some .dir else none := rfl

theorem add_self {x : N} {n : Node} (hp : t.node p = some .dir) (hx : t.node (x :: p) = none) :
    (t.add x p n hp hx).node (x :: p) = some n :=
  Function.update_self ..

theorem add_other {x : N} {n : Node} (hp : t.node p = some .dir) (hx : t.node (x :: p) = none) (hq : q ≠ x :: p) :
    (t.add x p n hp hx).node q = t.node q :=
  Function.update_of_ne hq ..

theorem grows_add {x : N} {n : Node} (hp : t.node p = some .dir) (hx : t.node (x :: p) = none) :
    t.Grows (t.add x p n hp hx) := by
  intro q m hq
  by_cases he : q = x :: p
  · subst he
    rw [hx] at hq
    cases hq
  · rw [add_other hp hx he]
    exact hq

/-- What a call that adds a node at most has done. -/
structure Adds (t u : FileTree N) (p : List N) (n : Node) : Prop where
  grows : t.Grows u
  here : u.node p = some n
  only : ∀ q, q ≠ p → u.node q = t.node q

theorem adds_add {x : N} {n : Node} (hp : t.node p = some .dir) (hx : t.node (x :: p) = none) :
    Adds t (t.add x p n hp hx) (x :: p) n :=
  ⟨grows_add hp hx,add_self hp hx,fun _ hq => add_other hp hx hq⟩

theorem mkdir_ok (h : t.mkdir p = .ok u) : Adds t u p .dir ∧ t.node p = none := by
  cases p with
  | nil => cases h
  | cons x p =>
    rw [mkdir] at h
    by_cases hx : t.node (x :: p) = none
    · rw [dif_pos hx] at h
      by_cases hp : t.node p = some .dir
      · rw [dif_pos hp] at h
        cases h
        exact ⟨adds_add hp hx,hx⟩
      · rw [dif_neg hp] at h
        cases h
    · rw [dif_neg hx] at h
      cases h

theorem mkdir_of_missing {x : N} (hp : t.node p = some .dir) (hx : t.node (x :: p) = none) :
    ∃ u, t.mkdir (x :: p) = .ok u :=
  ⟨t.add x p .dir hp hx,by rw [mkdir, dif_pos hx, dif_pos hp]⟩

theorem openFile_ok (h : t.openFile p = .ok u) : Adds t u p .file := by
  cases p with
  | nil => cases h
  | cons x p =>
    rw [openFile] at h
    by_cases hx : t.node (x :: p) = none
    · rw [dif_pos hx] at h
      by_cases hp : t.node p = some .dir
      · rw [dif_pos hp] at h
        cases h
        exact adds_add hp hx
      · rw [dif_neg hp] at h
        cases h
    · rw [dif_neg hx] at h
      by_cases hd : t.node (x :: p) = some .dir
      · rw [if_pos hd] at h
        cases h
      · rw [if_neg hd] at h
        cases h
        refine ⟨.refl t,?_,fun _ _ => rfl⟩
        rcases hn : t.node (x :: p) with _ | _ | _
        · exact absurd hn hx
        · exact absurd hn hd
        · rfl

theorem openFile_of_notDir {x : N} (hp : t.node p = some .dir) (hx : t.node (x :: p) ≠ some .dir) :
    ∃ u, t.openFile (x :: p) = .ok u := by
  rw [openFile]
  by_cases hn : t.node (x :: p) = none
  · rw [dif_pos hn, dif_pos hp]
    exact ⟨_,rfl⟩
  · rw [dif_neg hn, if_neg hx]
    exact ⟨_,rfl⟩

theorem removeAll_ok (h : t.removeAll p = .ok u) (q : List N) : u.node q = if p <:+ q then none else t.node q := by
  unfold removeAll at h
  by_cases hp : p = []
  · rw [dif_pos hp] at h
    cases h
  · rw [dif_neg hp] at h
    cases h
    rfl

theorem removeAll_of_ne (t : FileTree N) (hp : p ≠ []) : ∃ u, t.removeAll p = .ok u := by
  unfold removeAll
  rw [dif_neg hp]
  exact ⟨_,rfl⟩

end FileTree
end Stout
