import Stout.Library.FileTree

/-! # Directories with what their files contain

A view says what is under each path below a directory. Directories and files are added
to it with the directories they are in, unless something is in the way; and a tree that
has been changed accordingly shows the view that results.
-/
namespace Stout.FileTree
variable {N C : Type}

inductive Obj (C : Type) where
  | dir
  | file (content : C)
deriving DecidableEq, Repr

def Obj.isDir : Obj C → Bool
  | .dir => true
  | .file _ => false

/-- What is at a path, with the content if that is a file. -/
def look (t : FileTree N) (content : List N → C) (q : List N) : Option (Obj C) :=
  (t.node q).map fun
    | .dir => .dir
    | .file => .file (content q)

theorem look_of_dir {t : FileTree N} {q : List N} (h : t.node q = some .dir) (content : List N → C) :
    t.look content q = some .dir := by
  rw [look, h]
  rfl

theorem look_of_file {t : FileTree N} {q : List N} (h : t.node q = some .file) (content : List N → C) :
    t.look content q = some (.file (content q)) := by
  rw [look, h]
  rfl

theorem node_of_look_dir {t : FileTree N} {content : List N → C} {q : List N} (h : t.look content q = some .dir) :
    t.node q = some .dir := by
  rcases hn : t.node q with _ | _ | _
  · rw [look, hn] at h
    cases h
  · rfl
  · rw [look, hn] at h
    cases h

theorem node_of_look_file {t : FileTree N} {content : List N → C} {q : List N} {c : C}
    (h : t.look content q = some (.file c)) : t.node q = some .file := by
  rcases hn : t.node q with _ | _ | _
  · rw [look, hn] at h
    cases h
  · rw [look, hn] at h
    cases h
  · rfl

theorem look_congr {t u : FileTree N} {content content' : List N → C} {q : List N} (hn : u.node q = t.node q)
    (hc : content' q = content q) : u.look content' q = t.look content q := by
  rw [look, look, hn, hc]

def View (N C : Type) := List N → Option (Obj C)

namespace View

def empty : View N C
  | [] => some .dir
  | _ :: _ => none

/-- A file is at the path or above it. -/
def blocked (d : View N C) (p : List N) : Bool := p.tails.any fun r => (d r).any fun x => !x.isDir

theorem not_blocked {d : View N C} {p : List N} (h : ∀ r, r <:+ p → ∀ c, d r ≠ some (.file c)) : ¬d.blocked p = true := by
  rw [blocked, List.any_eq_true]
  rintro ⟨r,hr,hfile⟩
  cases hx : d r with
  | none =>
    rw [hx] at hfile
    cases hfile
  | some x =>
    cases x with
    | dir =>
      rw [hx] at hfile
      cases hfile
    | file c => exact h r ((List.mem_tails r p).mp hr) c hx

variable [DecidableEq N]

def addDir (d : View N C) (p : List N) : Option (View N C) :=
  if d.blocked p then none else some fun q => if q <:+ p then some .dir else d q

/-- The file with the directories it is in, in the place of a file that was there. -/
def addFile (d : View N C) (p : List N) (c : C) : Option (View N C) :=
  if d.blocked p.tail ∨ (d p).any Obj.isDir then none
  else some fun q => if q = p then some (.file c) else if q <:+ p then some .dir else d q

end View

def Shows (t : FileTree N) (content : List N → C) (place : List N) (d : View N C) : Prop :=
  ∀ q, t.look content (q ++ place) = d q

theorem suffix_append_iff {p q place : List N} : q ++ place <:+ p ++ place ↔ q <:+ p := by
  constructor
  · rintro ⟨s,hs⟩
    rw [← List.append_assoc] at hs
    exact ⟨s,List.append_cancel_right hs⟩
  · rintro ⟨s,rfl⟩
    exact ⟨s,by rw [List.append_assoc]⟩

section Shows
variable {t u : FileTree N} {content content' : List N → C} {place p : List N} {d : View N C}

theorem Shows.not_blocked (h : t.Shows content place d) (hg : t.Grows u)
    (hu : ∀ q, q <:+ p → u.node (q ++ place) = some .dir) : ¬d.blocked p = true := by
  refine View.not_blocked fun r hr c hc => ?_
  have hfile := hg _ _ (node_of_look_file ((h r).trans hc))
  rw [hu r hr] at hfile
  cases hfile

theorem Shows.of_new (hplace : t.node place = some .dir) (hnew : ∀ q, q ≠ [] → t.node (q ++ place) = none) :
    t.Shows content place View.empty := by
  intro q
  cases q with
  | nil => exact look_of_dir hplace content
  | cons x q =>
    rw [look, hnew _ (List.cons_ne_nil x q)]
    rfl

variable [DecidableEq N]

theorem Shows.addDir (h : t.Shows content place d) (hg : t.Grows u)
    (hu : ∀ q, u.node q = if q <:+ p ++ place then some .dir else t.node q) :
    ∃ d', d.addDir p = some d' ∧ u.Shows content place d' := by
  have hdir (q : List N) (hq : q <:+ p) : u.node (q ++ place) = some .dir := by
    rw [hu, if_pos (suffix_append_iff.mpr hq)]
  refine ⟨_,if_neg (h.not_blocked hg hdir),fun q => ?_⟩
  by_cases hq : q <:+ p
  · rw [if_pos hq]
    exact look_of_dir (hdir q hq) content
  · rw [if_neg hq, ← h q]
    refine look_congr ?_ rfl
    rw [hu, if_neg (fun hs => hq (suffix_append_iff.mp hs))]

theorem Shows.addFile (h : t.Shows content place d) (hplace : t.node place = some .dir) (hg : t.Grows u)
    (hfile : u.node (p ++ place) = some .file) (hu : ∀ q, ¬q <:+ p ++ place → u.node q = t.node q)
    (hc : ∀ q, q ≠ p ++ place → content' q = content q) :
    ∃ d', d.addFile p (content' (p ++ place)) = some d' ∧ u.Shows content' place d' := by
  have hdir (q : List N) (hq : q <:+ p) (hne : q ≠ p) : u.node (q ++ place) = some .dir := by
    refine dir_of_above (suffix_append_iff.mpr hq) (fun he => hne (List.append_cancel_right he)) ?_
    rw [hfile]
    rfl
  have hblocked : ¬d.blocked p.tail = true := by
    cases p with
    | nil =>
      -- the place itself is a directory
      rw [List.nil_append, hg _ _ hplace] at hfile
      cases hfile
    | cons x p =>
      refine h.not_blocked hg fun q hq => hdir q (hq.trans (List.suffix_cons x p)) ?_
      rintro rfl
      exact absurd hq.length_le (by simp)
  have hnew : ¬(d p).any Obj.isDir = true := by
    intro hany
    cases hd : d p with
    | none =>
      rw [hd] at hany
      cases hany
    | some x =>
      cases x with
      | dir =>
        rw [hg _ _ (node_of_look_dir ((h p).trans hd))] at hfile
        cases hfile
      | file c =>
        rw [hd] at hany
        cases hany
  refine ⟨_,if_neg (not_or.mpr ⟨hblocked,hnew⟩),fun q => ?_⟩
  by_cases he : q = p
  · rw [if_pos he, he]
    exact look_of_file hfile content'
  rw [if_neg he]
  by_cases hq : q <:+ p
  · rw [if_pos hq]
    exact look_of_dir (hdir q hq he) content'
  · rw [if_neg hq, ← h q]
    refine look_congr (hu _ fun hs => hq (suffix_append_iff.mp hs)) (hc _ fun hs => he ?_)
    exact List.append_cancel_right hs

end Shows
end Stout.FileTree
