import Stout.Library.Threads

/-! # The children of a process

The children of one operating system process in the order of their forks. A child is
known by its place in the list; its number may go to a later one as soon as no process
and no process group has it. A child that has exited is a zombie until its status is
taken, which happens once.
-/
namespace Stout.ChildTable
open Threads
variable {α : Type*}

inductive Life where
  | running
  | zombie (status : ℕ)
  | reaped (status : ℕ)
deriving DecidableEq, Repr

def Life.unreaped : Life → Bool
  | .reaped _ => false
  | _ => true

def Life.isZombie : Life → Bool
  | .zombie _ => true
  | _ => false

/-- `group` says that the number is in use, by the child or by what is left of its group. -/
structure Proc (α : Type*) where
  pid : ℕ
  life : Life
  group : Bool
  info : α
deriving DecidableEq, Repr

/-- A number that the system may give to a new child. -/
def Fresh (ps : List (Proc α)) (pid : ℕ) : Prop := 0 < pid ∧ ∀ p ∈ ps, p.group = true → p.pid ≠ pid

instance (ps : List (Proc α)) (pid : ℕ) : Decidable (Fresh ps pid) :=
  inferInstanceAs (Decidable (_ ∧ ∀ p ∈ ps, _))

def fork (ps : List (Proc α)) (pid : ℕ) (info : α) : List (Proc α) := ps ++ [⟨pid,.running,true,info⟩]

def exit (ps : List (Proc α)) (i status : ℕ) : Option (List (Proc α)) :=
  match ps[i]? with
  | some ⟨pid,.running,g,x⟩ => some (ps.set i ⟨pid,.zombie status,g,x⟩)
  | _ => none

/-- What takes the status of a zombie learns its number and its status. -/
def reap (ps : List (Proc α)) (i : ℕ) : Option (ℕ × ℕ × List (Proc α)) :=
  match ps[i]? with
  | some ⟨pid,.zombie status,g,x⟩ => some (pid,status,ps.set i ⟨pid,.reaped status,g,x⟩)
  | _ => none

/-- The last process of the group of a child that is gone ends. -/
def disband (ps : List (Proc α)) (i : ℕ) : Option (List (Proc α)) :=
  match ps[i]? with
  | some ⟨pid,.reaped status,_,x⟩ => some (ps.set i ⟨pid,.reaped status,false,x⟩)
  | _ => none

def anyZombie (ps : List (Proc α)) : Bool := ps.any fun p => p.life.isZombie

def unreapedAt (ps : List (Proc α)) (pid : ℕ) : Option ℕ := ps.findIdx? fun p => p.pid == pid && p.life.unreaped

def update (ps : List (Proc α)) (i : ℕ) (f : α → α) : List (Proc α) := ps.modify i fun p => { p with info := f p.info }

section Ops
variable {ps qs : List (Proc α)} {i j pid status : ℕ} {p q : Proc α} {f : α → α} {x : α}

theorem exit_cases (h : exit ps i status = some qs) :
    ∃ p, ps[i]? = some p ∧ p.life = .running ∧ qs = ps.set i { p with life := .zombie status } := by
  unfold exit at h
  split at h
  case h_1 pid g x hp => exact ⟨_,hp,rfl,(Option.some.inj h).symm⟩
  case h_2 => cases h

theorem reap_cases (h : reap ps i = some (pid,status,qs)) : ∃ p, ps[i]? = some p ∧ p.pid = pid ∧
    p.life = .zombie status ∧ qs = ps.set i { p with life := .reaped status } := by
  unfold reap at h
  split at h
  case h_1 pid' status' g x hp =>
    cases h
    exact ⟨_,hp,rfl,rfl,rfl⟩
  case h_2 => cases h

theorem reap_of_zombie (hp : ps[i]? = some p) (hz : p.life = .zombie status) :
    reap ps i = some (p.pid,status,ps.set i { p with life := .reaped status }) := by
  obtain ⟨pid,life,g,x⟩ := p
  cases hz
  unfold reap
  rw [hp]

theorem disband_cases (h : disband ps i = some qs) :
    ∃ p, ps[i]? = some p ∧ p.life.unreaped = false ∧ qs = ps.set i { p with group := false } := by
  unfold disband at h
  split at h
  case h_1 pid status g x hp => exact ⟨_,hp,rfl,(Option.some.inj h).symm⟩
  case h_2 => cases h

theorem getElem?_fork : (fork ps pid x)[i]? = if i = ps.length then some ⟨pid,.running,true,x⟩ else ps[i]? := by
  unfold fork
  rw [List.getElem?_append]
  split
  case isTrue h => rw [if_neg (Nat.ne_of_lt h)]
  case isFalse h =>
    split
    case isTrue he => simp [he]
    case isFalse he =>
      have hlt : ps.length < i := by omega
      simp only [List.getElem?_eq_none (Nat.le_of_lt hlt)]
      rw [List.getElem?_eq_none (by simp; omega)]

theorem getElem?_update : (update ps i f)[j]? =
    (ps[j]?).map fun p => if i = j then { p with info := f p.info } else p := by
  unfold update
  rw [List.getElem?_modify]
  cases ps[j]? <;> simp

theorem getElem?_update_self (hp : ps[i]? = some p) : (update ps i f)[i]? = some { p with info := f p.info } := by
  rw [getElem?_update, hp, Option.map_some, if_pos rfl]

theorem getElem?_update_ne (h : i ≠ j) : (update ps i f)[j]? = ps[j]? := by
  rw [getElem?_update]
  cases ps[j]? <;> simp [h]

theorem mem_update (h : q ∈ update ps i f) :
    (∃ j, i ≠ j ∧ ps[j]? = some q) ∨ ∃ p, ps[i]? = some p ∧ q = { p with info := f p.info } := by
  obtain ⟨j,hj⟩ := List.getElem?_of_mem h
  by_cases he : i = j
  · subst he
    rw [getElem?_update] at hj
    obtain ⟨p,hp,rfl⟩ := Option.map_eq_some_iff.mp hj
    exact Or.inr ⟨p,hp,if_pos rfl⟩
  · rw [getElem?_update_ne he] at hj
    exact Or.inl ⟨j,he,hj⟩

theorem anyZombie_eq_false : anyZombie ps = false ↔ ∀ p ∈ ps, p.life.isZombie = false := by
  simp [anyZombie]

theorem unreapedAt_eq_none : unreapedAt ps pid = none ↔ ∀ p ∈ ps, p.pid = pid → p.life.unreaped = false := by
  simp [unreapedAt]

theorem unreapedAt_update (h : unreapedAt ps pid = none) : unreapedAt (update ps i f) pid = none := by
  rw [unreapedAt_eq_none] at h ⊢
  intro q hq hpid
  obtain ⟨j,hj⟩ := List.getElem?_of_mem hq
  rw [getElem?_update] at hj
  obtain ⟨p,hp,rfl⟩ := Option.map_eq_some_iff.mp hj
  have hu := h p (List.mem_of_getElem? hp)
  by_cases he : i = j
  · rw [if_pos he] at hpid ⊢
    exact hu hpid
  · rw [if_neg he] at hpid ⊢
    exact hu hpid

def unreapedCount (ps : List (Proc α)) : ℕ := ps.countP fun p => p.life.unreaped

theorem map_life_update (ps : List (Proc α)) (i : ℕ) (f : α → α) : (update ps i f).map Proc.life = ps.map Proc.life := by
  refine List.ext_getElem? ?_
  intro j
  rw [List.getElem?_map, List.getElem?_map, getElem?_update, Option.map_map]
  cases ps[j]? with
  | none => rfl
  | some p => by_cases he : i = j <;> simp [he]

theorem anyZombie_eq_any_life (ps : List (Proc α)) : anyZombie ps = (ps.map Proc.life).any Life.isZombie := by
  rw [anyZombie, List.any_map, Function.comp_def]

theorem anyZombie_fork : anyZombie (fork ps pid x) = anyZombie ps := by
  simp [anyZombie, fork, Life.isZombie]

theorem anyZombie_set (hp : ps[i]? = some p) (hl : q.life = p.life) : anyZombie (ps.set i q) = anyZombie ps := by
  obtain ⟨hlen,rfl⟩ := List.getElem?_eq_some_iff.mp hp
  have hmap : (ps.set i q).map Proc.life = ps.map Proc.life := by
    rw [List.map_set, hl, ← List.getElem_map Proc.life (h := by simpa using hlen), List.set_getElem_self]
  rw [anyZombie_eq_any_life, hmap, ← anyZombie_eq_any_life]

theorem unreapedCount_update : unreapedCount (update ps i f) = unreapedCount ps := by
  have hmap := congrArg (List.countP Life.unreaped) (map_life_update ps i f)
  rwa [List.countP_map, List.countP_map] at hmap

theorem unreapedCount_set (hp : ps[i]? = some p) : unreapedCount (ps.set i q) + p.life.unreaped.toNat =
    unreapedCount ps + q.life.unreaped.toNat :=
  countP_set_add hp q _

/-- Two moments of a child between which nobody took its status. -/
def Alike (p q : Proc α) : Prop := q.pid = p.pid ∧ q.info = p.info ∧ q.life.unreaped = p.life.unreaped

theorem getElem?_set_alike {r : Proc α} (hp : ps[i]? = some p) (h : Alike p q) (hr : ps[j]? = some r) :
    ∃ t, (ps.set i q)[j]? = some t ∧ Alike r t := by
  by_cases he : i = j
  · subst he
    cases hp.symm.trans hr
    exact ⟨q,List.getElem?_set_self (List.getElem?_eq_some_iff.mp hp).1,h⟩
  · exact ⟨r,by rw [List.getElem?_set_ne he, hr],rfl,rfl,rfl⟩

theorem getElem?_of_set_alike {r : Proc α} (hp : ps[i]? = some p) (h : Alike p q) (hr : (ps.set i q)[j]? = some r) :
    ∃ t, ps[j]? = some t ∧ Alike t r := by
  rcases of_getElem?_set hr with ⟨rfl,rfl⟩ | ⟨-,hr⟩
  · exact ⟨p,hp,h⟩
  · exact ⟨r,hr,rfl,rfl,rfl⟩

end Ops

/-! ## Numbers -/

/-- A number is in use for as long as its child is not reaped, and a number that was given
anew was not in use. -/
structure Numbered (ps : List (Proc α)) : Prop where
  group : ∀ (i : ℕ) (p : Proc α), ps[i]? = some p → p.life.unreaped = true → p.group = true
  earlier : ∀ (i j : ℕ) (p q : Proc α), i < j → ps[i]? = some p → ps[j]? = some q → p.pid = q.pid → p.group = false

namespace Numbered
variable {ps : List (Proc α)} {i j pid : ℕ} {p q : Proc α} {f : α → α} {x : α}

theorem nil : Numbered ([] : List (Proc α)) := ⟨by simp,by simp⟩

theorem fork (h : Numbered ps) (hf : Fresh ps pid) : Numbered (fork ps pid x) := by
  constructor
  · intro i p hp hu
    rw [getElem?_fork] at hp
    split at hp
    · cases hp
      rfl
    · exact h.group i p hp hu
  · intro i j p q hij hp hq hpq
    rw [getElem?_fork] at hp hq
    have hlt : j ≤ ps.length := by
      by_contra hn
      rw [if_neg (by omega), List.getElem?_eq_none (by omega)] at hq
      cases hq
    rw [if_neg (by omega)] at hp
    split at hq
    · cases hq
      have hne := hf.2 p (List.mem_of_getElem? hp)
      cases hg : p.group with
      | false => rfl
      | true => exact absurd hpq (hne hg)
    · exact h.earlier i j p q hij hp hq hpq

theorem set (h : Numbered ps) (hp : ps[i]? = some p) (hpid : q.pid = p.pid)
    (hg : q.group = true → p.group = true) (hu : q.life.unreaped = true → q.group = true) : Numbered (ps.set i q) := by
  have hlen := (List.getElem?_eq_some_iff.mp hp).1
  constructor
  · intro j r hr
    rcases of_getElem?_set hr with ⟨-,rfl⟩ | ⟨-,hr⟩
    · exact hu
    · exact h.group j r hr
  · intro j k r t hjk hr ht hrt
    have hold : ∀ (m : ℕ) (y : Proc α), (ps.set i q)[m]? = some y →
        ∃ z, ps[m]? = some z ∧ z.pid = y.pid ∧ (y.group = true → z.group = true) := by
      intro m y hy
      rcases of_getElem?_set hy with ⟨rfl,rfl⟩ | ⟨-,hy⟩
      · exact ⟨p,hp,hpid.symm,hg⟩
      · exact ⟨y,hy,rfl,id⟩
    obtain ⟨r',hr',hrp,hrg⟩ := hold j r hr
    obtain ⟨t',ht',htp,-⟩ := hold k t ht
    have hf := h.earlier j k r' t' hjk hr' ht' (by rw [hrp, htp, hrt])
    cases hrgr : r.group with
    | false => rfl
    | true => rw [hrg hrgr] at hf; cases hf

theorem update (h : Numbered ps) : Numbered (update ps i f) := by
  have hold : ∀ (m : ℕ) (y : Proc α), (ChildTable.update ps i f)[m]? = some y →
      ∃ z, ps[m]? = some z ∧ z.pid = y.pid ∧ z.life = y.life ∧ z.group = y.group := by
    intro m y hy
    rw [getElem?_update] at hy
    obtain ⟨z,hz,rfl⟩ := Option.map_eq_some_iff.mp hy
    refine ⟨z,hz,?_⟩
    split <;> exact ⟨rfl,rfl,rfl⟩
  constructor
  · intro j r hr hu
    obtain ⟨z,hz,-,hl,hg⟩ := hold j r hr
    rw [← hg]
    exact h.group j z hz (by rw [hl]; exact hu)
  · intro j k r t hjk hr ht hrt
    obtain ⟨y,hy,hyp,-,hyg⟩ := hold j r hr
    obtain ⟨z,hz,hzp,-⟩ := hold k t ht
    rw [← hyg]
    exact h.earlier j k y z hjk hy hz (by rw [hyp, hzp, hrt])

theorem unique (h : Numbered ps) (hp : ps[i]? = some p) (hq : ps[j]? = some q) (hpq : p.pid = q.pid)
    (hpu : p.group = true) (hqu : q.group = true) : i = j := by
  rcases Nat.lt_trichotomy i j with hij | hij | hij
  · rw [h.earlier i j p q hij hp hq hpq] at hpu
    cases hpu
  · exact hij
  · rw [h.earlier j i q p hij hq hp hpq.symm] at hqu
    cases hqu

theorem unreapedAt_eq (h : Numbered ps) (hp : ps[i]? = some p) (hu : p.life.unreaped = true) :
    unreapedAt ps p.pid = some i := by
  obtain ⟨hlen,rfl⟩ := List.getElem?_eq_some_iff.mp hp
  unfold unreapedAt
  rw [List.findIdx?_eq_some_iff_getElem]
  refine ⟨hlen,by simp [hu],?_⟩
  intro j hji hj
  simp only [Bool.and_eq_true, beq_iff_eq] at hj
  have hjl : j < ps.length := by omega
  have hgj := h.group j _ (List.getElem?_eq_getElem hjl) hj.2
  rw [h.earlier j i _ _ hji (List.getElem?_eq_getElem hjl) hp hj.1] at hgj
  cases hgj

end Numbered

end Stout.ChildTable
