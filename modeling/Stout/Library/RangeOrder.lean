import Mathlib

/-! # Iteration orders

A loop over a hash table visits every entry once, in an order the program does not
choose. An order is given by a list of numbers: each one picks the next entry among
those left, and when the numbers run out the rest comes in its own order. A loop may
delete the entry it is at.
-/
namespace Stout.RangeOrder
variable {α : Type*}

/-- Visits the entries of `l` as `picks` says. -/
def arrange : List ℕ → List α → List α
  | [], l => l
  | k :: picks, l =>
    match l[k]? with
    | none => arrange picks l
    | some x => x :: arrange picks (l.eraseIdx k)

theorem arrange_perm (picks : List ℕ) (l : List α) : (arrange picks l).Perm l := by
  induction picks generalizing l with
  | nil => exact .refl l
  | cons k picks ih =>
    unfold arrange
    split
    · exact ih l
    · rename_i x hx
      obtain ⟨hk,rfl⟩ := List.getElem?_eq_some_iff.mp hx
      exact ((ih _).cons _).trans (List.getElem_cons_eraseIdx_perm hk)

/-! ## Tables -/

section Tables
variable {κ β : Type*} {cmp : κ → κ → Ordering} [Std.TransCmp cmp]

theorem map_fst_arrange_perm (picks : List ℕ) (m : Std.ExtTreeMap κ β cmp) :
    ((arrange picks m.toList).map Prod.fst).Perm m.keys := by
  rw [← Std.ExtTreeMap.map_fst_toList_eq_keys]
  exact (arrange_perm picks m.toList).map Prod.fst

theorem nodup_map_fst_arrange (picks : List ℕ) (m : Std.ExtTreeMap κ β cmp) :
    ((arrange picks m.toList).map Prod.fst).Nodup :=
  (map_fst_arrange_perm picks m).nodup_iff.mpr Std.ExtTreeMap.nodup_keys

variable [Std.LawfulEqCmp cmp]

theorem mem_arrange_toList {picks : List ℕ} {m : Std.ExtTreeMap κ β cmp} {e : κ × β} :
    e ∈ arrange picks m.toList ↔ m[e.1]? = some e.2 :=
  (arrange_perm picks m.toList).mem_iff.trans Std.ExtTreeMap.mem_toList_iff_getElem?_eq_some

/-! ## Deleting on the way -/

/-- A loop over a table that deletes the entries it does not keep. -/
def prune (picks : List ℕ) (keep : κ → Bool) (m : Std.ExtTreeMap κ β cmp) : Std.ExtTreeMap κ β cmp :=
  (arrange picks m.keys).foldl (fun m k => if keep k then m else m.erase k) m

theorem getElem?_foldl_kept {keep : κ → Bool} {ks : List κ} {k : κ} (h : keep k = true ∨ k ∉ ks)
    (m : Std.ExtTreeMap κ β cmp) : (ks.foldl (fun m k => if keep k then m else m.erase k) m)[k]? = m[k]? := by
  induction ks generalizing m with
  | nil => rfl
  | cons x ks ih =>
    rw [List.foldl_cons, ih (h.imp_right fun hk hm => hk (List.mem_cons_of_mem x hm))]
    split
    · rfl
    · rename_i hx
      have hne : x ≠ k := by
        rintro rfl
        exact h.elim hx fun hk => hk List.mem_cons_self
      simp [Std.ExtTreeMap.getElem?_erase, hne]

theorem getElem?_foldl_deleted {keep : κ → Bool} {ks : List κ} {k : κ} (h : keep k = false) (hk : k ∈ ks)
    (m : Std.ExtTreeMap κ β cmp) : (ks.foldl (fun m k => if keep k then m else m.erase k) m)[k]? = none := by
  -- what has been deleted does not come back
  have hstays : ∀ (ks : List κ) (m : Std.ExtTreeMap κ β cmp), m[k]? = none →
      (ks.foldl (fun m k => if keep k then m else m.erase k) m)[k]? = none := by
    intro ks
    induction ks with
    | nil => exact fun _ hm => hm
    | cons x ks ih =>
      intro m hm
      refine ih _ ?_
      dsimp only
      split
      · exact hm
      · simp [Std.ExtTreeMap.getElem?_erase, hm]
  induction ks generalizing m with
  | nil => cases hk
  | cons x ks ih =>
    rcases List.mem_cons.mp hk with rfl | hk
    · refine hstays ks _ ?_
      simp [h]
    · exact ih hk _

theorem getElem?_prune (picks : List ℕ) (keep : κ → Bool) (m : Std.ExtTreeMap κ β cmp) (k : κ) :
    (prune picks keep m)[k]? = if keep k then m[k]? else none := by
  cases hk : keep k with
  | true => exact getElem?_foldl_kept (Or.inl hk) m
  | false =>
    have hkeys : k ∈ arrange picks m.keys ↔ k ∈ m := (arrange_perm picks m.keys).mem_iff.trans Std.ExtTreeMap.mem_keys
    by_cases hm : k ∈ m
    · exact getElem?_foldl_deleted hk (hkeys.mpr hm) m
    · rw [prune, getElem?_foldl_kept (Or.inr fun h => hm (hkeys.mp h))]
      simp [hm]

end Tables

end Stout.RangeOrder
