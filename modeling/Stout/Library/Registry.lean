import Stout.Library.RangeOrder

/-! # Tables of tagged entries

A table that entries are put into and taken out of, while a loop looks for the entry with
a given tag. An entry leaves the table when it is deleted or when another one is put under
its key; on the way from one table to the next those that leave are recorded.
-/
namespace Stout.Registry
open Std (ExtTreeMap)
open RangeOrder
variable {κ ω τ : Type*} {cmp : κ → κ → Ordering} [Std.TransCmp cmp] [Std.LawfulEqCmp cmp]

section Departed
variable [DecidableEq ω]

def departed (old new : ExtTreeMap κ ω cmp) : List ω := (old.toList.filter fun e => new[e.1]? ≠ some e.2).map (·.2)

/-- It has an entry, or it is among those that left. -/
def Kept (table : ExtTreeMap κ ω cmp) (removed : List ω) (x : ω) : Prop := (∃ k : κ, table[k]? = some x) ∨ x ∈ removed

theorem Kept.next {old : ExtTreeMap κ ω cmp} {removed : List ω} {x : ω} (h : Kept old removed x) (new : ExtTreeMap κ ω cmp) :
    Kept new (removed ++ departed old new) x := by
  rcases h with ⟨k,hk⟩ | hx
  · by_cases hn : new[k]? = some x
    · exact Or.inl ⟨k,hn⟩
    · refine Or.inr (List.mem_append_right _ (List.mem_map.mpr ⟨(k,x),?_,rfl⟩))
      exact List.mem_filter.mpr ⟨ExtTreeMap.mem_toList_iff_getElem?_eq_some.mpr hk,by simpa using hn⟩
  · exact Or.inr (List.mem_append_left _ hx)

end Departed

/-! ## Looking for a tag -/

/-- The entries as a loop goes through them, with their tags. -/
def entries (order : List ℕ) (tag : ω → τ) (table : ExtTreeMap κ ω cmp) : List (κ × τ) :=
  (arrange order table.toList).map fun e => (e.1,tag e.2)

theorem mem_entries {order : List ℕ} {tag : ω → τ} {table : ExtTreeMap κ ω cmp} {k : κ} {t : τ} :
    (k,t) ∈ entries order tag table ↔ ∃ x, table[k]? = some x ∧ tag x = t := by
  simp [entries, mem_arrange_toList]

variable [DecidableEq τ]

theorem find_of_unique {tag : ω → τ} {table : ExtTreeMap κ ω cmp} {k : κ} {x : ω} (hk : table[k]? = some x)
    (h : ∀ k' y, table[k']? = some y → tag y = tag x → k' = k) (order : List ℕ) :
    (entries order tag table).find? (fun e => e.2 = tag x) = some (k,tag x) := by
  cases hf : (entries order tag table).find? (fun e => e.2 = tag x) with
  | none =>
    have hne := List.find?_eq_none.mp hf (k,tag x) (mem_entries.mpr ⟨x,hk,rfl⟩)
    simp at hne
  | some e =>
    obtain ⟨k',t⟩ := e
    have ht : t = tag x := by simpa using List.find?_some hf
    obtain ⟨y,hy,hty⟩ := mem_entries.mp (List.mem_of_find?_eq_some hf)
    rw [h k' y hy (hty.trans ht), ht]

theorem find_of_absent (tag : ω → τ) (table : ExtTreeMap κ ω cmp) {t : τ} (h : ∀ (k : κ) y, table[k]? = some y → tag y ≠ t)
    (order : List ℕ) : (entries order tag table).find? (fun e => e.2 = t) = none := by
  refine List.find?_eq_none.mpr ?_
  rintro ⟨k,t'⟩ he
  obtain ⟨y,hy,rfl⟩ := mem_entries.mp he
  simpa using h k y hy

end Stout.Registry
