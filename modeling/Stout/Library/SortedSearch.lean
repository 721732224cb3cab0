import Mathlib

/-! # Searching a sorted list

Binary search for the first place at which a test holds, and what it finds in a list that
is sorted, or is sorted first.
-/
namespace Stout.SortedSearch

/-! ## Binary search -/

/-- The first place from `i` on at which the test holds, or `j`. -/
def search (test : ℕ → Bool) (i j : ℕ) : ℕ :=
  if i < j then
    let h := (i + j) / 2
    if test h then search test i h else search test (h + 1) j
  else i
termination_by j - i

theorem search_spec (test : ℕ → Bool) {i j : ℕ} (hij : i ≤ j) :
    i ≤ search test i j ∧ search test i j ≤ j ∧ (search test i j < j → test (search test i j) = true) := by
  fun_induction search test i j with
  | case1 i j hlt h ht ih =>
    obtain ⟨hle,hge,hfound⟩ := ih (by omega)
    refine ⟨hle,by omega,fun _ => ?_⟩
    rcases hge.lt_or_eq with hlt' | heq
    · exact hfound hlt'
    · rw [heq]
      exact ht
  | case2 i j hlt h ht ih =>
    obtain ⟨hle,hge,hfound⟩ := ih (by omega)
    exact ⟨by omega,hge,hfound⟩
  | case3 i j hlt => exact ⟨le_rfl,hij,fun h => absurd h hlt⟩

theorem lt_search {test : ℕ → Bool} (hmono : ∀ k l, k ≤ l → test k = true → test l = true) {i j k : ℕ}
    (hik : i ≤ k) (hk : k < search test i j) : test k = false := by
  fun_induction search test i j with
  | case1 i j hlt h ht ih => exact ih hik hk
  | case2 i j hlt h ht ih =>
    by_cases hkh : h + 1 ≤ k
    · exact ih hkh hk
    · by_contra hne
      exact ht (hmono k h (by omega) (Bool.eq_true_of_not_eq_false hne))
  | case3 i j hlt => omega

/-! ## Sorted lists -/

section Sorted
variable {α : Type*} [LinearOrder α]

def areSorted : List α → Bool
  | a :: b :: rest => decide (¬b < a) && areSorted (b :: rest)
  | _ => true

def sorted (l : List α) : List α := if areSorted l then l else l.mergeSort (· ≤ ·)

theorem pairwise_of_areSorted {l : List α} (h : areSorted l = true) : l.Pairwise (· ≤ ·) := by
  rw [← List.isChain_iff_pairwise]
  fun_induction areSorted l with
  | case1 a b rest ih =>
    obtain ⟨hab,hrest⟩ := (Bool.and_eq_true _ _).mp h
    exact .cons_cons (not_lt.mp (of_decide_eq_true hab)) (ih hrest)
  | case2 l hl =>
    match l, hl with
    | [], _ => exact .nil
    | [a], _ => exact .singleton a
    | a :: b :: rest, hl => exact absurd rfl (hl a b rest)

theorem pairwise_sorted (l : List α) : (sorted l).Pairwise (· ≤ ·) := by
  unfold sorted
  split
  · rename_i h
    exact pairwise_of_areSorted h
  · exact List.pairwise_mergeSort' (· ≤ ·) l

theorem sorted_perm (l : List α) : (sorted l).Perm l := by
  unfold sorted
  split
  · exact .refl l
  · exact List.mergeSort_perm l _

/-- The entry is not less than `x`, or there is none. -/
def reaches (l : List α) (x : α) (k : ℕ) : Bool := (l[k]?).all fun y => decide (x ≤ y)

/-- Where `x` is in a sorted list, or would be. -/
def place (l : List α) (x : α) : ℕ := search (reaches l x) 0 l.length

def found (l : List α) (x : α) : Bool := decide (l[place l x]? = some x)

theorem reaches_mono {l : List α} (hl : l.Pairwise (· ≤ ·)) (x : α) (k m : ℕ) (hkm : k ≤ m)
    (hk : reaches l x k = true) : reaches l x m = true := by
  unfold reaches at hk ⊢
  cases hm : l[m]? with
  | none => rfl
  | some z =>
    obtain ⟨hml,rfl⟩ := List.getElem?_eq_some_iff.mp hm
    rw [List.getElem?_eq_getElem (by omega), Option.all_some] at hk
    rw [Option.all_some]
    have hle : l[k] ≤ l[m] := by
      rcases hkm.lt_or_eq with hlt | rfl
      · exact List.pairwise_iff_getElem.mp hl k m _ hml hlt
      · exact le_rfl
    exact decide_eq_true ((of_decide_eq_true hk).trans hle)

theorem found_iff {l : List α} (hl : l.Pairwise (· ≤ ·)) (x : α) : found l x = true ↔ x ∈ l := by
  constructor
  · intro h
    exact List.mem_of_getElem? (of_decide_eq_true h)
  · intro h
    obtain ⟨k,hk,hx⟩ := List.getElem_of_mem h
    have hat : reaches l x k = true := by
      rw [reaches, List.getElem?_eq_getElem hk, hx]
      simp
    -- the place found is not after that entry, so what stands there is not more than it
    have hle : place l x ≤ k := by
      by_contra hlt
      have hf := lt_search (reaches_mono hl x) (Nat.zero_le k) (not_le.mp hlt)
      rw [hat] at hf
      cases hf
    have hlen : place l x < l.length := hle.trans_lt hk
    have hplace := (search_spec (reaches l x) (Nat.zero_le l.length)).2.2 hlen
    have hget : l[place l x]? = some l[place l x] := List.getElem?_eq_getElem hlen
    have hx' : x ≤ l[place l x] := by
      change reaches l x (place l x) = true at hplace
      rw [reaches, hget, Option.all_some] at hplace
      exact of_decide_eq_true hplace
    have hback : l[place l x] ≤ l[k] := by
      rcases hle.lt_or_eq with hlt | heq
      · exact List.pairwise_iff_getElem.mp hl _ k _ hk hlt
      · simp only [heq, le_refl]
    rw [found, hget, le_antisymm (hback.trans_eq hx) hx']
    simp

theorem found_sorted_iff (l : List α) (x : α) : found (sorted l) x = true ↔ x ∈ l := by
  rw [found_iff (pairwise_sorted l)]
  exact (sorted_perm l).mem_iff

end Sorted

end Stout.SortedSearch
