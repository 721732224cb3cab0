import Mathlib

/-! # Values in named buckets

A store of two levels: a bucket for each name, and in it values under keys, both kept
in key order. What a value is does not matter here. The lemmas say what putting values
does to the values found and to the number of values of a kind.
-/
namespace Stout.Buckets
open Std (ExtTreeMap TransOrd LawfulEqOrd)

variable {K V : Type} [Ord K]

abbrev Bucket (K V : Type) [Ord K] := ExtTreeMap K V (compare : K → K → Ordering)

abbrev Db (K V : Type) [Ord K] := ExtTreeMap K (Bucket K V) (compare : K → K → Ordering)

variable [TransOrd K]

def value (db : Db K V) (n k : K) : Option V := (db[n]?).bind fun b => b[k]?

def put (db : Db K V) (n k : K) (v : V) : Db K V := db.insert n ((db.getD n ∅).insert k v)

def addBucket (db : Db K V) (n : K) : Db K V := if db.contains n then db else db.insert n ∅

def putAll (db : Db K V) (n : K) (entries : List (K × V)) : Db K V :=
  entries.foldl (fun d p => put d n p.1 p.2) db

def count (p : V → Bool) (db : Db K V) (n : K) : ℕ := (db.getD n ∅).toList.countP fun e => p e.2

theorem putAll_append (db : Db K V) (n : K) (l l' : List (K × V)) :
    putAll db n (l ++ l') = putAll (putAll db n l) n l' :=
  List.foldl_append

theorem value_eq_getD (db : Db K V) (n k : K) : value db n k = (db.getD n ∅)[k]? := by
  unfold value
  rw [ExtTreeMap.getD_eq_getD_getElem?]
  cases db[n]? with
  | none => simp
  | some b => rfl

theorem nodup_keys_of_perm {m : Bucket K V} {l : List (K × V)} (h : l.Perm m.toList) : (l.map Prod.fst).Nodup := by
  rw [(h.map Prod.fst).nodup_iff, ExtTreeMap.map_fst_toList_eq_keys]
  exact ExtTreeMap.nodup_keys

theorem nodup_toList (b : Bucket K V) : b.toList.Nodup :=
  (nodup_keys_of_perm (List.Perm.refl b.toList)).of_map

theorem addBucket_of_contains {db : Db K V} {n : K} (h : db.contains n = true) : addBucket db n = db := if_pos h

theorem contains_of_value {db : Db K V} {n k : K} {v : V} (h : value db n k = some v) : db.contains n = true := by
  unfold value at h
  cases hb : db[n]? with
  | none =>
    rw [hb] at h
    cases h
  | some b => rw [ExtTreeMap.contains_eq_isSome_getElem?, hb, Option.isSome_some]

variable [LawfulEqOrd K]

/-! ## Values -/

theorem value_put [DecidableEq K] (db : Db K V) (n k : K) (v : V) (n' k' : K) :
    value (put db n k v) n' k' = if n = n' ∧ k = k' then some v else value db n' k' := by
  unfold value put
  rw [ExtTreeMap.getElem?_insert]
  by_cases hn : n = n'
  · subst hn
    rw [if_pos (Std.compare_eq_iff_eq.mpr rfl), Option.bind_some, ExtTreeMap.getElem?_insert]
    by_cases hk : k = k'
    · subst hk
      rw [if_pos (Std.compare_eq_iff_eq.mpr rfl), if_pos ⟨rfl,rfl⟩]
    · rw [if_neg (mt Std.compare_eq_iff_eq.mp hk), if_neg (fun h => hk h.2), ExtTreeMap.getD_eq_getD_getElem?]
      cases db[n]? with
      | none => simp
      | some b => rfl
  · rw [if_neg (mt Std.compare_eq_iff_eq.mp hn), if_neg (fun h => hn h.1)]

theorem value_addBucket (db : Db K V) (n : K) : value (addBucket db n) = value db := by
  unfold addBucket
  split
  · rfl
  · rename_i h
    funext n' k
    unfold value
    rw [ExtTreeMap.getElem?_insert]
    split
    · rename_i hn
      rw [Std.compare_eq_iff_eq] at hn
      subst hn
      have hnone : db[n]? = none := by
        rw [ExtTreeMap.getElem?_eq_none]
        simpa using h
      rw [hnone]
      simp
    · rfl

theorem contains_addBucket (db : Db K V) (n : K) : (addBucket db n).contains n = true := by
  unfold addBucket
  split
  · assumption
  · simp

theorem addBucket_addBucket (db : Db K V) (n : K) : addBucket (addBucket db n) n = addBucket db n :=
  addBucket_of_contains (contains_addBucket db n)

theorem value_putAll_congr {db db' : Db K V} {n' k : K} (h : value db' n' k = value db n' k) (n : K)
    (l : List (K × V)) : value (putAll db' n l) n' k = value (putAll db n l) n' k := by
  classical
  induction l generalizing db db' with
  | nil => exact h
  | cons p l ih =>
    apply ih
    rw [value_put, value_put, h]

theorem value_putAll_of_notMem {db : Db K V} {n n' k : K} {l : List (K × V)}
    (h : n' = n → k ∉ l.map Prod.fst) : value (putAll db n l) n' k = value db n' k := by
  classical
  induction l generalizing db with
  | nil => rfl
  | cons p l ih =>
    have hrest : value (putAll (put db n p.1 p.2) n l) n' k = value (put db n p.1 p.2) n' k :=
      ih fun hn hk => h hn (List.mem_cons_of_mem _ hk)
    rw [value_put, if_neg] at hrest
    · exact hrest
    · rintro ⟨rfl,rfl⟩
      exact h rfl List.mem_cons_self

theorem value_putAll_of_mem {db : Db K V} {n k : K} {v : V} {l : List (K × V)} (hl : (l.map Prod.fst).Nodup)
    (h : (k,v) ∈ l) : value (putAll db n l) n k = some v := by
  classical
  induction l generalizing db with
  | nil => cases h
  | cons p l ih =>
    rw [List.map_cons, List.nodup_cons] at hl
    rcases List.mem_cons.mp h with rfl | h
    · have hrest : value (putAll (put db n k v) n l) n k = value (put db n k v) n k :=
        value_putAll_of_notMem fun _ => hl.1
      rw [value_put, if_pos ⟨rfl,rfl⟩] at hrest
      exact hrest
    · exact ih hl.2 h

theorem mem_toList_iff {db : Db K V} {n k : K} {v : V} : (k,v) ∈ (db.getD n ∅).toList ↔ value db n k = some v := by
  rw [ExtTreeMap.mem_toList_iff_getElem?_eq_some, value_eq_getD]

/-! ## Values put where there is none -/

def putNew (db : Db K V) (n k : K) (v : V) : Db K V := if (value db n k).isNone then put db n k v else db

/-- Of several values for one key the first is put. -/
def putAllNew (db : Db K V) (entries : List (K × K × V)) : Db K V :=
  entries.foldl (fun d e => putNew d e.1 e.2.1 e.2.2) db

/-- The bucket of a new value need not be made beforehand. -/
theorem putNew_addBucket (db : Db K V) (n k : K) (v : V) :
    (if (value (addBucket db n) n k).isNone then put (addBucket db n) n k v else addBucket db n) = putNew db n k v := by
  rw [value_addBucket, putNew]
  split
  · unfold put addBucket
    split
    · rfl
    · rename_i hc
      have hd : db.getD n ∅ = ∅ := ExtTreeMap.getD_eq_fallback (by simpa using hc)
      ext n'
      simp only [hd, ExtTreeMap.getD_insert_self, ExtTreeMap.getElem?_insert]
      split <;> rfl
  · rename_i h
    obtain ⟨w,hw⟩ := Option.ne_none_iff_exists'.mp (by simpa using h : value db n k ≠ none)
    exact addBucket_of_contains (contains_of_value hw)

theorem value_putNew [DecidableEq K] (db : Db K V) (n k : K) (v : V) (n' k' : K) :
    value (putNew db n k v) n' k' = (value db n' k').or (if n = n' ∧ k = k' then some v else none) := by
  unfold putNew
  split
  · rename_i h
    rw [value_put]
    split
    · rename_i he
      rw [← he.1, ← he.2, Option.isNone_iff_eq_none.mp h, Option.none_or]
    · rw [Option.or_none]
  · rename_i h
    split
    · rename_i he
      rw [← he.1, ← he.2]
      cases hv : value db n k with
      | none => simp [hv] at h
      | some w => rfl
    · rw [Option.or_none]

theorem value_putAllNew [DecidableEq K] (db : Db K V) (l : List (K × K × V)) (n k : K) :
    value (putAllNew db l) n k = (value db n k).or ((l.find? fun e => e.1 = n ∧ e.2.1 = k).map fun e => e.2.2) := by
  induction l generalizing db with
  | nil => simp [putAllNew]
  | cons e l ih =>
    have hrest : value (putAllNew db (e :: l)) n k = value (putAllNew (putNew db e.1 e.2.1 e.2.2) l) n k := rfl
    rw [hrest, ih, value_putNew, Option.or_assoc, List.find?_cons]
    by_cases he : e.1 = n ∧ e.2.1 = k
    · simp [he]
    · simp [he]

theorem contains_putNew [DecidableEq K] (db : Db K V) (n k : K) (v : V) (n' : K) :
    (putNew db n k v).contains n' = (db.contains n' || decide (n = n')) := by
  unfold putNew put
  split
  · rw [ExtTreeMap.contains_insert, Bool.or_comm]
    congr 1
    by_cases h : n = n'
    · simp [h]
    · simp [h]
  · rename_i h
    by_cases he : n = n'
    · subst he
      obtain ⟨w,hw⟩ := Option.ne_none_iff_exists'.mp (by simpa using h : value db n k ≠ none)
      simp [contains_of_value hw]
    · simp [he]

theorem contains_putAllNew [DecidableEq K] (db : Db K V) (l : List (K × K × V)) (n : K) :
    (putAllNew db l).contains n = true ↔ db.contains n = true ∨ ∃ e ∈ l, e.1 = n := by
  induction l generalizing db with
  | nil => simp [putAllNew]
  | cons e l ih =>
    have hrest : putAllNew db (e :: l) = putAllNew (putNew db e.1 e.2.1 e.2.2) l := rfl
    rw [hrest, ih, contains_putNew, Bool.or_eq_true, decide_eq_true_eq, List.exists_mem_cons_iff, or_assoc]

theorem ext_value {db db' : Db K V} (hb : ∀ n, db.contains n = true ↔ db'.contains n = true)
    (hv : ∀ n k, value db n k = value db' n k) : db = db' := by
  ext n : 1
  have hc := hb n
  rw [ExtTreeMap.contains_eq_isSome_getElem?, ExtTreeMap.contains_eq_isSome_getElem?] at hc
  cases h : db[n]? with
  | none =>
    cases h' : db'[n]? with
    | none => rfl
    | some b' => simp [h, h'] at hc
  | some b =>
    cases h' : db'[n]? with
    | none => simp [h, h'] at hc
    | some b' =>
      congr 1
      ext k : 1
      have hk := hv n k
      rwa [value, value, h, h'] at hk

/-! ## Counts -/

theorem toList_insert_perm (b : Bucket K V) (k : K) (v : V) :
    (b.insert k v).toList.Perm ((k,v) :: (b.erase k).toList) := by
  have hk : (k,v) ∉ (b.erase k).toList := by
    rw [ExtTreeMap.mem_toList_iff_getElem?_eq_some]
    simp
  refine (List.perm_ext_iff_of_nodup (nodup_toList _) (List.nodup_cons.mpr ⟨hk,nodup_toList _⟩)).mpr ?_
  rintro ⟨k',v'⟩
  rw [List.mem_cons, ExtTreeMap.mem_toList_iff_getElem?_eq_some, ExtTreeMap.mem_toList_iff_getElem?_eq_some,
    ExtTreeMap.getElem?_insert, ExtTreeMap.getElem?_erase, Prod.mk.injEq]
  by_cases h : compare k k' = .eq
  · rw [if_pos h, if_pos h, Option.some.injEq]
    rw [Std.compare_eq_iff_eq] at h
    subst h
    simp [eq_comm]
  · rw [if_neg h, if_neg h]
    have hne : k' ≠ k := fun he => h (Std.compare_eq_iff_eq.mpr he.symm)
    simp [hne]

/-- One value of the kind more or less, according to what was there and what is put. -/
theorem count_put (p : V → Bool) (db : Db K V) (n k : K) (v : V) :
    count p (put db n k v) n + (if (value db n k).any p then 1 else 0) = count p db n + if p v then 1 else 0 := by
  have hput : (put db n k v).getD n ∅ = (db.getD n ∅).insert k v := by simp [put]
  have hafter := (toList_insert_perm (db.getD n ∅) k v).countP_eq fun e => p e.2
  unfold count
  rw [hput, hafter, List.countP_cons]
  cases hv : value db n k with
  | none =>
    have herase : (db.getD n ∅).erase k = db.getD n ∅ := by
      ext k' v'
      rw [ExtTreeMap.getElem?_erase]
      split
      · rename_i h
        rw [Std.compare_eq_iff_eq] at h
        subst h
        rw [value_eq_getD] at hv
        simp [hv]
      · rfl
    simp [herase]
  | some w =>
    have hself : (db.getD n ∅).insert k w = db.getD n ∅ := by
      ext k' v'
      rw [ExtTreeMap.getElem?_insert]
      split
      · rename_i h
        rw [Std.compare_eq_iff_eq] at h
        subst h
        rw [← value_eq_getD, hv]
      · rfl
    have hbefore := (toList_insert_perm (db.getD n ∅) k w).countP_eq fun e => p e.2
    rw [hself, List.countP_cons] at hbefore
    rw [hbefore, Option.any_some]
    dsimp only
    omega

theorem count_putAll (p : V → Bool) {db : Db K V} {n : K} {l : List (K × V)} (hl : (l.map Prod.fst).Nodup)
    (h : ∀ k ∈ l.map Prod.fst, value db n k = none) :
    count p (putAll db n l) n = count p db n + l.countP fun e => p e.2 := by
  classical
  induction l generalizing db with
  | nil => rfl
  | cons e l ih =>
    rw [List.map_cons, List.nodup_cons] at hl
    have hone := count_put p db n e.1 e.2
    rw [h e.1 List.mem_cons_self, Option.any_none] at hone
    have hrest : ∀ k ∈ l.map Prod.fst, value (put db n e.1 e.2) n k = none := by
      intro k hk
      rw [value_put, if_neg]
      · exact h k (List.mem_cons_of_mem _ hk)
      · rintro ⟨-,rfl⟩
        exact hl.1 hk
    have hi := ih hl.2 hrest
    rw [List.countP_cons]
    simp only [Bool.false_eq_true, if_false] at hone
    change count p (putAll (put db n e.1 e.2) n l) n = _
    omega

theorem count_addBucket (p : V → Bool) (db : Db K V) (n n' : K) : count p (addBucket db n) n' = count p db n' := by
  unfold count addBucket
  split
  · rfl
  · rename_i h
    rw [ExtTreeMap.getD_insert]
    split
    · rename_i hn
      rw [Std.compare_eq_iff_eq] at hn
      subst hn
      have hd : db.getD n ∅ = ∅ := ExtTreeMap.getD_eq_fallback (by simpa using h)
      rw [hd]
    · rfl

end Stout.Buckets
