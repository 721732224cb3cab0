import Stout.Isolate.MtnReliable

/-! # Setting up the pool

What `PoolInit` of `isolate/mtn.go` makes of the values stored. What the allocator
lists is grouped by network and merged into the buckets, the networks in any order; a
value that is there is left as it is.
-/
namespace Stout.Mtn.Bytes
open Std (ExtTreeMap)
open Prog

variable {V : Type} {json : Json V}

def Lists (env : Env) (raws : List RawAlloc) : Prop := ∃ r, env.listing = .response r ∧ r.decoded = .ok raws

theorem getAllocations_lists {c : MtnCfg} {raws : List RawAlloc} {s : StoreOf V} (h : Lists s.env raws) :
    (getAllocations c s).1 = .ok (group raws) := by
  obtain ⟨r,hl,hd⟩ := h
  unfold getAllocations
  simp only [hl, hd]

theorem poolInit_stored {c : MtnCfg} {raws : List RawAlloc} {s t : StoreOf V} {u : Unit} (hc : c.enable = true)
    (hl : Lists s.env raws) (h : json.poolInit c s = (.ok u,t)) :
    ∃ nets : List (String × List Allocation), nets.Perm (group raws).toList ∧
      t.db = Buckets.putAllNew s.db (json.entries nets) := by
  obtain ⟨allAllocs,s₁,nets,hg,hperm,hdb⟩ := poolInit_ok hc h
  have hlist := getAllocations_lists (c := c) hl
  rw [hg] at hlist
  cases hlist
  exact ⟨nets,hperm,hdb⟩

/-! ## Groups -/

section Group
variable {raws : List RawAlloc} {nets : List (String × List Allocation)}

theorem mem_nets (h : nets.Perm (group raws).toList) {n : String} {allocs : List Allocation} :
    (n,allocs) ∈ nets ↔ (group raws)[n]? = some allocs := by
  rw [h.mem_iff, ExtTreeMap.mem_toList_iff_getElem?_eq_some]

theorem find_network (n k : String) (p : String × List Allocation) :
    (p.2.map fun alloc => (p.1,alloc.id,json.encode (fresh p.1 alloc))).find? (fun e => e.1 = n ∧ e.2.1 = k) =
      if p.1 = n then (p.2.find? fun alloc => alloc.id = k).map fun alloc => (n,alloc.id,json.encode (fresh n alloc))
      else none := by
  rw [List.find?_map]
  split
  · rename_i hp
    simp [hp]
  · rename_i hp
    simp [hp]

/-- Whatever the order of the networks, the first entry for a key is the one that is
listed first. -/
theorem find_entries (h : nets.Perm (group raws).toList) (n k : String) :
    ((json.entries nets).find? fun e => e.1 = n ∧ e.2.1 = k).map (fun e => e.2.2) =
      (raws.find? fun a => a.network = n ∧ a.id = k).map fun a => json.encode (replied n a) := by
  have hnd : (nets.map Prod.fst).Nodup := by
    rw [(h.map Prod.fst).nodup_iff, ExtTreeMap.map_fst_toList_eq_keys]
    exact ExtTreeMap.nodup_keys
  have hgroup : ((group raws).getD n []).find? (fun alloc => alloc.id = k) =
      (raws.find? fun a => a.network = n ∧ a.id = k).map listed := by
    rw [group_getD, List.find?_map, List.find?_filter]
    refine congrArg (Option.map listed) (congrArg (fun p => raws.find? p) ?_)
    funext a
    change decide (decide (a.network = n) = true ∧ decide (a.id = k) = true) = decide (a.network = n ∧ a.id = k)
    simp only [decide_eq_true_eq]
  have hentries : (json.entries nets).find? (fun e => e.1 = n ∧ e.2.1 = k) =
      (((group raws).getD n []).find? fun alloc => alloc.id = k).map fun alloc =>
        (n,alloc.id,json.encode (fresh n alloc)) := by
    rw [Codec.entries, List.find?_flatMap]
    simp only [find_network]
    cases hn : (group raws)[n]? with
    | none =>
      rw [ExtTreeMap.getD_eq_getD_getElem?, hn]
      refine List.findSome?_eq_none_iff.mpr fun p hp => if_neg ?_
      rintro rfl
      rw [(mem_nets h).mp hp] at hn
      cases hn
    | some allocs =>
      -- the network comes once, and no other has an entry for it
      rw [ExtTreeMap.getD_eq_getD_getElem?, hn]
      obtain ⟨l₁,l₂,rfl⟩ := List.append_of_mem ((mem_nets h).mpr hn)
      rw [List.map_append, List.map_cons, List.nodup_append, List.nodup_cons] at hnd
      obtain ⟨-,⟨hl₂,-⟩,hl₁⟩ := hnd
      have hnone₁ : l₁.findSome? (fun p => if p.1 = n then
          (p.2.find? fun alloc => alloc.id = k).map fun alloc => (n,alloc.id,json.encode (fresh n alloc))
          else none) = none := by
        refine List.findSome?_eq_none_iff.mpr fun p hp => if_neg fun he => ?_
        exact hl₁ p.1 (List.mem_map_of_mem hp) n List.mem_cons_self he
      have hnone₂ : l₂.findSome? (fun p => if p.1 = n then
          (p.2.find? fun alloc => alloc.id = k).map fun alloc => (n,alloc.id,json.encode (fresh n alloc))
          else none) = none := by
        refine List.findSome?_eq_none_iff.mpr fun p hp => if_neg fun he => ?_
        exact hl₂ (List.mem_map.mpr ⟨p,hp,he⟩)
      rw [List.findSome?_append, hnone₁, Option.none_or, List.findSome?_cons, if_pos rfl, hnone₂]
      rw [Option.getD_some]
      cases (allocs.find? fun alloc => alloc.id = k) <;> rfl
  rw [hentries, hgroup, Option.map_map, Option.map_map]
  congr 1

theorem mem_entries (h : nets.Perm (group raws).toList) (n : String) :
    (∃ e ∈ json.entries nets, e.1 = n) ↔ ∃ a ∈ raws, a.network = n := by
  have hgroup : (∃ alloc, alloc ∈ (group raws).getD n []) ↔ ∃ a ∈ raws, a.network = n := by
    rw [group_getD]
    simp
  rw [← hgroup, ExtTreeMap.getD_eq_getD_getElem?]
  constructor
  · rintro ⟨e,he,rfl⟩
    obtain ⟨p,hp,he⟩ := List.mem_flatMap.mp he
    obtain ⟨alloc,ha,rfl⟩ := List.mem_map.mp he
    exact ⟨alloc,by rw [(mem_nets h).mp hp]; exact ha⟩
  · rintro ⟨alloc,ha⟩
    cases hn : (group raws)[n]? with
    | none => simp [hn] at ha
    | some allocs =>
      rw [hn] at ha
      exact ⟨_,List.mem_flatMap.mpr ⟨_,(mem_nets h).mpr hn,List.mem_map_of_mem ha⟩,rfl⟩

end Group

/-! ## The merge -/

/-- The store after the list has been merged into it: what was there is there, and beside
it the first allocation listed for each key that was free. -/
structure Merged (json : Json V) (db : Buckets.Db String V) (raws : List RawAlloc) (db' : Buckets.Db String V) : Prop where
  buckets : ∀ n, db'.contains n = true ↔ db.contains n = true ∨ ∃ a ∈ raws, a.network = n
  values : ∀ n k, Buckets.value db' n k =
    (Buckets.value db n k).or ((raws.find? fun a => a.network = n ∧ a.id = k).map fun a => json.encode (replied n a))

section Merge
variable {raws : List RawAlloc} {db db₁ db₂ : Buckets.Db String V}

theorem Merged.unique (h₁ : Merged json db raws db₁) (h₂ : Merged json db raws db₂) : db₁ = db₂ :=
  Buckets.ext_value (fun n => (h₁.buckets n).trans (h₂.buckets n).symm)
    fun n k => (h₁.values n k).trans (h₂.values n k).symm

theorem Merged.self (h : Merged json db raws db₁) : Merged json db₁ raws db₁ where
  buckets n := by
    rw [h.buckets n, or_assoc, or_self]
  values n k := by
    rw [h.values n k, Option.or_assoc, Option.or_self]

theorem poolInit_merged {c : MtnCfg} {s t : StoreOf V} {u : Unit} (hc : c.enable = true) (hl : Lists s.env raws)
    (h : json.poolInit c s = (.ok u,t)) : Merged json s.db raws t.db := by
  obtain ⟨nets,hperm,hdb⟩ := poolInit_stored hc hl h
  constructor
  · intro n
    rw [hdb, Buckets.contains_putAllNew, mem_entries hperm]
  · intro n k
    rw [hdb, Buckets.value_putAllNew, find_entries hperm]

/-- A successful call has merged the list into the database; any other order of the
networks gives the same database, and a second call with the list does not change it. -/
theorem poolInit_merges {c : MtnCfg} {s t : StoreOf V} (hc : c.enable = true) (hl : Lists s.env raws)
    (h : json.poolInit c s = (.ok (),t)) :
    Merged json s.db raws t.db ∧
    (∀ s' t', s'.db = s.db → Lists s'.env raws → json.poolInit c s' = (.ok (),t') → t'.db = t.db) ∧
    ∀ s', s'.db = t.db → Lists s'.env raws → (json.poolInit c s').2.db = t.db := by
  have hm := poolInit_merged hc hl h
  refine ⟨hm,?_,?_⟩
  · intro s' t' hdb hl' h'
    have hm' := poolInit_merged hc hl' h'
    rw [hdb] at hm'
    exact hm'.unique hm
  · intro s' hdb hl'
    rcases h' : json.poolInit c s' with ⟨o,t'⟩
    cases o with
    | ok u =>
      have hm' := poolInit_merged hc hl' h'
      rw [hdb] at hm'
      exact hm'.unique hm.self
    | error e | panic p => exact Eq.trans (poolInit_fails c s' _ t' h' nofun) hdb

end Merge

def raw (id network : String) : RawAlloc := ⟨id,⟨"host","::1","eth0"⟩,network⟩

/-- One address in service; the list names it again, and another one twice. -/
def inService : Store :=
  ⟨Buckets.put ∅ "lan" "a1" ⟨"eth0","host","::1","a1","lan","box",true⟩,
    ⟨[],.response ⟨200,"",.ok [raw "a1" "lan",raw "b1" "wan",raw "a2" "lan",raw "b1" "wan"],(⟨[],⟨[]⟩⟩,none)⟩,[],[1],[]⟩⟩

theorem poolInit_merges_inService :
    ∃ t, plain.poolInit ⟨true,2,"allocator","host","host",[]⟩ inService = (.ok (),t) ∧
      Buckets.value t.db "lan" "a1" = some ⟨"eth0","host","::1","a1","lan","box",true⟩ ∧
      Buckets.value t.db "wan" "b1" = some ⟨"eth0","host","::1","b1","wan","",false⟩ := by
  have hok : (plain.poolInit ⟨true,2,"allocator","host","host",[]⟩ inService).1 = .ok () := by decide +kernel
  obtain ⟨t,ht⟩ : ∃ t, plain.poolInit ⟨true,2,"allocator","host","host",[]⟩ inService = (.ok (),t) :=
    ⟨_,Prod.ext hok rfl⟩
  obtain ⟨hm,-,-⟩ := poolInit_merges rfl ⟨_,rfl,rfl⟩ ht
  refine ⟨t,ht,?_,?_⟩
  · rw [hm.values]
    decide +kernel
  · rw [hm.values]
    decide +kernel

end Stout.Mtn.Bytes
