import Stout.Isolate.MtnSpec

/-! # The calls on the pool when nothing fails

Neither bolt nor `encoding/json` fails. What a call then comes to depends on the database
and on what the allocator answers.
-/
namespace Stout.Mtn
open Std (ExtTreeMap)
open Prog

variable {V α : Type} {codec : Codec V}

section Reliable
variable {s : StoreOf V} (hf : s.env.faults = [])
include hf

theorem external_reliable : external s = (.ok (),s) := by
  rw [external, hf]

theorem steady_reliable : codec.Steady s := fun _ => hf

theorem unmarshal_reliable {v : V} {a : Allocation} (h : codec.decode v = .ok a) : codec.unmarshal v s = (.ok a,s) := by
  rw [unmarshal_steady (steady_reliable hf), h]

theorem marshal_reliable (a : Allocation) : codec.marshal a s = (.ok (codec.encode a),s) := by
  rw [Codec.marshal, bind_ok (external_reliable hf), pure_apply]

theorem put_reliable {netId id : String} (hk : ValidKey id) (v : V) :
    put netId id v s = (.ok (),{ s with db := Buckets.put s.db netId id v }) := by
  rw [put, bind_ok (external_reliable hf), if_neg hk.1, if_neg (Nat.not_lt.mpr hk.2)]
  rfl

theorem createBucketIfNotExists_reliable {netId : String} (hn : netId ≠ "") :
    createBucketIfNotExists netId s = (.ok (),{ s with db := Buckets.addBucket s.db netId }) := by
  rw [createBucketIfNotExists, bind_ok (external_reliable hf), if_neg hn]
  rfl

theorem countFreeAllocs_reliable {netId : String} (hn : netId ≠ "") :
    codec.countFreeAllocs netId s =
      (.ok (codec.freeCount s.db netId : ℤ),{ s with db := Buckets.addBucket s.db netId }) := by
  have hsteady : codec.Steady { s with db := Buckets.addBucket s.db netId } := steady_reliable hf
  rw [Codec.countFreeAllocs, bind_ok (createBucketIfNotExists_reliable hf hn), read_bind, countFree_steady hsteady,
    zero_add, Codec.freeCount, ← Buckets.count_addBucket codec.free s.db netId netId]
  rfl

theorem transaction_reliable {body : CallOf V α} {beginErr commitErr : Err → Err} {t : StoreOf V} {a : α}
    (h : body s = (.ok a,t)) (ht : t.env.faults = []) : transaction body beginErr commitErr s = (.ok a,t) := by
  rw [transaction, bind_ok (mapError_ok (external_reliable hf)), bind_ok h, bind_ok (mapError_ok (external_reliable ht)),
    pure_apply]

theorem freeDbAlloc_reliable {netId id : String} {v : V} {a : Allocation} (hv : Buckets.value s.db netId id = some v)
    (ha : codec.decode v = .ok a) (hk : ValidKey id) :
    codec.freeDbAlloc netId id s =
      (.ok (),{ s with db := Buckets.put s.db netId id (codec.encode { a with used := false }) }) := by
  obtain ⟨b,hb,hbv⟩ := Option.bind_eq_some_iff.mp hv
  rw [Codec.freeDbAlloc]
  refine transaction_reliable hf ?_ hf
  rw [read_bind, hb]
  dsimp only
  rw [hbv]
  dsimp only
  rw [bind_ok (unmarshal_reliable hf ha), bind_ok (marshal_reliable hf _), put_reliable hf hk]

end Reliable

/-! ## Requests -/

theorem requestAlloc_faults (c : MtnCfg) (netid : String) (s : StoreOf V) :
    (requestAlloc c netid s).2.env.faults = s.env.faults := by
  unfold requestAlloc
  dsimp only
  split
  · rfl
  · rfl
  · rfl
  · rfl
  · rename_i x _ _
    cases x.decoded <;> rfl

theorem requestLoop_reliable {c : MtnCfg} {netid : String} {i : ℕ} {r m : Bucket} {s : StoreOf V}
    (h : received netid i r s.env.replies = some m) :
    ∃ env, requestLoop c netid i r s = (.ok m,⟨s.db,env⟩) ∧ env.faults = s.env.faults := by
  induction i generalizing r s with
  | zero =>
    cases h
    exact ⟨s.env,rfl,rfl⟩
  | succ i ih =>
    obtain ⟨x,raw,rest,hr,hd,hrec⟩ := received_cases h
    obtain ⟨s₁,hq,hrest,hdb⟩ : ∃ s₁, requestAlloc c netid s = (.ok raw,s₁) ∧ s₁.env.replies = rest ∧ s₁.db = s.db :=
      ⟨(requestAlloc c netid s).2,Prod.ext (by simp [requestAlloc, hr, hd]) rfl,by simp [requestAlloc, hr, hd],
        by simp [requestAlloc, hr, hd]⟩
    obtain ⟨env,henv,hf⟩ := ih (s := s₁) (by rw [hrest]; exact hrec)
    have hf₁ := requestAlloc_faults c netid s
    rw [hq] at hf₁
    refine ⟨env,?_,hf.trans hf₁⟩
    rw [requestLoop, bind_ok hq, henv, hdb]

theorem requestAllocs_reliable {c : MtnCfg} {netid : String} {m : Bucket} {s : StoreOf V} (hf : s.env.faults = [])
    (h : received netid c.allocbuffer.toNat ∅ s.env.replies = some m) :
    ∃ env, requestAllocs c netid s = (.ok m,⟨s.db,env⟩) ∧ env.faults = [] := by
  obtain ⟨env,henv,he⟩ := requestLoop_reliable (c := c) h
  exact ⟨env,by rw [requestAllocs, bind_ok (external_reliable hf), henv],he.trans hf⟩

theorem range_reliable {β : Type} (l : List β) (s : StoreOf V) :
    ∃ l' env, range l s = (.ok l',⟨s.db,env⟩) ∧ l'.Perm l ∧ env.faults = s.env.faults :=
  ⟨_,_,rfl,RangeOrder.arrange_perm _ _,rfl⟩

/-! ## Storing -/

theorem storeAll_reliable {netId : String} {l : List (String × Allocation)} {s : StoreOf V} (hf : s.env.faults = [])
    (hk : ∀ p ∈ l, ValidKey p.1) :
    codec.storeAll netId l s = (.ok (),{ s with db := Buckets.putAll s.db netId (codec.encoded l) }) := by
  induction l generalizing s with
  | nil => rfl
  | cons p l ih =>
    have hone : (do let value ← codec.marshal p.2; put netId p.1 value : CallOf V Unit) s =
        (.ok (),{ s with db := Buckets.put s.db netId p.1 (codec.encode p.2) }) := by
      rw [bind_ok (marshal_reliable hf p.2), put_reliable hf (hk p List.mem_cons_self)]
    have hrest := ih (s := { s with db := Buckets.put s.db netId p.1 (codec.encode p.2) }) hf
      fun q hq => hk q (List.mem_cons_of_mem p hq)
    exact (bind_ok hone _).trans hrest

theorem storeTaking_some_reliable {netId box : String} {a : Allocation} {l : List (String × Allocation)} {s : StoreOf V}
    (hf : s.env.faults = []) (hk : ∀ p ∈ l, ValidKey p.1) :
    codec.storeTaking netId box (some a) l s =
      (.ok (some a),{ s with db := Buckets.putAll s.db netId (codec.encoded l) }) := by
  induction l generalizing s with
  | nil => rfl
  | cons p l ih =>
    rw [Codec.storeTaking, bind_ok (marshal_reliable hf p.2), bind_ok (put_reliable hf (hk p List.mem_cons_self) _)]
    exact ih hf fun q hq => hk q (List.mem_cons_of_mem p hq)

theorem storeTaking_none_reliable {netId box : String} {p : String × Allocation} {l : List (String × Allocation)}
    {s : StoreOf V} (hf : s.env.faults = []) (hk : ∀ q ∈ p :: l, ValidKey q.1) :
    ∃ t, codec.storeTaking netId box none (p :: l) s = (.ok (some (taken p.2 box)),t) ∧ t.env = s.env := by
  refine ⟨⟨Buckets.putAll s.db netId ((p.1,codec.encode (taken p.2 box)) :: codec.encoded l),s.env⟩,?_,rfl⟩
  rw [Codec.storeTaking, bind_ok (marshal_reliable hf _), bind_ok (put_reliable hf (hk p List.mem_cons_self) _)]
  exact storeTaking_some_reliable (s := ⟨Buckets.put s.db netId p.1 (codec.encode (taken p.2 box)),s.env⟩) hf
    fun q hq => hk q (List.mem_cons_of_mem p hq)

theorem takeFree_reliable_none {netId box : String} {l : List (String × V)} {s : StoreOf V} (hf : s.env.faults = [])
    (h : ∀ p ∈ l, codec.free p.2 = false) : codec.takeFree netId box l s = (.ok none,s) := by
  induction l with
  | nil => rfl
  | cons p l ih =>
    rw [Codec.takeFree, bind_ok (dbAllocIsFree_steady (steady_reliable hf) p.2), h p List.mem_cons_self]
    exact ih fun q hq => h q (List.mem_cons_of_mem p hq)

theorem takeFree_reliable_free {netId box k : String} {v : V} {a : Allocation} {l : List (String × V)} {s : StoreOf V}
    (hf : s.env.faults = []) (ha : codec.decode v = .ok a) (hu : a.used = false) (hk : ValidKey a.id) :
    codec.takeFree netId box ((k,v) :: l) s =
      (.ok (some (taken a box)),{ s with db := Buckets.put s.db netId a.id (codec.encode (taken a box)) }) := by
  have hfree : codec.free v = true := free_iff.mpr ⟨a,ha,hu⟩
  rw [Codec.takeFree, bind_ok (dbAllocIsFree_steady (steady_reliable hf) v), hfree, if_pos rfl,
    bind_ok (unmarshal_reliable hf ha), bind_ok (marshal_reliable hf _), bind_ok (put_reliable hf hk _)]
  rfl

theorem bindAllocs_reliable {c : MtnCfg} {netId : String} {m : Bucket} {s : StoreOf V} (hf : s.env.faults = [])
    (hn : netId ≠ "") (hlt : codec.freeCount s.db netId < c.allocbuffer)
    (hm : received netId c.allocbuffer.toNat ∅ s.env.replies = some m) (hk : ∀ p ∈ m.toList, ValidKey p.1) :
    ∃ t, codec.bindAllocs c netId s = (.ok (),t) := by
  have hcount : codec.countFreeAllocs netId s = _ := countFreeAllocs_reliable hf hn
  obtain ⟨env,hreq,henv⟩ := requestAllocs_reliable (c := c) (s := { s with db := Buckets.addBucket s.db netId }) hf hm
  have hcb := createBucketIfNotExists_reliable (s := ⟨Buckets.addBucket s.db netId,env⟩) henv hn
  obtain ⟨l,env',hrange,hperm,henv'⟩ :=
    range_reliable m.toList ⟨Buckets.addBucket (Buckets.addBucket s.db netId) netId,env⟩
  have hkeys : ∀ p ∈ l, ValidKey p.1 := fun p hp => hk p (hperm.subset hp)
  refine ⟨⟨Buckets.putAll (Buckets.addBucket (Buckets.addBucket s.db netId) netId) netId (codec.encoded l),env'⟩,?_⟩
  rw [Codec.bindAllocs, if_neg hn]
  refine transaction_reliable hf ?_ (henv'.trans henv)
  rw [bind_ok hcount, if_pos hlt, bind_ok hreq, bind_ok hcb, bind_ok hrange]
  exact storeAll_reliable (henv'.trans henv) hkeys

theorem useAlloc_reliable {c : MtnCfg} {netId box : String} {m : Bucket} {s : StoreOf V} (hf : s.env.faults = [])
    (hn : netId ≠ "") (hcont : s.db.contains netId = true)
    (hnone : ∀ k v, Buckets.value s.db netId k = some v → codec.free v = false)
    (hm : received netId c.allocbuffer.toNat ∅ s.env.replies = some m) (hne : m.toList ≠ [])
    (hk : ∀ p ∈ m.toList, ValidKey p.1) : ∃ a t, codec.useAlloc c netId box s = (.ok a,t) := by
  obtain ⟨b,hb⟩ : ∃ b, s.db[netId]? = some b := by
    rwa [ExtTreeMap.contains_eq_isSome_getElem?, Option.isSome_iff_exists] at hcont
  have htake : codec.takeFree netId box b.toList s = (.ok none,s) := by
    apply takeFree_reliable_none hf
    rintro ⟨k,v⟩ hp
    apply hnone k v
    rw [ExtTreeMap.mem_toList_iff_getElem?_eq_some] at hp
    rw [Buckets.value, hb, Option.bind_some, hp]
  have hcount : (Prog.attempt (codec.countFreeAllocs netId) : CallOf V (Except Err ℤ)) s =
      (.ok (.ok (codec.freeCount s.db netId : ℤ)),s) := by
    have hc : codec.countFreeAllocs netId s = _ := countFreeAllocs_reliable hf hn
    rw [Buckets.addBucket_of_contains hcont] at hc
    exact attempt_ok hc
  obtain ⟨env,hreq,henv⟩ := requestAllocs_reliable (c := c) hf hm
  have hcb : createBucketIfNotExists netId ⟨s.db,env⟩ = (.ok (),⟨s.db,env⟩) := by
    have := createBucketIfNotExists_reliable (s := ⟨s.db,env⟩) henv hn
    rwa [Buckets.addBucket_of_contains hcont] at this
  obtain ⟨l,env',hrange,hperm,henv'⟩ := range_reliable m.toList ⟨s.db,env⟩
  have hkeys : ∀ p ∈ l, ValidKey p.1 := fun p hp => hk p (hperm.subset hp)
  cases l with
  | nil => exact (hne hperm.nil_eq.symm).elim
  | cons p l =>
    obtain ⟨t,hst,ht⟩ : ∃ t, codec.storeTaking netId box none (p :: l) ⟨s.db,env'⟩ = (.ok (some (taken p.2 box)),t) ∧
        t.env = env' := storeTaking_none_reliable (henv'.trans henv) hkeys
    refine ⟨taken p.2 box,t,transaction_reliable hf ?_ (by rw [ht]; exact henv'.trans henv)⟩
    rw [Codec.getDbAlloc, read_bind, hb]
    dsimp only
    rw [bind_ok htake]
    dsimp only
    rw [bind_ok hcount, bind_ok hreq, bind_ok hcb, bind_ok hrange, bind_ok hst]
    rfl

/-! ## Listing what is used -/

theorem collectUsed_reliable {s : Store} (hf : s.env.faults = []) (l : List (String × Allocation))
    (r : List Allocation × AllocsStat) :
    ∃ stat, texts.collectUsed l r s = (.ok (r.1 ++ (l.map Prod.snd).filter Allocation.used,stat),s) := by
  induction l generalizing r with
  | nil => exact ⟨r.2,by simp [Codec.collectUsed, pure_apply]⟩
  | cons p l ih =>
    have hfree : texts.free p.2 = !p.2.used := rfl
    rw [Codec.collectUsed, bind_ok (dbAllocIsFree_steady (steady_reliable hf) p.2), hfree]
    cases hu : p.2.used with
    | false =>
      obtain ⟨stat,hstat⟩ := ih (r.1,{ r.2 with total := r.2.total + 1, free := r.2.free + 1 })
      exact ⟨stat,by simpa [hu] using hstat⟩
    | true =>
      obtain ⟨stat,hstat⟩ := ih (r.1 ++ [p.2],{ r.2 with total := r.2.total + 1, used := r.2.used + 1 })
      refine ⟨stat,?_⟩
      have hread : texts.unmarshal p.2 s = (.ok p.2,s) := unmarshal_reliable hf rfl
      simp only [Bool.not_true, Bool.false_eq_true, if_false]
      rw [bind_ok hread, hstat]
      simp [hu]

theorem usedAllocations_reliable {s : Store} (hf : s.env.faults = []) {c : MtnCfg} (hc : c.enable = true) :
    ∃ stat, usedAllocations c s =
      (.ok (((s.db.toList.flatMap fun p => p.2.toList).map Prod.snd).filter Allocation.used,stat),s) := by
  obtain ⟨stat,hstat⟩ := collectUsed_reliable hf (s.db.toList.flatMap fun p => p.2.toList) ([],⟨0,0,0,c.enable⟩)
  refine ⟨stat,?_⟩
  rw [usedAllocations, Codec.usedAllocations, if_neg (by simp [hc])]
  apply transaction_reliable hf ?_ hf
  rw [read_bind, hstat]
  rfl

end Stout.Mtn
