import Stout.Isolate.Mtn

/-! # What the calls on the pool do to the database

One lemma a function, over any codec: what it has done to the values stored when it
returned a value, and what it has asked of the allocator. How many of them are free the
calls know only if reading a value depends on nothing but the value.
-/
namespace Stout.Mtn
open Std (ExtTreeMap)
open Prog

variable {V α : Type} {codec : Codec V}

/-! ## Calls that do not ask -/

structure Unasked (s t : StoreOf V) : Prop where
  replies : t.env.replies = s.env.replies
  requests : t.env.requests = s.env.requests

instance : IsPreorder (StoreOf V) Unasked where
  refl _ := ⟨rfl,rfl⟩
  trans _ _ _ h k := ⟨k.replies.trans h.replies,k.requests.trans h.requests⟩

/-- Nor has the database been touched. -/
structure Calm (s t : StoreOf V) : Prop where
  db : t.db = s.db
  unasked : Unasked s t

instance : IsPreorder (StoreOf V) Calm where
  refl s := ⟨rfl,refl_of Unasked s⟩
  trans _ _ _ h k := ⟨k.db.trans h.db,trans_of Unasked h.unasked k.unasked⟩

theorem external_calm : Moves Calm (external : CallOf V Unit) := by
  intro s
  unfold external
  split <;> exact ⟨rfl,rfl,rfl⟩

theorem range_ok {β : Type} {l l' : List β} {s t : StoreOf V} (h : range l s = (.ok l',t)) : l'.Perm l ∧ Calm s t := by
  cases h
  exact ⟨RangeOrder.arrange_perm _ _,rfl,rfl,rfl⟩

theorem unmarshal_calm (v : V) : Moves Calm (codec.unmarshal v) := by
  refine Moves.bind ?_ fun _ => ?_
  · split
    · exact external_calm
    · exact .pure _
  · split
    · exact .throw _
    · exact .pure _

theorem unmarshal_ok {v : V} {a : Allocation} {s t : StoreOf V} (h : codec.unmarshal v s = (.ok a,t)) :
    codec.decode v = .ok a ∧ Calm s t := by
  refine ⟨?_,(unmarshal_calm v).of_eq h⟩
  obtain ⟨_,s₁,-,h⟩ := of_bind_ok h
  cases hd : codec.decode v with
  | error e =>
    rw [hd] at h
    cases h
  | ok b =>
    rw [hd] at h
    cases h
    rfl

/-- In this world reading a value depends on nothing but the value. -/
def Codec.Steady (codec : Codec V) (s : StoreOf V) : Prop := codec.erratic = true → s.env.faults = []

theorem Codec.steady_of_not_erratic (h : codec.erratic = false) (s : StoreOf V) : codec.Steady s := by
  intro he
  rw [h] at he
  cases he

theorem unmarshal_steady {s : StoreOf V} (hs : codec.Steady s) (v : V) :
    codec.unmarshal v s = (match codec.decode v with | .error e => .error (.text e) | .ok a => .ok a,s) := by
  have hread : (if codec.erratic then external else pure () : CallOf V Unit) s = (.ok (),s) := by
    split
    · rename_i he
      rw [external, hs he]
    · rfl
  rw [Codec.unmarshal, bind_ok hread]
  cases codec.decode v <;> rfl

theorem marshal_ok {a : Allocation} {v : V} {s t : StoreOf V} (h : codec.marshal a s = (.ok v,t)) :
    v = codec.encode a ∧ Calm s t := by
  obtain ⟨_,s₁,he,hp⟩ := of_bind_ok h
  cases hp
  exact ⟨rfl,external_calm.of_eq he⟩

def Codec.free (codec : Codec V) (v : V) : Bool := (codec.decode v).toOption.any fun a => !a.used

theorem free_iff {v : V} : codec.free v = true ↔ ∃ a, codec.decode v = .ok a ∧ a.used = false := by
  unfold Codec.free
  cases codec.decode v with
  | error e => simp [Except.toOption]
  | ok a => simp [Except.toOption]

theorem dbAllocIsFree_calm (v : V) : Moves Calm (codec.dbAllocIsFree v) := by
  refine (unmarshal_calm v).attempt.bind fun r => ?_
  cases r <;> exact .pure _

theorem dbAllocIsFree_ok {v : V} {s t : StoreOf V} (h : codec.dbAllocIsFree v s = (.ok true,t)) :
    ∃ a, codec.decode v = .ok a ∧ a.used = false := by
  obtain ⟨r,s₁,ha,hr⟩ := of_bind_ok h
  rcases of_attempt_ok ha with ⟨a,rfl,hu⟩ | ⟨e,rfl,-⟩
  · exact ⟨a,(unmarshal_ok hu).1,by simpa [pure_apply] using congrArg Prod.fst hr⟩
  · cases hr

theorem dbAllocIsFree_steady {s : StoreOf V} (hs : codec.Steady s) (v : V) :
    codec.dbAllocIsFree v s = (.ok (codec.free v),s) := by
  have hu := unmarshal_steady hs v
  unfold Codec.dbAllocIsFree Codec.free
  cases hd : codec.decode v with
  | error e =>
    rw [hd] at hu
    rw [bind_ok (attempt_error hu)]
    rfl
  | ok a =>
    rw [hd] at hu
    rw [bind_ok (attempt_ok hu)]
    rfl

def ValidKey (id : String) : Prop := id ≠ "" ∧ id.length ≤ 32768

theorem put_ok {netId id : String} {v : V} {s t : StoreOf V} {u : Unit} (h : put netId id v s = (.ok u,t)) :
    ValidKey id ∧ t.db = Buckets.put s.db netId id v ∧ Unasked s t := by
  obtain ⟨_,s₁,he,hp⟩ := of_bind_ok h
  have hs := external_calm.of_eq he
  split at hp
  · exact (of_throw_ok hp).elim
  · rename_i hid
    split at hp
    · exact (of_throw_ok hp).elim
    · rename_i hlen
      cases hp
      exact ⟨⟨hid,Nat.le_of_not_lt hlen⟩,by rw [← hs.db],hs.unasked.replies,hs.unasked.requests⟩

theorem store_ok {netId id : String} {a : Allocation} {s t : StoreOf V} {u : Unit}
    (h : (do let value ← codec.marshal a; put netId id value : CallOf V Unit) s = (.ok u,t)) :
    ValidKey id ∧ t.db = Buckets.put s.db netId id (codec.encode a) ∧ Unasked s t := by
  obtain ⟨v,s₁,hv,hp⟩ := of_bind_ok h
  obtain ⟨rfl,hs⟩ := marshal_ok hv
  obtain ⟨hid,hdb,hun⟩ := put_ok hp
  exact ⟨hid,by rw [hdb, hs.db],trans_of Unasked hs.unasked hun⟩

theorem createBucketIfNotExists_ok {netId : String} {s t : StoreOf V} {u : Unit}
    (h : createBucketIfNotExists netId s = (.ok u,t)) :
    netId ≠ "" ∧ t.db = Buckets.addBucket s.db netId ∧ Unasked s t := by
  obtain ⟨_,s₁,he,hp⟩ := of_bind_ok h
  have hs := external_calm.of_eq he
  split at hp
  · exact (of_throw_ok hp).elim
  · rename_i hn
    cases hp
    exact ⟨hn,by rw [← hs.db],hs.unasked.replies,hs.unasked.requests⟩

/-! ## Counting -/

def Codec.freeCount (codec : Codec V) (db : Buckets.Db String V) (netId : String) : ℕ := Buckets.count codec.free db netId

theorem countFree_calm (l : List (String × V)) (counter : ℤ) : Moves Calm (codec.countFree l counter) := by
  induction l generalizing counter with
  | nil => exact .pure _
  | cons p l ih =>
    refine (dbAllocIsFree_calm p.2).bind fun b => ?_
    cases b <;> exact ih _

theorem countFree_steady {s : StoreOf V} (hs : codec.Steady s) (l : List (String × V)) (counter : ℤ) :
    codec.countFree l counter s = (.ok (counter + l.countP fun p => codec.free p.2),s) := by
  induction l generalizing counter with
  | nil => simp [Codec.countFree, pure_apply]
  | cons p l ih =>
    rw [Codec.countFree, bind_ok (dbAllocIsFree_steady hs p.2), List.countP_cons]
    split
    · rw [ih]
      push_cast
      congr 2
      ring
    · rw [ih, Nat.add_zero]

theorem countFreeAllocs_ok {netId : String} {n : ℤ} {s t : StoreOf V}
    (h : codec.countFreeAllocs netId s = (.ok n,t)) :
    (codec.erratic = false → n = codec.freeCount s.db netId) ∧ netId ≠ "" ∧ t.db = Buckets.addBucket s.db netId ∧
      Unasked s t := by
  obtain ⟨_,s₁,hb,h⟩ := of_bind_ok h
  obtain ⟨hn,hdb,hun⟩ := createBucketIfNotExists_ok hb
  rw [read_bind] at h
  have hs := (countFree_calm _ _).of_eq h
  refine ⟨?_,hn,hs.db.trans hdb,trans_of Unasked hun hs.unasked⟩
  intro hc
  rw [countFree_steady (codec.steady_of_not_erratic hc s₁)] at h
  cases h
  rw [zero_add, hdb]
  exact congrArg Nat.cast (Buckets.count_addBucket _ s.db netId netId)

/-- Nothing happens to a database that has the bucket. -/
def CalmIn (netId : String) (s t : StoreOf V) : Prop := s.db.contains netId = true → Calm s t

theorem Calm.calmIn {netId : String} {s t : StoreOf V} (h : Calm s t) : CalmIn netId s t := fun _ => h

instance (netId : String) : IsPreorder (StoreOf V) (CalmIn netId) where
  refl s := (refl_of Calm s).calmIn
  trans s t u h k hs := trans_of Calm (h hs) (k (by rw [(h hs).db]; exact hs))

theorem createBucketIfNotExists_calmIn (netId : String) :
    Moves (CalmIn netId) (createBucketIfNotExists netId : CallOf V Unit) := by
  refine Moves.bind (fun s => (external_calm s).calmIn) fun _ => ?_
  split
  · exact .throw _
  · intro s hs
    exact ⟨Buckets.addBucket_of_contains hs,rfl,rfl⟩

theorem countFreeAllocs_calmIn (netId : String) : Moves (CalmIn netId) (codec.countFreeAllocs netId) := by
  refine (createBucketIfNotExists_calmIn netId).bind fun _ => Moves.read.bind fun s t => ?_
  exact (countFree_calm _ _ t).calmIn

/-! ## Taking and storing -/

def Codec.encoded (codec : Codec V) (l : List (String × Allocation)) : List (String × V) :=
  l.map fun p => (p.1,codec.encode p.2)

theorem keys_encoded (l : List (String × Allocation)) : (codec.encoded l).map Prod.fst = l.map Prod.fst := by
  simp [Codec.encoded]

theorem storeAll_ok {netId : String} {l : List (String × Allocation)} {s t : StoreOf V} {u : PUnit}
    (h : codec.storeAll netId l s = (.ok u,t)) :
    (∀ p ∈ l, ValidKey p.1) ∧ t.db = Buckets.putAll s.db netId (codec.encoded l) ∧ Unasked s t := by
  refine forM_invariant (I := fun pre x => (∀ p ∈ pre, ValidKey p.1) ∧
    x.db = Buckets.putAll s.db netId (codec.encoded pre) ∧ Unasked s x) ?_ ⟨nofun,rfl,refl_of Unasked s⟩ h
  rintro pre p post s₁ s₂ _ - ⟨hkeys,hdb,hun⟩ hp
  obtain ⟨hid,hdb',hun'⟩ := store_ok hp
  refine ⟨?_,?_,trans_of Unasked hun hun'⟩
  · intro q hq
    rcases List.mem_append.mp hq with hq | hq
    · exact hkeys q hq
    · rw [List.mem_singleton.mp hq]
      exact hid
  · rw [Codec.encoded, List.map_append, Buckets.putAll_append, hdb', hdb]
    rfl

def taken (a : Allocation) (box : String) : Allocation := { a with used := true, box := box }

theorem storeTaking_some_ok {netId box : String} {a : Allocation} {l : List (String × Allocation)}
    {r : Option Allocation} {s t : StoreOf V} (h : codec.storeTaking netId box (some a) l s = (.ok r,t)) :
    r = some a ∧ (∀ p ∈ l, ValidKey p.1) ∧ t.db = Buckets.putAll s.db netId (codec.encoded l) := by
  induction l generalizing s with
  | nil =>
    cases h
    exact ⟨rfl,nofun,rfl⟩
  | cons p l ih =>
    obtain ⟨v,s₁,hv,h⟩ := of_bind_ok h
    obtain ⟨rfl,hs₁⟩ := marshal_ok hv
    obtain ⟨_,s₂,hp,h⟩ := of_bind_ok h
    obtain ⟨hid,hdb,-⟩ := put_ok hp
    obtain ⟨hr,hkeys,ht⟩ := ih h
    refine ⟨hr,List.forall_mem_cons.mpr ⟨hid,hkeys⟩,?_⟩
    rw [ht, hdb, hs₁.db]
    rfl

theorem storeTaking_none_ok {netId box : String} {l : List (String × Allocation)} {a : Allocation} {s t : StoreOf V}
    (h : codec.storeTaking netId box none l s = (.ok (some a),t)) :
    ∃ id alloc rest, l = (id,alloc) :: rest ∧ a = taken alloc box ∧ (∀ p ∈ l, ValidKey p.1) ∧
      t.db = Buckets.putAll s.db netId ((id,codec.encode a) :: codec.encoded rest) := by
  cases l with
  | nil => cases h
  | cons p l =>
    obtain ⟨v,s₁,hv,h⟩ := of_bind_ok h
    obtain ⟨rfl,hs₁⟩ := marshal_ok hv
    obtain ⟨_,s₂,hp,h⟩ := of_bind_ok h
    obtain ⟨hid,hdb,-⟩ := put_ok hp
    obtain ⟨hr,hkeys,ht⟩ := storeTaking_some_ok h
    cases hr
    refine ⟨p.1,p.2,l,rfl,rfl,List.forall_mem_cons.mpr ⟨hid,hkeys⟩,?_⟩
    rw [ht, hdb, hs₁.db]
    rfl

theorem takeFree_ok {netId box : String} {l : List (String × V)} {r : Option Allocation} {s t : StoreOf V}
    (h : codec.takeFree netId box l s = (.ok r,t)) :
    (r = none ∧ (codec.erratic = false → ∀ p ∈ l, codec.free p.2 = false) ∧ Calm s t) ∨
    ∃ k v a, (k,v) ∈ l ∧ codec.decode v = .ok a ∧ a.used = false ∧ r = some (taken a box) ∧ ValidKey a.id ∧
      t.db = Buckets.put s.db netId a.id (codec.encode (taken a box)) ∧ Unasked s t := by
  induction l generalizing s with
  | nil =>
    cases h
    exact Or.inl ⟨rfl,nofun,refl_of Calm _⟩
  | cons p l ih =>
    obtain ⟨b,s₁,hb,h⟩ := of_bind_ok h
    have hs₁ := (dbAllocIsFree_calm p.2).of_eq hb
    cases b with
    | true =>
      obtain ⟨a,ha,hu⟩ := dbAllocIsFree_ok hb
      obtain ⟨a',s₂,hm,h⟩ := of_bind_ok h
      obtain ⟨ha',hs₂⟩ := unmarshal_ok hm
      cases ha.symm.trans ha'
      obtain ⟨v,s₃,hv,h⟩ := of_bind_ok h
      obtain ⟨rfl,hs₃⟩ := marshal_ok hv
      obtain ⟨_,s₄,hp,h⟩ := of_bind_ok h
      obtain ⟨hid,hdb,hun⟩ := put_ok hp
      cases h
      have hs := trans_of Calm (trans_of Calm hs₁ hs₂) hs₃
      refine Or.inr ⟨p.1,p.2,a,List.mem_cons_self,ha,hu,rfl,hid,?_,trans_of Unasked hs.unasked hun⟩
      rw [hdb, hs.db]
      rfl
    | false =>
      rcases ih h with ⟨hr,hall,hs⟩ | ⟨k,v,a,hm,ha,hu,hr,hid,hdb,hun⟩
      · refine Or.inl ⟨hr,?_,trans_of Calm hs₁ hs⟩
        intro hc
        rw [dbAllocIsFree_steady (codec.steady_of_not_erratic hc s)] at hb
        have hp : codec.free p.2 = false := by simpa using congrArg Prod.fst hb
        exact List.forall_mem_cons.mpr ⟨hp,hall hc⟩
      · exact Or.inr ⟨k,v,a,List.mem_cons_of_mem _ hm,ha,hu,hr,hid,by rw [hdb, hs₁.db],trans_of Unasked hs₁.unasked hun⟩

/-! ## The allocator -/

/-- The allocations that `i` requests bring, if all of them are answered with one. -/
def received (netid : String) : ℕ → Bucket → List (Exchange RawAlloc) → Option Bucket
  | 0, r, _ => some r
  | i + 1, r, .response x :: rest =>
    match x.decoded with
    | .ok raw => received netid i (r.insert raw.id (replied netid raw)) rest
    | .error _ => none
  | _ + 1, _, _ => none

theorem received_cases {netid : String} {i : ℕ} {r m : Bucket} {replies : List (Exchange RawAlloc)}
    (h : received netid (i + 1) r replies = some m) :
    ∃ x raw rest, replies = .response x :: rest ∧ x.decoded = .ok raw ∧
      received netid i (r.insert raw.id (replied netid raw)) rest = some m := by
  cases replies with
  | nil => simp [received] at h
  | cons e rest =>
  cases e with
  | newRequestError e => simp [received] at h
  | doError e x => simp [received] at h
  | response x =>
  rw [received] at h
  cases hd : x.decoded with
  | error e =>
    rw [hd] at h
    cases h
  | ok raw =>
    rw [hd] at h
    exact ⟨x,raw,rest,rfl,hd,h⟩

def Replied (replies : List (Exchange RawAlloc)) (netid id : String) (a : Allocation) : Prop :=
  ∃ r raw, Exchange.response r ∈ replies ∧ r.decoded = .ok raw ∧ raw.id = id ∧ a = replied netid raw

theorem received_loop {netid : String} {i : ℕ} {r m : Bucket} {replies replies₀ : List (Exchange RawAlloc)}
    (hsub : replies ⊆ replies₀) (hr : ∀ (id : String) (a : Allocation), r[id]? = some a → Replied replies₀ netid id a)
    (h : received netid i r replies = some m) {id : String} {a : Allocation} (ha : m[id]? = some a) :
    Replied replies₀ netid id a := by
  induction i generalizing r replies with
  | zero =>
    cases h
    exact hr id a ha
  | succ i ih =>
    obtain ⟨x,raw,rest,rfl,hd,hrec⟩ := received_cases h
    refine ih (fun y hy => hsub (List.mem_cons_of_mem _ hy)) ?_ hrec
    intro id' a' ha'
    rw [ExtTreeMap.getElem?_insert] at ha'
    split at ha'
    · rename_i he
      cases ha'
      exact ⟨x,raw,hsub List.mem_cons_self,hd,compare_eq_iff_eq.mp he,rfl⟩
    · exact hr id' a' ha'

theorem received_replied {netid : String} {i : ℕ} {m : Bucket} {replies : List (Exchange RawAlloc)}
    (h : received netid i ∅ replies = some m) {id : String} {a : Allocation} (ha : m[id]? = some a) :
    Replied replies netid id a :=
  received_loop (List.Subset.refl _) (by simp) h ha

theorem requestLoop_received {c : MtnCfg} {netid : String} {i : ℕ} {r m : Bucket} {s t : StoreOf V}
    (h : requestLoop c netid i r s = (.ok m,t)) :
    received netid i r s.env.replies = some m ∧ t.db = s.db ∧
      t.env.requests.length = s.env.requests.length + i := by
  induction i generalizing r s with
  | zero =>
    cases h
    exact ⟨rfl,rfl,rfl⟩
  | succ i ih =>
    obtain ⟨raw,s₁,hq,hl⟩ := of_bind_ok h
    obtain ⟨hrec,hdb,hlen⟩ := ih hl
    unfold requestAlloc at hq
    dsimp only at hq
    split at hq
    · cases hq
    · cases hq
    · cases hq
    · cases hq
    · rename_i x rest hr
      split at hq
      · cases hq
      · rename_i raw' hd
        cases hq
        rw [hr] at hrec
        rw [hr, received, hd]
        refine ⟨hrec,hdb,?_⟩
        rw [hlen]
        simp only [List.length_append, List.length_singleton]
        omega

theorem requestAllocs_ok {c : MtnCfg} {netid : String} {m : Bucket} {s t : StoreOf V}
    (h : requestAllocs c netid s = (.ok m,t)) :
    received netid c.allocbuffer.toNat ∅ s.env.replies = some m ∧ t.db = s.db ∧
      t.env.requests.length = s.env.requests.length + c.allocbuffer.toNat := by
  obtain ⟨_,s₁,he,hl⟩ := of_bind_ok h
  have hs := external_calm.of_eq he
  obtain ⟨hrec,hdb,hlen⟩ := requestLoop_received hl
  rw [hs.unasked.replies] at hrec
  rw [hs.unasked.requests] at hlen
  exact ⟨hrec,hdb.trans hs.db,hlen⟩

/-! ## Transactions -/

section Transaction
variable {body : CallOf V α} {beginErr commitErr : Err → Err}

theorem transaction_ok {a : α} {s t : StoreOf V} (h : transaction body beginErr commitErr s = (.ok a,t)) :
    ∃ s₁ s₂, Calm s s₁ ∧ body s₁ = (.ok a,s₂) ∧ Calm s₂ t := by
  unfold transaction at h
  split at h
  · rename_i hb
    cases h
    obtain ⟨_,s₁,he,hb⟩ := of_bind_ok hb
    obtain ⟨a',s₂,ha,hb⟩ := of_bind_ok hb
    obtain ⟨_,s₃,hc,hp⟩ := of_bind_ok hb
    cases hp
    exact ⟨s₁,s₂,external_calm.of_eq (of_mapError_ok he),ha,external_calm.of_eq (of_mapError_ok hc)⟩
  · rename_i hne _
    cases h
    exact (hne a rfl).elim

/-- The same database; calls that failed keep it. -/
def SameDb (s t : StoreOf V) : Prop := t.db = s.db

instance : IsPreorder (StoreOf V) SameDb where
  refl _ := rfl
  trans _ _ _ h k := Eq.trans k h

theorem transaction_fails : Fails SameDb (transaction body beginErr commitErr) := by
  intro s o t h ho
  unfold transaction at h
  split at h
  · cases h
    exact (ho _ rfl).elim
  · cases h
    rfl

end Transaction

/-! ## The operations -/

/-- A successful `BindAllocs`: the bucket has enough free records, or what the allocator
sent has been stored. -/
inductive Bound (codec : Codec V) (c : MtnCfg) (netId : String) (s t : StoreOf V) : Prop
  | enough : (codec.erratic = false → c.allocbuffer ≤ codec.freeCount s.db netId) →
      t.db = Buckets.addBucket s.db netId → Unasked s t → Bound codec c netId s t
  | refilled {m : Bucket} {l : List (String × Allocation)} :
      (codec.erratic = false → codec.freeCount s.db netId < c.allocbuffer) →
      received netId c.allocbuffer.toNat ∅ s.env.replies = some m → l.Perm m.toList → (∀ p ∈ l, ValidKey p.1) →
      t.db = Buckets.putAll (Buckets.addBucket s.db netId) netId (codec.encoded l) →
      t.env.requests.length = s.env.requests.length + c.allocbuffer.toNat → Bound codec c netId s t

theorem bindAllocs_ok {c : MtnCfg} {netId : String} {s t : StoreOf V} {u : Unit}
    (h : codec.bindAllocs c netId s = (.ok u,t)) : netId ≠ "" ∧ Bound codec c netId s t := by
  unfold Codec.bindAllocs at h
  split at h
  · exact (of_throw_ok h).elim
  rename_i hne
  refine ⟨hne,?_⟩
  obtain ⟨s₁,s₂,hs₁,hb,ht⟩ := transaction_ok h
  obtain ⟨fCount,s₃,hc,hb⟩ := of_bind_ok hb
  obtain ⟨hcount,-,hdb₃,hun₃⟩ := countFreeAllocs_ok hc
  rw [hs₁.db] at hcount hdb₃
  have hun := trans_of Unasked hs₁.unasked hun₃
  split at hb
  · rename_i hlt
    obtain ⟨m,s₄,hm,hb⟩ := of_bind_ok hb
    obtain ⟨hrec,hdb₄,hreq⟩ := requestAllocs_ok hm
    obtain ⟨_,s₅,hcb,hb⟩ := of_bind_ok hb
    obtain ⟨-,hdb₅,hun₅⟩ := createBucketIfNotExists_ok hcb
    obtain ⟨l,s₆,hl,hb⟩ := of_bind_ok hb
    obtain ⟨hperm,hs₆⟩ := range_ok hl
    obtain ⟨hkeys,hdb,hun₇⟩ := storeAll_ok hb
    refine .refilled (fun hs => hcount hs ▸ hlt) (by rw [← hun.replies]; exact hrec) hperm hkeys ?_ ?_
    · rw [ht.db, hdb, hs₆.db, hdb₅, hdb₄, hdb₃, Buckets.addBucket_addBucket]
    · rw [ht.unasked.requests, hun₇.requests, hs₆.unasked.requests, hun₅.requests, hreq, hun.requests]
  · rename_i hle
    cases hb
    refine .enough (fun hs => ?_) (by rw [ht.db, hdb₃]) (trans_of Unasked hun ht.unasked)
    rw [hcount hs] at hle
    omega

theorem bindAllocs_fails (c : MtnCfg) (netId : String) : Fails SameDb (codec.bindAllocs c netId) := by
  unfold Codec.bindAllocs
  split
  · exact (Moves.throw _).fails
  · exact transaction_fails

/-- A successful `UseAlloc`: a free record has been taken, or the first of what the
allocator sent for want of one. -/
inductive Took (codec : Codec V) (c : MtnCfg) (netId box : String) (a : Allocation) (s t : StoreOf V) : Prop
  | stored {k : String} {v : V} {r : Allocation} : Buckets.value s.db netId k = some v → codec.decode v = .ok r →
      r.used = false → a = taken r box → t.db = Buckets.put s.db netId r.id (codec.encode a) → Unasked s t →
      Took codec c netId box a s t
  | requested {m : Bucket} {id : String} {alloc : Allocation} {rest : List (String × Allocation)} : netId ≠ "" →
      (codec.erratic = false → ∀ k v, Buckets.value s.db netId k = some v → codec.free v = false) →
      received netId c.allocbuffer.toNat ∅ s.env.replies = some m → ((id,alloc) :: rest).Perm m.toList →
      (∀ p ∈ (id,alloc) :: rest, ValidKey p.1) → a = taken alloc box →
      t.db = Buckets.putAll s.db netId ((id,codec.encode a) :: codec.encoded rest) → Took codec c netId box a s t

theorem useAlloc_ok {c : MtnCfg} {netId box : String} {a : Allocation} {s t : StoreOf V}
    (h : codec.useAlloc c netId box s = (.ok a,t)) :
    s.db.contains netId = true ∧ Took codec c netId box a s t := by
  obtain ⟨s₁,s₂,hs₁,hb,ht⟩ := transaction_ok h
  rw [Codec.getDbAlloc, read_bind, hs₁.db] at hb
  cases hbk : s.db[netId]? with
  | none =>
    rw [hbk] at hb
    exact (of_throw_ok hb).elim
  | some b =>
  rw [hbk] at hb
  have hcont : s.db.contains netId = true := by
    rw [ExtTreeMap.contains_eq_isSome_getElem?, hbk]
    rfl
  have hentries (k : String) (v : V) : (k,v) ∈ b.toList ↔ Buckets.value s.db netId k = some v := by
    rw [ExtTreeMap.mem_toList_iff_getElem?_eq_some, Buckets.value, hbk, Option.bind_some]
  refine ⟨hcont,?_⟩
  obtain ⟨r,s₃,htk,hb⟩ := of_bind_ok hb
  rcases takeFree_ok htk with ⟨rfl,hall,hs₃⟩ | ⟨k,v,x,hkv,hx,hu,rfl,-,hdb,hun⟩
  · have hs := trans_of Calm hs₁ hs₃
    obtain ⟨_,s₄,hc,hb⟩ := of_bind_ok hb
    have hs₄ := (countFreeAllocs_calmIn netId).attempt.of_eq hc (by rw [hs.db]; exact hcont)
    obtain ⟨m,s₅,hm,hb⟩ := of_bind_ok hb
    obtain ⟨hrec,hdb₅,-⟩ := requestAllocs_ok hm
    obtain ⟨_,s₆,hcb,hb⟩ := of_bind_ok hb
    obtain ⟨hn,hdb₆,-⟩ := createBucketIfNotExists_ok hcb
    obtain ⟨l,s₇,hl,hb⟩ := of_bind_ok hb
    obtain ⟨hperm,hs₇⟩ := range_ok hl
    obtain ⟨r,s₈,hst,hb⟩ := of_bind_ok hb
    cases r with
    | none => exact (of_throw_ok hb).elim
    | some a' =>
      cases hb
      obtain ⟨id,alloc,rest,rfl,ha,hkeys,hdb⟩ := storeTaking_none_ok hst
      have hdb' : s₇.db = s.db := by
        rw [hs₇.db, hdb₆, hdb₅, hs₄.db, hs.db, Buckets.addBucket_of_contains hcont]
      refine .requested hn ?_ ?_ hperm hkeys ha ?_
      · intro hsteady k v hv
        exact hall hsteady (k,v) ((hentries k v).mpr hv)
      · rw [← hs.unasked.replies, ← hs₄.unasked.replies]
        exact hrec
      · rw [ht.db, hdb, hdb']
  · cases hb
    refine .stored ((hentries k v).mp hkv) hx hu rfl ?_ ?_
    · rw [ht.db, hdb, hs₁.db]
    · exact trans_of Unasked (trans_of Unasked hs₁.unasked hun) ht.unasked

theorem freeDbAlloc_ok {netId id : String} {s t : StoreOf V} {u : Unit} (h : codec.freeDbAlloc netId id s = (.ok u,t)) :
    ∃ v a, Buckets.value s.db netId id = some v ∧ codec.decode v = .ok a ∧
      t.db = Buckets.put s.db netId id (codec.encode { a with used := false }) := by
  obtain ⟨s₁,s₂,hs,hb,ht⟩ := transaction_ok h
  rw [ht.db, ← hs.db]
  rw [read_bind] at hb
  cases hbk : s₁.db[netId]? with
  | none =>
    rw [hbk] at hb
    exact (of_throw_ok hb).elim
  | some b =>
  rw [hbk] at hb
  cases hv : b[id]? with
  | none =>
    dsimp only at hb
    rw [hv] at hb
    exact (of_throw_ok hb).elim
  | some v =>
  dsimp only at hb
  rw [hv] at hb
  obtain ⟨a,s₃,ha,hst⟩ := of_bind_ok hb
  obtain ⟨hd,hs₃⟩ := unmarshal_ok ha
  refine ⟨v,a,?_,hd,?_⟩
  · rw [Buckets.value, hbk]
    exact hv
  · rw [(store_ok hst).2.1, hs₃.db]

/-- What is stored for a listed allocation that is not there. -/
def fresh (netId : String) (alloc : Allocation) : Allocation :=
  ⟨alloc.net,alloc.hostname,alloc.ip,alloc.id,netId,"",false⟩

theorem initAlloc_ok {netId : String} {alloc : Allocation} {s t : StoreOf V} {u : Unit}
    (h : codec.initAlloc netId alloc s = (.ok u,t)) :
    t.db = Buckets.putNew s.db netId alloc.id (codec.encode (fresh netId alloc)) := by
  obtain ⟨_,s₁,hc,h⟩ := of_bind_ok h
  obtain ⟨-,hdb,-⟩ := createBucketIfNotExists_ok hc
  rw [read_bind] at h
  rw [← Buckets.putNew_addBucket, ← hdb]
  split at h
  · rename_i hn
    obtain ⟨-,ht,-⟩ := store_ok h
    rw [if_pos hn, ht]
    rfl
  · rename_i hn
    cases h
    rw [if_neg hn]

theorem getAllocations_sameDb (c : MtnCfg) :
    Moves SameDb (getAllocations c : CallOf V (ExtTreeMap String (List Allocation) compare)) := by
  intro s
  unfold getAllocations
  dsimp only
  split
  · rfl
  · rfl
  · split <;> rfl
  · split <;> rfl

def listed (a : RawAlloc) : Allocation := ⟨a.porto.net,a.porto.hostname,a.porto.ip,a.id,a.network,"",false⟩

theorem group_getD (raws : List RawAlloc) (n : String) :
    (group raws).getD n [] = (raws.filter fun a => a.network = n).map listed := by
  have hgen (r : ExtTreeMap String (List Allocation) compare) :
      (raws.foldl (fun r a => r.insert a.network (r.getD a.network [] ++ [listed a])) r).getD n [] =
        r.getD n [] ++ (raws.filter fun a => a.network = n).map listed := by
    induction raws generalizing r with
    | nil => simp
    | cons a raws ih =>
      rw [List.foldl_cons, ih, ExtTreeMap.getD_insert]
      by_cases ha : a.network = n
      · simp [ha]
      · simp [ha]
  have hempty := hgen ∅
  rw [ExtTreeMap.getD_empty, List.nil_append] at hempty
  exact hempty

/-- The listed allocations as the loops come to them. -/
def Codec.entries (codec : Codec V) (nets : List (String × List Allocation)) : List (String × String × V) :=
  nets.flatMap fun p => p.2.map fun alloc => (p.1,alloc.id,codec.encode (fresh p.1 alloc))

/-- A successful `PoolInit` has put what was listed, the networks being taken in some
order. -/
theorem poolInit_ok {c : MtnCfg} {s t : StoreOf V} {u : Unit} (hc : c.enable = true)
    (h : codec.poolInit c s = (.ok u,t)) :
    ∃ allAllocs s₁ nets, getAllocations c s = (.ok allAllocs,s₁) ∧ nets.Perm allAllocs.toList ∧
      t.db = Buckets.putAllNew s.db (codec.entries nets) := by
  unfold Codec.poolInit at h
  rw [if_neg (by simp [hc])] at h
  obtain ⟨allAllocs,s₁,hg,h⟩ := of_bind_ok h
  have hg := of_mapError_ok hg
  have hs₁ : s₁.db = s.db := (getAllocations_sameDb c).of_eq hg
  obtain ⟨s₂,s₃,hs₂,h,ht⟩ := transaction_ok h
  obtain ⟨nets,s₄,hn,h⟩ := of_bind_ok h
  obtain ⟨hperm,hs₄⟩ := range_ok hn
  refine ⟨allAllocs,s₁,nets,hg,hperm,?_⟩
  have hone (p : String × List Allocation) (s t : StoreOf V) (u : PUnit)
      (h : (p.2.forM fun alloc => (codec.initAlloc p.1 alloc).mapError fun e =>
        Err.mtnError (sprint "Cant continue transaction inside PoolInit(), err: %s" e) .ErrStdb) s = (.ok u,t)) :
      t.db = Buckets.putAllNew s.db (p.2.map fun alloc => (p.1,alloc.id,codec.encode (fresh p.1 alloc))) := by
    rw [Buckets.putAllNew, List.foldl_map]
    exact forM_foldl (fun alloc s t u ha => initAlloc_ok (of_mapError_ok ha)) h
  have hall : s₃.db = nets.foldl (fun d p => Buckets.putAllNew d
      (p.2.map fun alloc => (p.1,alloc.id,codec.encode (fresh p.1 alloc)))) s₄.db := forM_foldl hone h
  rw [ht.db, hall, hs₄.db, hs₂.db, hs₁, Codec.entries, Buckets.putAllNew, List.foldl_flatMap]
  rfl

theorem poolInit_fails (c : MtnCfg) : Fails SameDb (codec.poolInit c) := by
  unfold Codec.poolInit
  split
  · exact (Moves.pure _).fails
  · exact Fails.bind ((getAllocations_sameDb c).mapError _) fun _ => transaction_fails

theorem collectUsed_calm (l : List (String × V)) (r : List Allocation × AllocsStat) :
    Moves Calm (codec.collectUsed l r) := by
  induction l generalizing r with
  | nil => exact .pure r
  | cons p l ih =>
    refine (dbAllocIsFree_calm p.2).bind fun b => ?_
    cases b with
    | true => exact ih _
    | false => exact (unmarshal_calm p.2).bind fun a => ih _

theorem usedAllocations_sameDb (c : MtnCfg) : Moves SameDb (codec.usedAllocations c) := by
  intro s
  rcases h : codec.usedAllocations c s with ⟨o,t⟩
  unfold Codec.usedAllocations at h
  split at h
  · cases h
    rfl
  by_cases ho : ∀ a, o ≠ .ok a
  · exact transaction_fails s o t h ho
  push Not at ho
  obtain ⟨r,rfl⟩ := ho
  obtain ⟨s₁,s₂,hs,hb,ht⟩ := transaction_ok h
  rw [read_bind] at hb
  have hc := (collectUsed_calm _ _).of_eq hb
  change t.db = s.db
  rw [ht.db, hc.db, hs.db]

end Stout.Mtn
