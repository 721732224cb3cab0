import Stout.Library.Lease
import Stout.Isolate.MtnSpec

/-! # Runs of the pool

Any sequence of calls on one database, each with its own answers from outside. An
allocation in use is a lease on its network and id; the database refines the abstract
lease as long as the allocator does not send again what is stored.
-/
namespace Stout.Mtn
open Std (ExtTreeMap)
open Prog

inductive Op where
  | poolInit
  | bindAllocs (netId : String)
  | useAlloc (netId box : String)
  | freeDbAlloc (netId id : String)
  | unuseAlloc (netId id : String)
  | usedAllocations
deriving DecidableEq, Repr

inductive Reply where
  | done
  | allocation (a : Allocation)
  | logged (r : Except Err Unit)
  | listed (r : List Allocation × AllocsStat)

variable {V : Type}

def Codec.perform (codec : Codec V) (c : MtnCfg) : Op → CallOf V Reply
  | .poolInit => do codec.poolInit c; pure .done
  | .bindAllocs netId => do codec.bindAllocs c netId; pure .done
  | .useAlloc netId box => do pure (.allocation (← codec.useAlloc c netId box))
  | .freeDbAlloc netId id => do codec.freeDbAlloc netId id; pure .done
  | .unuseAlloc netId id => do pure (.logged (← codec.unuseAlloc netId id))
  | .usedAllocations => do pure (.listed (← codec.usedAllocations c))

def Codec.step (codec : Codec V) (c : MtnCfg) (db : Buckets.Db String V) (a : Op × Env) : Option (Buckets.Db String V) :=
  some (codec.perform c a.1 ⟨db,a.2⟩).2.db

/-- The call ended with an error, for its caller or for the log, or in a panic. -/
def Failed : Outcome Err Reply → Prop
  | .ok (.logged (.error _)) => True
  | .ok _ => False
  | _ => True

/-- No POST reply carries an id that the bucket holds. -/
def FreshFor (db : Db) (netId : String) (env : Env) : Prop :=
  ∀ r raw, Exchange.response r ∈ env.replies → r.decoded = .ok raw → record db netId raw.id = none

def Exchange.id? : Exchange RawAlloc → Option String
  | .response r => r.decoded.toOption.map RawAlloc.id
  | _ => none

instance (db : Db) (netId : String) (env : Env) : Decidable (FreshFor db netId env) :=
  decidable_of_iff (∀ x ∈ env.replies, ∀ id ∈ x.id?, record db netId id = none) (by
    constructor
    · intro h r raw hr hd
      exact h _ hr raw.id (by simp [Exchange.id?, hd, Except.toOption])
    · intro h x hx id hid
      cases x with
      | response r =>
        cases hd : r.decoded with
        | error e => simp [Exchange.id?, hd, Except.toOption] at hid
        | ok raw =>
          have hraw : raw.id = id := by simpa [Exchange.id?, hd, Except.toOption] using hid
          exact hraw ▸ h r raw hx hd
      | newRequestError e => cases hid
      | doError e r => cases hid)

/-- The assumption on the allocator, for the calls that ask it. -/
def FreshReplies (db : Db) (a : Op × Env) : Prop :=
  match a.1 with
  | .bindAllocs netId | .useAlloc netId _ => FreshFor db netId a.2
  | _ => True

instance (db : Db) (a : Op × Env) : Decidable (FreshReplies db a) :=
  match a with
  | (.bindAllocs netId,env) | (.useAlloc netId _,env) => inferInstanceAs (Decidable (FreshFor db netId env))
  | (.poolInit,_) | (.freeDbAlloc _ _,_) | (.unuseAlloc _ _,_) | (.usedAllocations,_) => .isTrue trivial

/-- Every record is stored under its own id in the bucket of its own network. -/
def WellKeyed (db : Db) : Prop := ∀ n k a, record db n k = some a → a.id = k ∧ a.netId = n

def Allocation.key (a : Allocation) : String × String := (a.netId,a.id)

def held (db : Db) : Set (String × String) := { p | ∃ a, record db p.1 p.2 = some a ∧ a.used = true }

/-- What a call does to the allocations in use. -/
def Codec.event (codec : Codec V) (c : MtnCfg) (db : Buckets.Db String V) (a : Op × Env) : Lease.Event (String × String) :=
  match a.1, (codec.perform c a.1 ⟨db,a.2⟩).1 with
  | .useAlloc _ _, .ok (.allocation r) => .acquire (r.netId,r.id)
  | .freeDbAlloc netId id, .ok _ => .release (netId,id)
  | .unuseAlloc netId id, .ok (.logged (.ok ())) => .release (netId,id)
  | _, _ => .quiet

/-! ## Growth -/

theorem record_putRecord (db : Db) (netId id : String) (a : Allocation) (n k : String) :
    record (putRecord db netId id a) n k = if netId = n ∧ id = k then some a else record db n k :=
  Buckets.value_put db netId id a n k

/-- Away from the names in `off` every record is kept, and what is added is free and
stored under its own name. -/
structure Grows (off : Set (String × String)) (db db' : Db) : Prop where
  kept : ∀ n k r, (n,k) ∉ off → record db n k = some r → record db' n k = some r
  added : ∀ n k r, (n,k) ∉ off → record db n k = none → record db' n k = some r →
    r.id = k ∧ r.netId = n ∧ r.used = false

theorem Grows.of_eq {off : Set (String × String)} {db db' : Db}
    (h : ∀ n k, (n,k) ∉ off → record db' n k = record db n k) : Grows off db db' where
  kept n k r ho hr := by rw [h n k ho]; exact hr
  added n k r ho hn hr := by
    rw [h n k ho, hn] at hr
    cases hr

theorem Grows.cases {off : Set (String × String)} {db db' : Db} (h : Grows off db db') {n k : String}
    {r : Allocation} (ho : (n,k) ∉ off) (hr : record db' n k = some r) :
    record db n k = some r ∨ record db n k = none ∧ r.id = k ∧ r.netId = n ∧ r.used = false := by
  cases hn : record db n k with
  | none => exact Or.inr ⟨rfl,h.added n k r ho hn hr⟩
  | some r' => exact Or.inl ((h.kept n k r' ho hn).symm.trans hr)

instance (off : Set (String × String)) : IsPreorder Db (Grows off) where
  refl _ := .of_eq fun _ _ _ => rfl
  trans db db' db'' h h' := by
    refine ⟨fun n k r ho hr => h'.kept n k r ho (h.kept n k r ho hr),?_⟩
    intro n k r ho hn hr
    rcases h'.cases ho hr with hr' | ⟨-,hr'⟩
    · exact h.added n k r ho hn hr'
    · exact hr'

theorem addBucket_grows (db : Db) (netId : String) : Grows ∅ db (Buckets.addBucket db netId) := by
  refine .of_eq fun n k _ => ?_
  unfold record
  rw [Buckets.value_addBucket]

theorem putAllNew_grows (db : Db) (nets : List (String × List Allocation)) :
    Grows ∅ db (Buckets.putAllNew db (texts.entries nets)) := by
  constructor
  · intro n k r _ hr
    unfold record at hr ⊢
    rw [Buckets.value_putAllNew, hr, Option.some_or]
  · intro n k r _ hr hr'
    unfold record at hr hr'
    rw [Buckets.value_putAllNew, hr, Option.none_or, Option.map_eq_some_iff] at hr'
    obtain ⟨e,he,rfl⟩ := hr'
    have hkey := List.find?_some he
    obtain ⟨p,-,hp⟩ := List.mem_flatMap.mp (List.mem_of_find?_eq_some he)
    obtain ⟨alloc,-,rfl⟩ := List.mem_map.mp hp
    obtain ⟨rfl,rfl⟩ : p.1 = n ∧ alloc.id = k := by simpa using hkey
    exact ⟨rfl,rfl,rfl⟩

theorem putAll_grows {db : Db} {netId : String} {l : List (String × Allocation)} (hn : (l.map Prod.fst).Nodup)
    (hl : ∀ p ∈ l, record db netId p.1 = none ∧ p.2.id = p.1 ∧ p.2.netId = netId ∧ p.2.used = false) :
    Grows ∅ db (Buckets.putAll db netId l) := by
  constructor
  · intro n k r _ hr
    refine (Buckets.value_putAll_of_notMem ?_).trans hr
    rintro rfl hk
    obtain ⟨p,hp,rfl⟩ := List.mem_map.mp hk
    rw [(hl p hp).1] at hr
    cases hr
  · intro n k r _ hr hr'
    unfold record at hr hr'
    by_cases hk : n = netId ∧ k ∈ l.map Prod.fst
    · obtain ⟨rfl,hk⟩ := hk
      obtain ⟨p,hp,rfl⟩ := List.mem_map.mp hk
      rw [Buckets.value_putAll_of_mem hn hp] at hr'
      cases hr'
      obtain ⟨-,hid,hnet,hu⟩ := hl p hp
      exact ⟨hid,hnet,hu⟩
    · rw [Buckets.value_putAll_of_notMem (fun h₁ h₂ => hk ⟨h₁,h₂⟩), hr] at hr'
      cases hr'

theorem poolInit_grows {c : MtnCfg} {s t : Store} {u : Unit} (h : poolInit c s = (.ok u,t)) : Grows ∅ s.db t.db := by
  by_cases hc : c.enable = true
  · obtain ⟨-,-,nets,-,-,hdb⟩ := poolInit_ok hc h
    rw [hdb]
    exact putAllNew_grows s.db nets
  · rw [poolInit, Codec.poolInit, if_pos (by simpa using hc)] at h
    cases h
    exact refl_of (Grows ∅) s.db

/-! ## Steps -/

theorem Grows.keyed {off : Set (String × String)} {db db' : Db} (h : Grows off db db') (hdb : WellKeyed db)
    {n k : String} {a : Allocation} (ho : (n,k) ∉ off) (ha : record db' n k = some a) : a.id = k ∧ a.netId = n := by
  rcases h.cases ho ha with hr | ⟨-,hid,hnet,-⟩
  · exact hdb n k a hr
  · exact ⟨hid,hnet⟩

theorem Grows.held_iff {off : Set (String × String)} {db db' : Db} (h : Grows off db db') {n k : String}
    (ho : (n,k) ∉ off) : (n,k) ∈ held db' ↔ (n,k) ∈ held db := by
  constructor
  · rintro ⟨a,ha,hu⟩
    rcases h.cases ho ha with hr | ⟨-,-,-,hf⟩
    · exact ⟨a,hr,hu⟩
    · rw [hf] at hu
      cases hu
  · rintro ⟨a,ha,hu⟩
    exact ⟨a,h.kept n k a ho ha,hu⟩

theorem Grows.wellKeyed {db db' : Db} (h : Grows ∅ db db') (hdb : WellKeyed db) : WellKeyed db' :=
  fun n k _ ha => h.keyed hdb (Set.notMem_empty (n,k)) ha

theorem Grows.held_eq {db db' : Db} (h : Grows ∅ db db') : held db' = held db :=
  Set.ext fun p => h.held_iff (Set.notMem_empty p)

theorem Replied.fresh {db : Db} {env : Env} {netId id : String} {a : Allocation} (hf : FreshFor db netId env)
    (h : Replied env.replies netId id a) :
    record db netId id = none ∧ a.id = id ∧ a.netId = netId ∧ a.used = false := by
  obtain ⟨r,raw,hr,hd,rfl,rfl⟩ := h
  exact ⟨hf r raw hr hd,rfl,rfl,rfl⟩

theorem received_fresh {db : Db} {env : Env} {netId : String} {i : ℕ} {m : Bucket} {l : List (String × Allocation)}
    (hf : FreshFor db netId env) (h : received netId i ∅ env.replies = some m) (hl : l.Perm m.toList) :
    ∀ p ∈ l, record db netId p.1 = none ∧ p.2.id = p.1 ∧ p.2.netId = netId ∧ p.2.used = false := by
  intro p hp
  exact (received_replied h (ExtTreeMap.mem_toList_iff_getElem?_eq_some.mp (hl.subset hp))).fresh hf

theorem encoded_texts (l : List (String × Allocation)) : texts.encoded l = l := List.map_id l

theorem bindAllocs_grows {c : MtnCfg} {netId : String} {db : Db} {env : Env} {t : Store} {u : Unit}
    (hf : FreshFor db netId env) (h : bindAllocs c netId ⟨db,env⟩ = (.ok u,t)) : Grows ∅ db t.db := by
  cases (bindAllocs_ok h).2 with
  | enough _ hd _ =>
    rw [hd]
    exact addBucket_grows db netId
  | @refilled m l _ hrec hperm _ hd _ =>
    rw [hd, encoded_texts]
    refine trans_of (Grows ∅) (addBucket_grows db netId) (putAll_grows (Buckets.nodup_keys_of_perm hperm) ?_)
    unfold record
    rw [Buckets.value_addBucket]
    exact received_fresh hf hrec hperm

/-- What a successful `UseAlloc` promises. -/
structure Handed (db : Db) (netId box : String) (a : Allocation) (db' : Db) : Prop where
  ownNetId : a.netId = netId
  ownBox : a.box = box
  isUsed : a.used = true
  before : ∀ r, record db netId a.id = some r → r.used = false
  after : record db' netId a.id = some a
  others : Grows {(netId,a.id)} db db'

theorem useAlloc_handed {c : MtnCfg} {netId box : String} {a : Allocation} {db : Db} {env : Env} {t : Store}
    (hdb : WellKeyed db) (hf : FreshFor db netId env) (h : useAlloc c netId box ⟨db,env⟩ = (.ok a,t)) :
    Handed db netId box a t.db := by
  cases (useAlloc_ok h).2 with
  | @stored k v r hk hv hu ha hd _ =>
    cases hv
    obtain ⟨rfl,hnet⟩ := hdb netId k v hk
    subst ha
    have hrec (n k : String) := record_putRecord db netId v.id (taken v box) n k
    have hd : t.db = putRecord db netId v.id (taken v box) := hd
    rw [hd]
    refine ⟨hnet,rfl,rfl,?_,?_,?_⟩
    · intro r hr
      cases hk.symm.trans hr
      exact hu
    · rw [hrec]
      exact if_pos ⟨rfl,rfl⟩
    · refine .of_eq fun n k ho => ?_
      rw [hrec, if_neg]
      rintro ⟨rfl,rfl⟩
      exact ho rfl
  | @requested m id alloc rest _ _ hrec hperm _ ha hd =>
    have hn := Buckets.nodup_keys_of_perm hperm
    have hfr := received_fresh hf hrec hperm
    obtain ⟨hnone,hid,hnet,-⟩ := hfr _ List.mem_cons_self
    dsimp only at hnone hid
    subst hid ha
    rw [encoded_texts] at hd
    have hg : Grows ∅ db (Buckets.putAll db netId rest) :=
      putAll_grows (List.nodup_cons.mp hn).2 fun p hp => hfr p (List.mem_cons_of_mem _ hp)
    have hother (n k : String) (ho : (n,k) ∉ ({(netId,alloc.id)} : Set (String × String))) :
        record t.db n k = record (Buckets.putAll db netId rest) n k := by
      rw [hd]
      refine Buckets.value_putAll_congr ?_ netId rest
      rw [Buckets.value_put, if_neg]
      rintro ⟨rfl,rfl⟩
      exact ho rfl
    refine ⟨hnet,rfl,rfl,?_,?_,?_⟩
    · intro r hr
      cases hnone.symm.trans hr
    · rw [hd]
      exact Buckets.value_putAll_of_mem hn List.mem_cons_self
    · exact trans_of (Grows _) ⟨fun n k r _ => hg.kept n k r (Set.notMem_empty _),
        fun n k r _ => hg.added n k r (Set.notMem_empty _)⟩ (.of_eq hother)

theorem Handed.wellKeyed {db db' : Db} {netId box : String} {a : Allocation} (h : Handed db netId box a db')
    (hdb : WellKeyed db) : WellKeyed db' := by
  intro n k r hr
  by_cases he : (n,k) = (netId,a.id)
  · cases he
    rw [h.after] at hr
    cases hr
    exact ⟨rfl,h.ownNetId⟩
  · exact h.others.keyed hdb he hr

theorem Handed.acquires {db db' : Db} {netId box : String} {a : Allocation} (h : Handed db netId box a db') :
    Lease.Step (held db) (.acquire (netId,a.id)) (held db') := by
  have heq : held db' = insert (netId,a.id) (held db) := by
    ext ⟨n,k⟩
    by_cases he : (n,k) = (netId,a.id)
    · cases he
      exact ⟨fun _ => Set.mem_insert _ _,fun _ => ⟨a,h.after,h.isUsed⟩⟩
    · rw [Set.mem_insert_iff, or_iff_right he]
      exact h.others.held_iff he
  rw [heq]
  refine .acquire ?_
  rintro ⟨r,hr,hu⟩
  rw [h.before r hr] at hu
  cases hu

structure Freed (db : Db) (netId id : String) (db' : Db) : Prop where
  after : ∃ v, record db netId id = some v ∧ record db' netId id = some { v with used := false }
  others : ∀ n k, (n,k) ≠ (netId,id) → record db' n k = record db n k

theorem freeDbAlloc_freed {netId id : String} {s t : Store} {u : Unit} (h : freeDbAlloc netId id s = (.ok u,t)) :
    Freed s.db netId id t.db := by
  obtain ⟨v,a,hv,ha,hd⟩ := freeDbAlloc_ok h
  cases ha
  have hd : t.db = putRecord s.db netId id { v with used := false } := hd
  refine ⟨⟨v,hv,?_⟩,fun n k ho => ?_⟩
  · rw [hd, record_putRecord]
    exact if_pos ⟨rfl,rfl⟩
  · rw [hd, record_putRecord, if_neg]
    rintro ⟨rfl,rfl⟩
    exact ho rfl

theorem Freed.wellKeyed {db db' : Db} {netId id : String} (h : Freed db netId id db') (hdb : WellKeyed db) :
    WellKeyed db' := by
  intro n k r hr
  by_cases he : (n,k) = (netId,id)
  · cases he
    obtain ⟨v,hv,hv'⟩ := h.after
    rw [hv'] at hr
    cases hr
    exact hdb netId id v hv
  · rw [h.others n k he] at hr
    exact hdb n k r hr

theorem Freed.releases {db db' : Db} {netId id : String} (h : Freed db netId id db') :
    Lease.Step (held db) (.release (netId,id)) (held db') := by
  have heq : held db' = held db \ {(netId,id)} := by
    ext ⟨n,k⟩
    by_cases he : (n,k) = (netId,id)
    · cases he
      obtain ⟨v,-,hv'⟩ := h.after
      constructor
      · rintro ⟨r,hr,hu⟩
        rw [hv'] at hr
        cases hr
        cases hu
      · rintro ⟨-,hne⟩
        exact (hne rfl).elim
    · have hiff : (n,k) ∈ held db' ↔ (n,k) ∈ held db := by
        unfold held
        simp only [Set.mem_ofPred_eq, h.others n k he]
      rw [hiff]
      exact ⟨fun hh => ⟨hh,he⟩,fun hh => hh.1⟩
  rw [heq]
  exact .release _ _

/-- `UnuseAlloc` frees the record or, its error gone to the log, does nothing. -/
theorem unuseAlloc_cases (netId id : String) (s : Store) :
    Freed s.db netId id (unuseAlloc netId id s).2.db ∨ (unuseAlloc netId id s).2.db = s.db := by
  unfold unuseAlloc Codec.unuseAlloc Prog.attempt
  rcases h : texts.freeDbAlloc netId id s with ⟨o,t⟩
  cases o with
  | ok u => exact Or.inl (freeDbAlloc_freed h)
  | error _ | panic _ => exact Or.inr (transaction_fails _ _ _ h nofun)

theorem unuseAlloc_wellKeyed {netId id : String} {s : Store} (h : WellKeyed s.db) :
    WellKeyed (unuseAlloc netId id s).2.db := by
  rcases unuseAlloc_cases netId id s with hf | he
  · exact hf.wellKeyed h
  · rw [he]
    exact h

theorem bindAllocs_grown {c : MtnCfg} {netId : String} {db : Db} {env : Env} (hf : FreshFor db netId env) :
    Grows ∅ db (bindAllocs c netId ⟨db,env⟩).2.db := by
  rcases h : bindAllocs c netId ⟨db,env⟩ with ⟨o,t⟩
  cases o with
  | ok u => exact bindAllocs_grows hf h
  | error _ | panic _ => exact .of_eq fun n k _ => by rw [show t.db = db from bindAllocs_fails c netId _ _ _ h nofun]

theorem collectUsed_ok {l : List (String × Allocation)} {r r' : List Allocation × AllocsStat} {s t : Store}
    (h : texts.collectUsed l r s = (.ok r',t)) : ∃ l' : List (String × Allocation), l'.Sublist l ∧ r'.1 = r.1 ++ l'.map Prod.snd := by
  induction l generalizing r s with
  | nil =>
    cases h
    exact ⟨[],.slnil,by simp⟩
  | cons p l ih =>
    obtain ⟨b,s₁,-,h⟩ := of_bind_ok h
    cases b with
    | true =>
      obtain ⟨l',hl,hr⟩ := ih h
      exact ⟨l',hl.cons p,hr⟩
    | false =>
      obtain ⟨a,s₂,ha,h⟩ := of_bind_ok h
      cases (unmarshal_ok ha).1
      obtain ⟨l',hl,hr⟩ := ih h
      exact ⟨p :: l',hl.cons_cons p,by rw [hr]; simp⟩

theorem record_of_mem_toList {db : Db} {n k : String} {b : Bucket} {a : Allocation} (hb : (n,b) ∈ db.toList)
    (ha : (k,a) ∈ b.toList) : record db n k = some a := by
  have h1 : db[n]? = some b := ExtTreeMap.mem_toList_iff_getElem?_eq_some.mp hb
  have h2 : b[k]? = some a := ExtTreeMap.mem_toList_iff_getElem?_eq_some.mp ha
  rw [record, Buckets.value, h1, Option.bind_some, h2]

theorem WellKeyed.nodup_keys {db : Db} (h : WellKeyed db) :
    ((db.toList.flatMap fun p => p.2.toList).map fun q => q.2.key).Nodup := by
  have hkey : ∀ p ∈ db.toList, (p.2.toList.map fun q => q.2.key) = p.2.toList.map fun q => (p.1,q.1) := by
    intro p hp
    refine List.map_congr_left fun q hq => ?_
    obtain ⟨hid,hnet⟩ := h p.1 q.1 q.2 (record_of_mem_toList hp hq)
    exact Prod.ext hnet hid
  have hnets : (db.toList.map Prod.fst).Nodup := by
    rw [ExtTreeMap.map_fst_toList_eq_keys]
    exact ExtTreeMap.nodup_keys
  rw [List.map_flatMap, List.nodup_flatMap]
  refine ⟨?_,?_⟩
  · intro p hp
    rw [hkey p hp]
    have hids := Buckets.nodup_keys_of_perm (List.Perm.refl p.2.toList)
    refine List.Nodup.of_map Prod.snd ?_
    rw [List.map_map]
    exact hids
  · refine (List.pairwise_map.mp hnets).imp_of_mem ?_
    intro p p' hp hp' hne
    simp only [Function.onFun, hkey p hp, hkey p' hp']
    intro x hx hx'
    obtain ⟨q,-,rfl⟩ := List.mem_map.mp hx
    obtain ⟨q',-,he⟩ := List.mem_map.mp hx'
    exact hne (congrArg Prod.fst he).symm

theorem usedAllocations_ok {c : MtnCfg} {s t : Store} {r : List Allocation × AllocsStat} (hs : WellKeyed s.db)
    (h : usedAllocations c s = (.ok r,t)) :
    (∀ a ∈ r.1, record s.db a.netId a.id = some a) ∧ (r.1.map Allocation.key).Nodup := by
  unfold usedAllocations Codec.usedAllocations at h
  split at h
  · cases h
    exact ⟨by simp,by simp⟩
  obtain ⟨s₁,s₂,hs₁,hb,-⟩ := transaction_ok h
  obtain ⟨s₀,_,hr,hb⟩ := of_bind_ok hb
  cases hr
  rw [hs₁.db] at hb
  obtain ⟨l,hl,hr⟩ := collectUsed_ok hb
  rw [List.nil_append] at hr
  rw [hr]
  refine ⟨?_,?_⟩
  · intro a ha
    obtain ⟨q,hq,rfl⟩ := List.mem_map.mp ha
    obtain ⟨p,hp,hpq⟩ := List.mem_flatMap.mp (hl.subset hq)
    have hrec := record_of_mem_toList hp hpq
    obtain ⟨hid,hnet⟩ := hs p.1 q.1 q.2 hrec
    rw [hid, hnet]
    exact hrec
  · rw [List.map_map]
    exact (hl.map _).nodup hs.nodup_keys

/-- What one call can do: nothing, for instance because it failed; add free records;
hand out an allocation; or free one. -/
inductive Effect (c : MtnCfg) (db : Db) (a : Op × Env) (db' : Db) : Prop
  | same : texts.event c db a = .quiet → db' = db → Effect c db a db'
  | grown : texts.event c db a = .quiet → Grows ∅ db db' → Effect c db a db'
  | handed {netId box : String} {r : Allocation} : texts.event c db a = .acquire (netId,r.id) →
      Handed db netId box r db' → Effect c db a db'
  | freed {netId id : String} : texts.event c db a = .release (netId,id) → Freed db netId id db' → Effect c db a db'

theorem Effect.wellKeyed {c : MtnCfg} {db db' : Db} {a : Op × Env} (h : Effect c db a db') (hdb : WellKeyed db) :
    WellKeyed db' := by
  cases h with
  | same _ he => exact he ▸ hdb
  | grown _ hg => exact hg.wellKeyed hdb
  | handed _ hh => exact hh.wellKeyed hdb
  | freed _ hf => exact hf.wellKeyed hdb

/-- The database refines the lease on its used records. -/
theorem Effect.lease {c : MtnCfg} {db db' : Db} {a : Op × Env} (h : Effect c db a db') :
    Lease.Step (held db) (texts.event c db a) (held db') := by
  cases h with
  | same he hd =>
    rw [he, hd]
    exact .quiet _
  | grown he hg =>
    rw [he, hg.held_eq]
    exact .quiet _
  | handed he hh =>
    rw [he]
    exact hh.acquires
  | freed he hf =>
    rw [he]
    exact hf.releases

theorem poolInit_effect (c : MtnCfg) (db : Db) (env : Env) :
    Effect c db (.poolInit,env) (texts.perform c .poolInit ⟨db,env⟩).2.db := by
  have hq : texts.event c db (.poolInit,env) = .quiet := rfl
  rw [Codec.perform, bind_pure_apply]
  rcases h : texts.poolInit c ⟨db,env⟩ with ⟨o,t⟩
  cases o with
  | ok u => exact .grown hq (poolInit_grows h)
  | error _ | panic _ => exact .same hq (poolInit_fails c _ _ _ h nofun)

theorem bindAllocs_effect {c : MtnCfg} {db : Db} {netId : String} {env : Env} (hf : FreshFor db netId env) :
    Effect c db (.bindAllocs netId,env) (texts.perform c (.bindAllocs netId) ⟨db,env⟩).2.db := by
  have hq : texts.event c db (.bindAllocs netId,env) = .quiet := rfl
  rw [Codec.perform, bind_pure_apply]
  rcases h : texts.bindAllocs c netId ⟨db,env⟩ with ⟨o,t⟩
  cases o with
  | ok u => exact .grown hq (bindAllocs_grows hf h)
  | error _ | panic _ => exact .same hq (bindAllocs_fails c netId _ _ _ h nofun)

theorem useAlloc_effect {c : MtnCfg} {db : Db} {netId box : String} {env : Env} (hdb : WellKeyed db)
    (hf : FreshFor db netId env) :
    Effect c db (.useAlloc netId box,env) (texts.perform c (.useAlloc netId box) ⟨db,env⟩).2.db := by
  rw [Codec.perform, bind_pure_apply]
  rcases h : texts.useAlloc c netId box ⟨db,env⟩ with ⟨o,t⟩
  cases o with
  | ok r =>
    have hh := useAlloc_handed hdb hf h
    have he : texts.event c db (.useAlloc netId box,env) = .acquire (netId,r.id) := by
      rw [Codec.event, Codec.perform, bind_pure_apply, h, ← hh.ownNetId]
      rfl
    exact .handed he hh
  | error _ | panic _ =>
    have he : texts.event c db (.useAlloc netId box,env) = .quiet := by
      rw [Codec.event, Codec.perform, bind_pure_apply, h]
      rfl
    exact .same he (transaction_fails _ _ _ h (by simp))

theorem freeDbAlloc_effect (c : MtnCfg) (db : Db) (netId id : String) (env : Env) :
    Effect c db (.freeDbAlloc netId id,env) (texts.perform c (.freeDbAlloc netId id) ⟨db,env⟩).2.db := by
  rw [Codec.perform, bind_pure_apply]
  rcases h : texts.freeDbAlloc netId id ⟨db,env⟩ with ⟨o,t⟩
  cases o with
  | ok u =>
    have he : texts.event c db (.freeDbAlloc netId id,env) = .release (netId,id) := by
      rw [Codec.event, Codec.perform, bind_pure_apply, h]
      rfl
    exact .freed he (freeDbAlloc_freed h)
  | error _ | panic _ =>
    have he : texts.event c db (.freeDbAlloc netId id,env) = .quiet := by
      rw [Codec.event, Codec.perform, bind_pure_apply, h]
      rfl
    exact .same he (transaction_fails _ _ _ h (by simp))

theorem unuseAlloc_effect (c : MtnCfg) (db : Db) (netId id : String) (env : Env) :
    Effect c db (.unuseAlloc netId id,env) (texts.perform c (.unuseAlloc netId id) ⟨db,env⟩).2.db := by
  rw [Codec.perform, bind_pure_apply, Codec.unuseAlloc, Prog.attempt]
  rcases h : texts.freeDbAlloc netId id ⟨db,env⟩ with ⟨o,t⟩
  cases o with
  | ok u =>
    have he : texts.event c db (.unuseAlloc netId id,env) = .release (netId,id) := by
      rw [Codec.event, Codec.perform, bind_pure_apply, Codec.unuseAlloc, Prog.attempt, h]
      rfl
    exact .freed he (freeDbAlloc_freed h)
  | error _ | panic _ =>
    have he : texts.event c db (.unuseAlloc netId id,env) = .quiet := by
      rw [Codec.event, Codec.perform, bind_pure_apply, Codec.unuseAlloc, Prog.attempt, h]
      rfl
    exact .same he (transaction_fails _ _ _ h (by simp))

theorem usedAllocations_effect (c : MtnCfg) (db : Db) (env : Env) :
    Effect c db (.usedAllocations,env) (texts.perform c .usedAllocations ⟨db,env⟩).2.db := by
  rw [Codec.perform, bind_pure_apply]
  exact .same rfl (usedAllocations_sameDb c ⟨db,env⟩)

theorem step_effect {c : MtnCfg} {db db' : Db} {a : Op × Env} (hdb : WellKeyed db) (hf : FreshReplies db a)
    (h : texts.step c db a = some db') : Effect c db a db' := by
  cases h
  rcases a with ⟨op,env⟩
  cases op with
  | poolInit => exact poolInit_effect c db env
  | bindAllocs netId => exact bindAllocs_effect hf
  | useAlloc netId box => exact useAlloc_effect hdb hf
  | freeDbAlloc netId id => exact freeDbAlloc_effect c db netId id env
  | unuseAlloc netId id => exact unuseAlloc_effect c db netId id env
  | usedAllocations => exact usedAllocations_effect c db env

theorem perform_fails (codec : Codec V) (c : MtnCfg) (op : Op) : Fails SameDb (codec.perform c op) := by
  cases op with
  | poolInit => exact (poolInit_fails c).map _
  | bindAllocs netId => exact (bindAllocs_fails c netId).map _
  | useAlloc netId box => exact Fails.map transaction_fails _
  | freeDbAlloc netId id => exact Fails.map transaction_fails _
  | unuseAlloc netId id => exact (Fails.attempt transaction_fails).map _
  | usedAllocations => exact (usedAllocations_sameDb c).fails.map _

theorem logged_error_same {codec : Codec V} {c : MtnCfg} {op : Op} {s t : StoreOf V} {e : Err}
    (h : codec.perform c op s = (.ok (.logged (.error e)),t)) : t.db = s.db := by
  cases op with
  | unuseAlloc netId id =>
    obtain ⟨r,s₁,hr,hp⟩ := of_bind_ok h
    cases hp
    rcases of_attempt_ok hr with ⟨a,ha,-⟩ | ⟨e',-,hf⟩
    · cases ha
    · exact transaction_fails _ _ _ hf nofun
  | poolInit | bindAllocs _ | useAlloc _ _ | freeDbAlloc _ _ | usedAllocations =>
    obtain ⟨r,s₁,-,hp⟩ := of_bind_ok h
    cases hp

/-- A call that failed left the database as it was; no assumption on the allocator is
needed for this, nor on how allocations are stored. -/
theorem failed_same {codec : Codec V} {c : MtnCfg} {db : Buckets.Db String V} {op : Op} {env : Env}
    (h : Failed (codec.perform c op ⟨db,env⟩).1) : (codec.perform c op ⟨db,env⟩).2.db = db := by
  rcases hp : codec.perform c op ⟨db,env⟩ with ⟨o,t⟩
  rw [hp] at h
  cases o with
  | ok r =>
    cases r with
    | logged r =>
      cases r with
      | ok _ => exact h.elim
      | error e => exact logged_error_same hp
    | done => exact h.elim
    | allocation _ => exact h.elim
    | listed _ => exact h.elim
  | error _ | panic _ => exact perform_fails codec c op _ _ _ hp nofun

/-! ## A small pool -/

def lanCfg : MtnCfg := ⟨true,1,"allocator","host","host",[]⟩

def silent : Env := ⟨[],.newRequestError "",[],[],[]⟩

def lanDb : Db := putRecord ∅ "lan" "a1" ⟨"eth0","host","::1","a1","lan","",false⟩

theorem WellKeyed.putRecord {db : Db} (h : WellKeyed db) {netId id : String} {a : Allocation} (hid : a.id = id)
    (hnet : a.netId = netId) : WellKeyed (putRecord db netId id a) := by
  intro n k r hr
  rw [record_putRecord] at hr
  split at hr
  · rename_i he
    cases hr
    exact ⟨hid.trans he.2,hnet.trans he.1⟩
  · exact h n k r hr

theorem wellKeyed_empty : WellKeyed ∅ := by
  intro n k a ha
  cases ha

theorem lanDb_wellKeyed : WellKeyed lanDb := wellKeyed_empty.putRecord rfl rfl

/-! ## Runs -/

/-- Along every run from a well-keyed database whose allocator sends only new ids: the
database stays well keyed, and an allocation handed out twice was freed in between. -/
theorem texts_exclusive (c : MtnCfg) {db db' : Db} {ops : List (Op × Env)} (hdb : WellKeyed db)
    (h : Runs (texts.step c) db ops db') (hf : Meets (texts.step c) FreshReplies db ops) :
    WellKeyed db' ∧
    ∀ key pre mid post,
      trace (texts.step c) (texts.event c) db ops = pre ++ .acquire key :: (mid ++ .acquire key :: post) →
      .release key ∈ mid := by
  refine ⟨?_,?_⟩
  · exact h.invariant_of_meets (fun _ _ _ hs hg he => (step_effect hs hg he).wellKeyed hs) hf hdb
  · intro key pre mid post htr
    have hrun := Lease.Run.of_runs held (texts.event c) (fun s a t hs hg he =>
      ⟨(step_effect hs hg he).wellKeyed hs,(step_effect hs hg he).lease⟩) h hf hdb
    rw [htr] at hrun
    exact hrun.release_between

end Stout.Mtn
