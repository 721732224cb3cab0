import Stout.Isolate.MtnRuns
import Stout.Isolate.MtnReliable

/-! # Refilling a bucket

What a refill makes of the records that were there and of the number of free ones.
`BindAllocs` and `UseAlloc` put what the allocator sent under its id without looking
whether that id is stored, so a record survives as long as its id is not sent again.
-/
namespace Stout.Mtn.Bytes
open Std (ExtTreeMap)
open Prog

variable {V : Type} {json : Json V} {c : MtnCfg} {netId : String}

/-! ## What the allocator sends -/

def sentIds (i : ℕ) (replies : List (Exchange RawAlloc)) : List String := (replies.take i).filterMap Exchange.id?

theorem sentIds_cons {i : ℕ} {x : Response RawAlloc} {raw : RawAlloc} (h : x.decoded = .ok raw)
    (rest : List (Exchange RawAlloc)) : sentIds (i + 1) (.response x :: rest) = raw.id :: sentIds i rest := by
  simp [sentIds, Exchange.id?, h, Except.toOption]

theorem sent_entry {netid : String} {i : ℕ} {m : Bucket} {replies : List (Exchange RawAlloc)}
    (h : received netid i ∅ replies = some m) {id : String} {a : Allocation} (ha : m[id]? = some a) :
    a.id = id ∧ a.used = false := by
  obtain ⟨x,raw,-,-,rfl,rfl⟩ := received_replied h ha
  exact ⟨rfl,rfl⟩

/-- The ids received are those sent; if they are all different there are as many
allocations as requests. -/
theorem received_keys {netid : String} {i : ℕ} {r m : Bucket} {replies : List (Exchange RawAlloc)}
    (h : received netid i r replies = some m) (hnew : ∀ id ∈ sentIds i replies, r[id]? = none)
    (hnd : (sentIds i replies).Nodup) :
    m.size = r.size + i ∧ ∀ id ∈ m.keys, id ∈ r.keys ∨ id ∈ sentIds i replies := by
  induction i generalizing r replies with
  | zero =>
    cases h
    exact ⟨rfl,fun id hid => Or.inl hid⟩
  | succ i ih =>
    obtain ⟨x,raw,rest,rfl,hd,hrec⟩ := received_cases h
    rw [sentIds_cons hd] at hnew hnd ⊢
    obtain ⟨hraw,hnd⟩ := List.nodup_cons.mp hnd
    have hnew' : ∀ id ∈ sentIds i rest, (r.insert raw.id (replied netid raw))[id]? = none := by
      intro id hid
      have hne : raw.id ≠ id := by
        rintro rfl
        exact hraw hid
      rw [ExtTreeMap.getElem?_insert, if_neg (mt compare_eq_iff_eq.mp hne)]
      exact hnew id (List.mem_cons_of_mem _ hid)
    obtain ⟨hsize,hkeys⟩ := ih hrec hnew' hnd
    have hnone : r.contains raw.id = false := by
      rw [ExtTreeMap.contains_eq_isSome_getElem?, hnew raw.id List.mem_cons_self]
      rfl
    refine ⟨?_,?_⟩
    · rw [hsize, ExtTreeMap.size_insert, if_neg (by simp [hnone])]
      omega
    · intro id hid
      rcases hkeys id hid with hk | hk
      · rw [ExtTreeMap.mem_keys, ExtTreeMap.mem_insert] at hk
        rcases hk with he | hk
        · exact Or.inr (compare_eq_iff_eq.mp he ▸ List.mem_cons_self)
        · exact Or.inl (ExtTreeMap.mem_keys.mpr hk)
      · exact Or.inr (List.mem_cons_of_mem _ hk)

/-! ## What becomes of the records -/

def Kept (db db' : Buckets.Db String V) : Prop := ∀ n k v, Buckets.value db n k = some v → Buckets.value db' n k = some v

/-- Every record that was there is as it was but for the one handed out, and that one
was free. -/
structure KeptButTaken (json : Json V) (netId : String) (db : Buckets.Db String V) (o : Outcome Err Allocation) (db' : Buckets.Db String V) : Prop where
  taken : ∀ a v, o = .ok a → Buckets.value db netId a.id = some v → json.free v = true
  others : ∀ n k v, (∀ a, o = .ok a → (n,k) ≠ (netId,a.id)) → Buckets.value db n k = some v →
    Buckets.value db' n k = some v

/-- The replies amount to these allocations, and bolt takes their ids as keys. -/
def Sends (c : MtnCfg) (netId : String) (replies : List (Exchange RawAlloc)) (m : Bucket) : Prop :=
  received netId c.allocbuffer.toNat ∅ replies = some m ∧ ∀ p ∈ m.toList, ValidKey p.1

def Exhausted (json : Json V) (db : Buckets.Db String V) (netId : String) : Prop :=
  ∀ k v, Buckets.value db netId k = some v → json.free v = false

/-- If a refill comes to storing what was sent, no id sent is stored; for `BindAllocs`,
unless what is stored is what it would store. -/
structure NoClash (json : Json V) (c : MtnCfg) (netId : String) (db : Buckets.Db String V) (replies : List (Exchange RawAlloc)) : Prop where
  bind : netId ≠ "" → json.freeCount db netId < c.allocbuffer → ∀ m, Sends c netId replies m →
    ∀ id a v, m[id]? = some a → Buckets.value db netId id = some v → v = json.encode a
  use : netId ≠ "" → db.contains netId = true → Exhausted json db netId → ∀ m, Sends c netId replies m →
    ∀ id a, m[id]? = some a → Buckets.value db netId id = none

theorem mem_of_perm {m : Bucket} {l : List (String × Allocation)} (h : l.Perm m.toList) {id : String} {a : Allocation} :
    (id,a) ∈ l ↔ m[id]? = some a := by
  rw [h.mem_iff, ExtTreeMap.mem_toList_iff_getElem?_eq_some]

theorem mem_encoded {l : List (String × Allocation)} {id : String} {a : Allocation} (h : (id,a) ∈ l) :
    (id,json.encode a) ∈ json.encoded l :=
  List.mem_map.mpr ⟨(id,a),h,rfl⟩

theorem free_encode (a : Allocation) : json.free (json.encode a) = !a.used := by
  rw [Codec.free, json.decode_encode]
  rfl

section Stored
variable {m : Bucket} {l : List (String × Allocation)} (hperm : l.Perm m.toList)
include hperm

theorem value_stored {id : String} {a : Allocation} (ha : m[id]? = some a) (db : Buckets.Db String V) :
    Buckets.value (Buckets.putAll db netId (json.encoded l)) netId id = some (json.encode a) := by
  refine Buckets.value_putAll_of_mem ?_ (mem_encoded ((mem_of_perm hperm).mpr ha))
  rw [keys_encoded]
  exact Buckets.nodup_keys_of_perm hperm

theorem value_unstored {n k : String} (h : n = netId → m[k]? = none) (db : Buckets.Db String V) :
    Buckets.value (Buckets.putAll db netId (json.encoded l)) n k = Buckets.value db n k := by
  refine Buckets.value_putAll_of_notMem ?_
  intro hn hk
  rw [keys_encoded] at hk
  obtain ⟨p,hp,rfl⟩ := List.mem_map.mp hk
  have hnone := h hn
  rw [(mem_of_perm hperm).mp hp] at hnone
  cases hnone

end Stored

theorem Exhausted.not_free {db : Buckets.Db String V} (h : Exhausted json db netId) {k : String} {v : V} {r : Allocation}
    (hv : Buckets.value db netId k = some v) (hr : json.decode v = .ok r) : r.used ≠ false := by
  intro hu
  have hfree := h k v hv
  rw [free_iff.mpr ⟨r,hr,hu⟩] at hfree
  cases hfree

theorem bindAllocs_kept {db : Buckets.Db String V} {replies : List (Exchange RawAlloc)} (hc : NoClash json c netId db replies)
    {s : StoreOf V} (hdb : s.db = db) (hr : s.env.replies = replies) : Kept s.db (json.bindAllocs c netId s).2.db := by
  subst hdb hr
  intro n k v hv
  rcases h : json.bindAllocs c netId s with ⟨o,t⟩
  cases o with
  | ok u =>
    obtain ⟨hn,hb⟩ := bindAllocs_ok h
    cases hb with
    | enough _ hd _ => rw [hd, Buckets.value_addBucket, hv]
    | @refilled m l hlt hrec hperm hkeys hd _ =>
      have hsends : Sends c netId s.env.replies m := ⟨hrec,fun p hp => hkeys p (hperm.symm.subset hp)⟩
      rw [hd]
      by_cases hk : n = netId ∧ (m[k]?).isSome = true
      · obtain ⟨rfl,hk⟩ := hk
        obtain ⟨a,ha⟩ := Option.isSome_iff_exists.mp hk
        rw [value_stored hperm ha, hc.bind hn (hlt json.steady) m hsends k a v ha hv]
      · rw [value_unstored hperm, Buckets.value_addBucket, hv]
        intro he
        exact Option.not_isSome_iff_eq_none.mp fun hm => hk ⟨he,hm⟩
  | error e | panic p => rw [show t.db = s.db from bindAllocs_fails c netId s _ t h nofun, hv]

theorem useAlloc_kept {db : Buckets.Db String V} {replies : List (Exchange RawAlloc)} (hc : NoClash json c netId db replies)
    (hex : Exhausted json db netId) (box : String) {s : StoreOf V} (hdb : s.db = db) (hr : s.env.replies = replies) :
    KeptButTaken json netId s.db (json.useAlloc c netId box s).1 (json.useAlloc c netId box s).2.db := by
  subst hdb hr
  rcases h : json.useAlloc c netId box s with ⟨o,t⟩
  cases o with
  | ok a =>
    obtain ⟨hb,ht⟩ := useAlloc_ok h
    cases ht with
    | @stored k v r hv hx hu _ _ _ => exact absurd hu (hex.not_free hv hx)
    | @requested m id alloc rest hn _ hrec hperm hkeys ha hd =>
      have hsends : Sends c netId s.env.replies m := ⟨hrec,fun p hp => hkeys p (hperm.symm.subset hp)⟩
      have hnone (p : String × Allocation) (hp : p ∈ (id,alloc) :: rest) : Buckets.value s.db netId p.1 = none :=
        hc.use hn hb hex m hsends p.1 p.2 ((mem_of_perm hperm).mp hp)
      have hid : a.id = id := by
        rw [ha]
        exact (sent_entry hrec ((mem_of_perm hperm).mp List.mem_cons_self)).1
      constructor
      · intro a' v ha' hv
        cases ha'
        have hnil := hnone _ List.mem_cons_self
        rw [hid, hnil] at hv
        cases hv
      · intro n k v _ hv
        rw [hd, Buckets.value_putAll_of_notMem, hv]
        rintro rfl hk
        rw [List.map_cons, keys_encoded] at hk
        have hk' : k ∈ ((id,alloc) :: rest).map Prod.fst := hk
        obtain ⟨p,hp,rfl⟩ := List.mem_map.mp hk'
        rw [hnone p hp] at hv
        cases hv
  | error e | panic p =>
    refine ⟨nofun,?_⟩
    intro n k v _ hv
    rw [show t.db = s.db from transaction_fails s _ t h nofun, hv]

def replying (replies : List (Exchange RawAlloc)) : Env := ⟨[],.newRequestError "",replies,[],[]⟩

section NoClash
variable {db : Buckets.Db String V} {replies : List (Exchange RawAlloc)} {m : Bucket} (hm : Sends c netId replies m)
include hm

/-- With nothing else to fail `BindAllocs` stores what was sent, over what was there. -/
theorem bind_noClash (hkept : Kept db (json.bindAllocs c netId ⟨db,replying replies⟩).2.db) (hn : netId ≠ "")
    (hlt : json.freeCount db netId < c.allocbuffer) {id : String} {a : Allocation} {v : V} (ha : m[id]? = some a)
    (hv : Buckets.value db netId id = some v) : v = json.encode a := by
  obtain ⟨hrec,hkeys⟩ := hm
  obtain ⟨t,ht⟩ : ∃ t, json.bindAllocs c netId ⟨db,replying replies⟩ = (.ok (),t) :=
    bindAllocs_reliable rfl hn hlt hrec hkeys
  have hafter := hkept netId id v hv
  rw [ht] at hafter
  cases (bindAllocs_ok ht).2 with
  | enough hle _ _ =>
    have hle := hle json.steady
    dsimp only at hle
    omega
  | @refilled m' l _ hrec' hperm _ hd _ =>
    cases Option.some.inj (hrec.symm.trans hrec')
    dsimp only at hd
    rw [hd, value_stored hperm ha] at hafter
    exact (Option.some.inj hafter).symm

/-- So does `UseAlloc` for a bucket without free records: a record whose id was sent is
handed out although it was not free, or made free. -/
theorem use_noClash (hkept : KeptButTaken json netId db (json.useAlloc c netId "" ⟨db,replying replies⟩).1
      (json.useAlloc c netId "" ⟨db,replying replies⟩).2.db) (hn : netId ≠ "") (hb : db.contains netId = true)
    (hex : Exhausted json db netId) {id : String} {x : Allocation} (hx : m[id]? = some x) :
    Buckets.value db netId id = none := by
  obtain ⟨hrec,hkeys⟩ := hm
  by_contra hsome
  obtain ⟨v,hv⟩ := Option.ne_none_iff_exists'.mp hsome
  have hmem : (id,x) ∈ m.toList := ExtTreeMap.mem_toList_iff_getElem?_eq_some.mpr hx
  obtain ⟨a,t,ht⟩ : ∃ a t, json.useAlloc c netId "" ⟨db,replying replies⟩ = (.ok a,t) :=
    useAlloc_reliable rfl hn hb hex hrec (List.ne_nil_of_mem hmem) hkeys
  rw [ht] at hkept
  have hused := hex id v hv
  cases (useAlloc_ok ht).2 with
  | @stored k w r hw hr hu _ _ _ => exact absurd hu (hex.not_free hw hr)
  | @requested m' id' alloc rest _ _ hrec' hperm _ ha hd =>
    cases Option.some.inj (hrec.symm.trans hrec')
    have hid : a.id = id' := by
      rw [ha]
      exact (sent_entry hrec ((mem_of_perm hperm).mp List.mem_cons_self)).1
    have hnd := Buckets.nodup_keys_of_perm hperm
    rcases List.mem_cons.mp ((mem_of_perm hperm).mpr hx) with he | hrest
    · cases he
      rw [hkept.taken a v rfl (by rw [hid]; exact hv)] at hused
      cases hused
    · have hne : id ≠ id' := by
        rintro rfl
        exact (List.nodup_cons.mp hnd).1 (List.mem_map.mpr ⟨(id,x),hrest,rfl⟩)
      have hother := hkept.others netId id v (by
        intro a' ha' he
        cases ha'
        exact hne ((congrArg Prod.snd he).trans hid)) hv
      have hnew : Buckets.value t.db netId id = some (json.encode x) := by
        rw [hd]
        refine Buckets.value_putAll_of_mem ?_ (List.mem_cons_of_mem _ (mem_encoded hrest))
        rw [List.map_cons, keys_encoded]
        exact hnd
      rw [hnew] at hother
      cases hother
      rw [free_encode, (sent_entry hrec hx).2] at hused
      cases hused

end NoClash

/-- A refill leaves the stored records alone exactly if no id it stores is there
already. -/
theorem refill_kept_iff (json : Json V) (c : MtnCfg) (netId : String) (db : Buckets.Db String V)
    (replies : List (Exchange RawAlloc)) :
    (∀ s : StoreOf V, s.db = db → s.env.replies = replies → Kept s.db (json.bindAllocs c netId s).2.db ∧
      (Exhausted json db netId → ∀ box, KeptButTaken json netId s.db (json.useAlloc c netId box s).1
        (json.useAlloc c netId box s).2.db)) ↔
      NoClash json c netId db replies := by
  constructor
  · intro h
    obtain ⟨hbind,huse⟩ := h ⟨db,replying replies⟩ rfl rfl
    constructor
    · intro hn hlt m hm id a v ha hv
      exact bind_noClash hm hbind hn hlt ha hv
    · intro hn hb hex m hm id a ha
      exact use_noClash hm (huse hex "") hn hb hex ha
  · intro hc s hs hr
    exact ⟨bindAllocs_kept hc hs hr,fun hex box => useAlloc_kept hc hex box hs hr⟩

def sending (id : String) : Exchange RawAlloc :=
  .response ⟨200,"",.ok ⟨id,⟨"host","::1","eth0"⟩,"lan"⟩,(⟨[],⟨[]⟩⟩,none)⟩

def stored (id : String) (used : Bool) : Allocation := ⟨"eth0","host","::1",id,"lan",if used then "box" else "",used⟩

def servedDb : Db := Buckets.put ∅ "lan" "a1" (stored "a1" true)

/-- The allocator sends its id again, and the address is free for the next container. -/
theorem bindAllocs_overwrites :
    Buckets.value servedDb "lan" "a1" = some (stored "a1" true) ∧
    Buckets.value (plain.bindAllocs lanCfg "lan" ⟨servedDb,replying [sending "a1"]⟩).2.db "lan" "a1" =
      some (stored "a1" false) ∧
    ¬Kept servedDb (plain.bindAllocs lanCfg "lan" ⟨servedDb,replying [sending "a1"]⟩).2.db := by
  have hbefore : Buckets.value servedDb "lan" "a1" = some (stored "a1" true) := rfl
  have hafter : Buckets.value (plain.bindAllocs lanCfg "lan" ⟨servedDb,replying [sending "a1"]⟩).2.db "lan" "a1" =
      some (stored "a1" false) := rfl
  refine ⟨hbefore,hafter,?_⟩
  intro hk
  have hv := hk "lan" "a1" _ hbefore
  rw [hafter] at hv
  exact absurd hv (by decide)

/-! ## How many records are free -/

/-- The free records of the bucket are stored under their own ids. -/
def OwnKeyed (json : Json V) (db : Buckets.Db String V) (netId : String) : Prop :=
  ∀ k v a, Buckets.value db netId k = some v → json.decode v = .ok a → a.used = false → a.id = k

/-- One `UseAlloc` for the network that returns, with its box and its world. -/
def useStep (json : Json V) (c : MtnCfg) (netId : String) (db : Buckets.Db String V) (call : String × Env) : Option (Buckets.Db String V) :=
  match json.useAlloc c netId call.1 ⟨db,call.2⟩ with
  | (.ok _,t) => some t.db
  | _ => none

def useResult (json : Json V) (c : MtnCfg) (netId : String) (db : Buckets.Db String V) (call : String × Env) :
    Option Allocation × List Request :=
  let r := json.useAlloc c netId call.1 ⟨db,call.2⟩
  (r.1.value?,r.2.env.requests.drop call.2.requests.length)

theorem useStep_some {db db' : Buckets.Db String V} {call : String × Env} (h : useStep json c netId db call = some db') :
    ∃ a t, json.useAlloc c netId call.1 ⟨db,call.2⟩ = (.ok a,t) ∧ db' = t.db := by
  unfold useStep at h
  split at h
  · rename_i a t hu
    cases h
    exact ⟨a,t,hu,rfl⟩
  · cases h

theorem exists_free {db : Buckets.Db String V} (h : 0 < json.freeCount db netId) :
    ∃ k v, Buckets.value db netId k = some v ∧ json.free v = true := by
  obtain ⟨⟨k,v⟩,hm,hfree⟩ := List.countP_pos_iff.mp h
  exact ⟨k,v,Buckets.mem_toList_iff.mp hm,hfree⟩

theorem useStep_takes {db db' : Buckets.Db String V} {call : String × Env} (hown : OwnKeyed json db netId)
    (hpos : 0 < json.freeCount db netId) (h : useStep json c netId db call = some db') :
    ∃ a v, useResult json c netId db call = (some a,[]) ∧ Buckets.value db netId a.id = some v ∧
      json.free v = true ∧ json.freeCount db' netId + 1 = json.freeCount db netId ∧
      ∃ w, db' = Buckets.put db netId a.id w ∧ json.free w = false := by
  obtain ⟨a,t,hu,rfl⟩ := useStep_some h
  cases (useAlloc_ok hu).2 with
  | @stored k v r hv hx hfree ha hd hun =>
    have hk := hown k v r hv hx hfree
    have hid : a.id = r.id := by rw [ha]; rfl
    have hnew : json.free (json.encode a) = false := by
      rw [free_encode, ha]
      rfl
    have hold : json.free v = true := free_iff.mpr ⟨r,hx,hfree⟩
    rw [← hk] at hv
    have hcount := Buckets.count_put json.free db netId r.id (json.encode a)
    dsimp only at hv hd
    rw [hv, Option.any_some, hold, hnew] at hcount
    refine ⟨a,v,?_,by rw [hid]; exact hv,hold,?_,json.encode a,by rw [hid]; exact hd,hnew⟩
    · rw [useResult, hu]
      simp [Outcome.value?, hun.requests]
    · rw [hd]
      unfold Codec.freeCount
      simpa using hcount
  | @requested m id alloc rest _ hex _ _ _ _ _ =>
    obtain ⟨k,v,hv,hfree⟩ := exists_free hpos
    rw [hex json.steady k v hv] at hfree
    cases hfree

theorem ownKeyed_put {db : Buckets.Db String V} {id : String} {w : V} (hown : OwnKeyed json db netId)
    (hw : json.free w = false) : OwnKeyed json (Buckets.put db netId id w) netId := by
  intro k v a hv hx hu
  rw [Buckets.value_put] at hv
  split at hv
  · cases hv
    rw [free_iff.mpr ⟨a,hx,hu⟩] at hw
    cases hw
  · exact hown k v a hv hx hu

/-- No more calls than free records: each takes another one, and nobody is asked. -/
theorem runs_useStep {db db' : Buckets.Db String V} {calls : List (String × Env)} (h : Runs (useStep json c netId) db calls db')
    (hown : OwnKeyed json db netId) (hlen : calls.length ≤ json.freeCount db netId) :
    ∃ as : List Allocation, trace (useStep json c netId) (useResult json c netId) db calls = as.map (fun a => (some a,[])) ∧
      (as.map Allocation.id).Nodup ∧
      (∀ a ∈ as, ∃ v, Buckets.value db netId a.id = some v ∧ json.free v = true) ∧
      json.freeCount db' netId + calls.length = json.freeCount db netId := by
  induction h with
  | refl => exact ⟨[],rfl,List.nodup_nil,nofun,rfl⟩
  | @step db db₁ db' call calls he _ ih =>
    rw [List.length_cons] at hlen
    obtain ⟨a,v,hres,hv,hfree,hcount,w,hput,hw⟩ := useStep_takes hown (by omega) he
    have hown₁ : OwnKeyed json db₁ netId := by
      rw [hput]
      exact ownKeyed_put hown hw
    obtain ⟨as,htrace,hnd,hall,hend⟩ := ih hown₁ (by omega)
    have hold : ∀ b ∈ as, b.id ≠ a.id ∧ ∃ v, Buckets.value db netId b.id = some v ∧ json.free v = true := by
      intro b hb
      obtain ⟨x,hx,hfx⟩ := hall b hb
      rw [hput, Buckets.value_put] at hx
      split at hx
      · cases hx
        rw [hw] at hfx
        cases hfx
      · rename_i hne
        exact ⟨fun he => hne ⟨rfl,he.symm⟩,x,hx,hfx⟩
    refine ⟨a :: as,?_,?_,?_,?_⟩
    · rw [trace, hres, he, Option.elim_some, htrace]
      rfl
    · rw [List.map_cons, List.nodup_cons]
      refine ⟨?_,hnd⟩
      intro hm
      obtain ⟨b,hb,hbe⟩ := List.mem_map.mp hm
      exact (hold b hb).1 hbe
    · intro b hb
      rcases List.mem_cons.mp hb with rfl | hb
      · exact ⟨v,hv,hfree⟩
      · exact (hold b hb).2
    · rw [List.length_cons]
      omega

/-- What the allocator sends for the bucket is new and all different. -/
structure SendsNew (c : MtnCfg) (netId : String) (s : StoreOf V) : Prop where
  distinct : (sentIds c.allocbuffer.toNat s.env.replies).Nodup
  unstored : ∀ id ∈ sentIds c.allocbuffer.toNat s.env.replies, Buckets.value s.db netId id = none

structure Refilled (json : Json V) (c : MtnCfg) (netId : String) (s t : StoreOf V) : Prop where
  free : (json.freeCount t.db netId : ℤ) =
    if c.allocbuffer ≤ json.freeCount s.db netId then (json.freeCount s.db netId : ℤ)
    else json.freeCount s.db netId + c.allocbuffer
  asked : (t.env.requests.length : ℤ) =
    s.env.requests.length + if c.allocbuffer ≤ json.freeCount s.db netId then 0 else c.allocbuffer
  kept : Kept s.db t.db

theorem SendsNew.received {s : StoreOf V} {m : Bucket} (h : SendsNew c netId s)
    (hrec : received netId c.allocbuffer.toNat ∅ s.env.replies = some m) :
    m.size = c.allocbuffer.toNat ∧
      ∀ (k : String) (a : Allocation), m[k]? = some a → Buckets.value s.db netId k = none := by
  obtain ⟨hsize,hsent⟩ := received_keys hrec (by simp) h.distinct
  refine ⟨by simpa using hsize,?_⟩
  intro k a ha
  have hk : k ∈ m.keys := by
    rw [ExtTreeMap.mem_keys, ExtTreeMap.mem_iff_isSome_getElem?, ha]
    rfl
  rcases hsent k hk with hk | hk
  · simp at hk
  · exact h.unstored k hk

theorem freeCount_stored {db : Buckets.Db String V} {m : Bucket} {l : List (String × Allocation)} (hperm : l.Perm m.toList)
    (hfree : ∀ (k : String) (a : Allocation), m[k]? = some a → a.used = false)
    (hnew : ∀ (k : String) (a : Allocation), m[k]? = some a → Buckets.value db netId k = none) :
    json.freeCount (Buckets.putAll (Buckets.addBucket db netId) netId (json.encoded l)) netId =
      json.freeCount db netId + m.size := by
  have hnone : ∀ k ∈ (json.encoded l).map Prod.fst, Buckets.value (Buckets.addBucket db netId) netId k = none := by
    intro k hk
    rw [keys_encoded] at hk
    obtain ⟨p,hp,rfl⟩ := List.mem_map.mp hk
    rw [Buckets.value_addBucket]
    exact hnew p.1 p.2 ((mem_of_perm hperm).mp hp)
  have hall : (json.encoded l).countP (fun e => json.free e.2) = (json.encoded l).length := by
    rw [List.countP_eq_length]
    intro e he
    obtain ⟨p,hp,rfl⟩ := List.mem_map.mp he
    rw [free_encode, hfree p.1 p.2 ((mem_of_perm hperm).mp hp)]
    rfl
  have hnd := Buckets.nodup_keys_of_perm hperm
  have hcount := Buckets.count_putAll json.free (by rw [keys_encoded]; exact hnd) hnone
  have hlen : (json.encoded l).length = m.size := by
    rw [Codec.encoded, List.length_map, hperm.length_eq, ExtTreeMap.length_toList]
  rw [hall, hlen, Buckets.count_addBucket] at hcount
  exact hcount

theorem ownKeyed_stored {db : Buckets.Db String V} {m : Bucket} {l : List (String × Allocation)} (hown : OwnKeyed json db netId)
    (hperm : l.Perm m.toList) (hid : ∀ (k : String) (a : Allocation), m[k]? = some a → a.id = k) :
    OwnKeyed json (Buckets.putAll db netId (json.encoded l)) netId := by
  intro k v a hv hx hu
  cases hm : m[k]? with
  | none =>
    rw [value_unstored hperm fun _ => hm] at hv
    exact hown k v a hv hx hu
  | some b =>
    rw [value_stored hperm hm] at hv
    cases hv
    rw [json.decode_encode] at hx
    cases hx
    exact hid k a hm

theorem ownKeyed_addBucket {db : Buckets.Db String V} (hown : OwnKeyed json db netId) :
    OwnKeyed json (Buckets.addBucket db netId) netId := by
  intro k v a hv
  rw [Buckets.value_addBucket] at hv
  exact hown k v a hv

theorem bindAllocs_refilled {s t : StoreOf V} {u : Unit} (hB : 1 ≤ c.allocbuffer) (hnew : SendsNew c netId s)
    (h : json.bindAllocs c netId s = (.ok u,t)) :
    Refilled json c netId s t ∧ (OwnKeyed json s.db netId → OwnKeyed json t.db netId) := by
  cases (bindAllocs_ok h).2 with
  | enough hle hd hun =>
    have hle := hle json.steady
    refine ⟨⟨?_,?_,?_⟩,?_⟩
    · rw [if_pos hle, Codec.freeCount, hd, Buckets.count_addBucket]
      rfl
    · rw [if_pos hle, hun.requests, add_zero]
    · intro n k v hv
      rw [hd, Buckets.value_addBucket, hv]
    · intro hown
      rw [hd]
      exact ownKeyed_addBucket hown
  | @refilled m l hlt hrec hperm hkeys hd hreq =>
    have hnle : ¬c.allocbuffer ≤ json.freeCount s.db netId := Int.not_le.mpr (hlt json.steady)
    obtain ⟨hsize,hunstored⟩ := hnew.received hrec
    refine ⟨⟨?_,?_,?_⟩,?_⟩
    · rw [if_neg hnle, hd, freeCount_stored hperm (fun k a ha => (sent_entry hrec ha).2) hunstored, hsize]
      omega
    · rw [if_neg hnle]
      omega
    · intro n k v hv
      rw [hd, value_unstored hperm, Buckets.value_addBucket, hv]
      rintro rfl
      refine Option.eq_none_iff_forall_ne_some.mpr fun a ha => ?_
      rw [hunstored k a ha] at hv
      cases hv
    · intro hown
      rw [hd]
      exact ownKeyed_stored (ownKeyed_addBucket hown) hperm fun k a ha => (sent_entry hrec ha).1

/-- After a successful `BindAllocs` the bucket has as many free records as before if
they were enough and a whole buffer more if not, and every record that was there is as
it was. If the free records are stored under their own ids, the next calls of `UseAlloc`
that return take different ones and ask nobody, as long as they are no more than the
buffer. -/
theorem refill_size {s t : StoreOf V} {u : Unit} (hB : 1 ≤ c.allocbuffer) (hnew : SendsNew c netId s)
    (h : json.bindAllocs c netId s = (.ok u,t)) :
    Refilled json c netId s t ∧
    (OwnKeyed json s.db netId → ∀ calls db', Runs (useStep json c netId) t.db calls db' →
      (calls.length : ℤ) ≤ c.allocbuffer →
      ∃ as : List Allocation,
        trace (useStep json c netId) (useResult json c netId) t.db calls = as.map (fun a => (some a,[])) ∧
        (as.map Allocation.id).Nodup ∧ json.freeCount db' netId + calls.length = json.freeCount t.db netId) := by
  obtain ⟨hre,hown⟩ := bindAllocs_refilled hB hnew h
  refine ⟨hre,?_⟩
  intro hs calls db' hr hlen
  have hfree := hre.free
  have henough : calls.length ≤ json.freeCount t.db netId := by
    split at hfree <;> omega
  obtain ⟨as,htrace,hnd,-,hend⟩ := runs_useStep hr (hown hs) henough
  exact ⟨as,htrace,hnd,hend⟩

def twoCfg : MtnCfg := ⟨true,2,"allocator","host","host",[]⟩

def oneFree : Store :=
  ⟨Buckets.put ∅ "lan" "a1" (stored "a1" false),replying [sending "a2",sending "a3"]⟩

theorem refill_size_two :
    ∃ t db', plain.bindAllocs twoCfg "lan" oneFree = (.ok (),t) ∧ plain.freeCount t.db "lan" = 3 ∧
      Runs (useStep plain twoCfg "lan") t.db [("box",silent),("box",silent)] db' ∧ plain.freeCount db' "lan" = 1 := by
  have hone : plain.freeCount oneFree.db "lan" = 1 := by decide +kernel
  have hnew : SendsNew twoCfg "lan" oneFree := ⟨by decide +kernel,by decide +kernel⟩
  have hown : OwnKeyed plain oneFree.db "lan" := by
    intro k v a hv hx _
    rw [oneFree, Buckets.value_put] at hv
    split at hv
    · rename_i he
      cases hv
      cases hx
      exact he.2
    · cases hv
  have hok : (plain.bindAllocs twoCfg "lan" oneFree).1 = .ok () := by decide +kernel
  have hruns : (run (useStep plain twoCfg "lan") (plain.bindAllocs twoCfg "lan" oneFree).2.db
      [("box",silent),("box",silent)]).isSome = true := by decide +kernel
  obtain ⟨t,ht⟩ : ∃ t, plain.bindAllocs twoCfg "lan" oneFree = (.ok (),t) := ⟨_,Prod.ext hok rfl⟩
  rw [ht] at hruns
  obtain ⟨db',hrun⟩ := Option.isSome_iff_exists.mp hruns
  obtain ⟨hre,huse⟩ := refill_size (by decide) hnew ht
  have hthree : plain.freeCount t.db "lan" = 3 := by
    have hfree := hre.free
    rw [hone, if_neg (by decide), show twoCfg.allocbuffer = 2 from rfl] at hfree
    omega
  obtain ⟨as,-,-,hend⟩ := huse hown _ _ (Runs.of_run hrun) (by decide)
  refine ⟨t,db',ht,hthree,.of_run hrun,?_⟩
  rw [hthree] at hend
  simpa using hend

/-- Two free records, one of them under a key that is not its id. -/
def strayKey : Store :=
  ⟨Buckets.put (Buckets.put ∅ "lan" "a0" (stored "a1" false)) "lan" "a2" (stored "a2" false),silent⟩

/-- The bucket needs no refill, and the next two containers get the same address. -/
theorem strayKey_served_twice :
    ∃ t db', plain.bindAllocs twoCfg "lan" strayKey = (.ok (),t) ∧ SendsNew twoCfg "lan" strayKey ∧
      Runs (useStep plain twoCfg "lan") t.db [("box",silent),("box",silent)] db' ∧
      trace (useStep plain twoCfg "lan") (useResult plain twoCfg "lan") t.db [("box",silent),("box",silent)] =
        [(some (stored "a1" true),[]),(some (stored "a1" true),[])] ∧
      plain.freeCount t.db "lan" = 2 ∧ plain.freeCount db' "lan" = 2 := by
  have hok : (plain.bindAllocs twoCfg "lan" strayKey).1 = .ok () := by decide +kernel
  have hnew : SendsNew twoCfg "lan" strayKey := ⟨by decide +kernel,by decide +kernel⟩
  have hend : (run (useStep plain twoCfg "lan") (plain.bindAllocs twoCfg "lan" strayKey).2.db
      [("box",silent),("box",silent)]).map (fun db => plain.freeCount db "lan") = some 2 := by decide +kernel
  obtain ⟨db',hrun,hfree⟩ := Option.map_eq_some_iff.mp hend
  exact ⟨_,db',Prod.ext hok rfl,hnew,.of_run hrun,by decide +kernel,by decide +kernel,hfree⟩

end Stout.Mtn.Bytes
