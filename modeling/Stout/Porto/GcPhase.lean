import Stout.Isolate.MtnFailures
import Stout.Isolate.MtnReliable
import Stout.Porto.StartupGc

/-! # What the start-up collection frees

The comparison of the used allocations with the addresses found, as the loop of
`waitLoop` makes it: entries are deleted from the slice that is being indexed. After it
the allocations of the box that are left are freed one by one. The spawns that may run
beside the collection are in `StartupGc`; here there are none.
-/
namespace Stout.Porto.GcPhase
open Std (ExtTreeMap)
open Mtn Prog

/-! ## The loop -/

/-- The inner loop: it breaks at the first address that is the allocation's. -/
def found (ip : String) : List String → Bool
  | [] => false
  | x :: ips => if ip = x then true else found ip ips

/-- `usedAllocations[i]`. -/
def index (used : List Allocation) (i : ℤ) : Option Allocation := if 0 ≤ i then used[i.toNat]? else none

/-- `append(usedAllocations[:i], usedAllocations[i+1:]...)`. -/
def delete (used : List Allocation) (i : ℤ) : Option (List Allocation) :=
  if 0 ≤ i ∧ i + 1 ≤ used.length then some (used.take i.toNat ++ used.drop (i + 1).toNat) else none

theorem length_delete {used rest : List Allocation} {i : ℤ} (h : delete used i = some rest) :
    rest.length + 1 = used.length := by
  unfold delete at h
  split at h
  · cases h
    simp only [List.length_append, List.length_take, List.length_drop]
    omega
  · cases h

/-- The outer loop at index `i`. A deletion takes the index back by one before the loop
moves it on. -/
def scan (ips : List String) (i : ℤ) (used : List Allocation) : Outcome Mtn.Err (List Allocation) :=
  if _ : i < used.length then
    match index used i with
    | none => .panic indexOutOfRange
    | some usedAllocation =>
      if found usedAllocation.ip ips then
        match _ : delete used i with
        | none => .panic "slice bounds out of range"
        | some rest => scan ips (i - 1 + 1) rest
      else scan ips (i + 1) used
  else .ok used
termination_by (used.length - i).toNat
decreasing_by
  · have hl := length_delete (by assumption : delete used i = some rest)
    omega
  · omega

def compareIps (ips : List String) (used : List Allocation) : Outcome Mtn.Err (List Allocation) :=
  if 0 < used.length ∧ 0 < ips.length then scan ips 0 used else .ok used

/-- One turn of the loop over what is left: `UnuseAlloc` if it is the box's. -/
def freeOne (name : String) (a : Allocation) : Mtn.Call Unit :=
  if a.box = name then do
    let _ ← unuseAlloc a.netId a.id
    pure ()
  else pure ()

def freeUsed (name : String) (used : List Allocation) : Mtn.Call Unit :=
  if 0 < used.length then used.forM (freeOne name) else pure ()

/-- The phase as far as the pool goes, with the addresses of the containers that run. -/
def gcPhase (c : MtnCfg) (name : String) (ips : List String) : Mtn.Call Unit := do
  let r ← usedAllocations c
  let used ← Prog.ofOutcome (compareIps ips r.1)
  freeUsed name used

theorem found_eq_contains (ip : String) (ips : List String) : found ip ips = ips.contains ip := by
  induction ips with
  | nil => rfl
  | cons x ips ih =>
    rw [found, List.contains_cons, ih]
    by_cases h : ip = x
    · simp [h]
    · simp [h]

/-- No address stands for the allocation. -/
def orphaned (ips : List String) (a : Allocation) : Bool := !ips.contains a.ip

theorem orphaned_iff {ips : List String} {a : Allocation} : orphaned ips a = true ↔ a.ip ∉ ips := by
  simp [orphaned]

theorem scan_append (ips : List String) (pre post : List Allocation) :
    scan ips pre.length (pre ++ post) = .ok (pre ++ post.filter (orphaned ips)) := by
  induction post generalizing pre with
  | nil =>
    rw [scan, dif_neg (by simp)]
    simp
  | cons a post ih =>
    have hi : index (pre ++ a :: post) pre.length = some a := by simp [index]
    have hd : delete (pre ++ a :: post) pre.length = some (pre ++ post) := by
      have hn : ((pre.length : ℤ) + 1).toNat = pre.length + 1 := by omega
      simp [delete, hn, List.drop_append]
    rw [scan, dif_pos (by simp), hi]
    dsimp only
    rw [found_eq_contains, List.filter_cons]
    cases hf : ips.contains a.ip with
    | true =>
      have ho : orphaned ips a = false := by rw [orphaned, hf, Bool.not_true]
      rw [if_pos rfl, ho, if_neg Bool.false_ne_true, show (pre.length : ℤ) - 1 + 1 = pre.length by omega]
      split
      · rename_i h
        rw [hd] at h
        cases h
      · rename_i rest h
        rw [hd] at h
        cases h
        exact ih pre
    | false =>
      have ho : orphaned ips a = true := by rw [orphaned, hf, Bool.not_false]
      have hn := ih (pre ++ [a])
      rw [List.append_assoc, List.append_assoc, List.singleton_append, List.singleton_append, List.length_append,
        List.length_singleton, Nat.cast_add, Nat.cast_one] at hn
      rw [if_neg Bool.false_ne_true, if_pos ho]
      exact hn

/-- The loop stays in bounds, ends, and keeps exactly the entries whose address is not
in the list, in their order. -/
theorem compareIps_eq (ips : List String) (used : List Allocation) :
    compareIps ips used = .ok (used.filter (orphaned ips)) := by
  unfold compareIps
  split
  · exact scan_append ips [] used
  · rename_i h
    cases used with
    | nil => rfl
    | cons a used =>
      cases ips with
      | nil =>
        have hall : (a :: used).filter (orphaned []) = a :: used := List.filter_eq_self.mpr fun _ _ => rfl
        rw [hall]
      | cons ip ips => exact (h ⟨by simp,by simp⟩).elim

/-! ## The pool -/

def stored (db : Db) : List Allocation := (db.toList.flatMap fun p => p.2.toList).map Prod.snd

theorem mem_stored {db : Db} {a : Allocation} : a ∈ stored db ↔ ∃ n k, record db n k = some a := by
  constructor
  · intro h
    obtain ⟨q,hq,rfl⟩ := List.mem_map.mp h
    obtain ⟨p,hp,hpq⟩ := List.mem_flatMap.mp hq
    exact ⟨p.1,q.1,record_of_mem_toList hp hpq⟩
  · rintro ⟨n,k,h⟩
    obtain ⟨b,hb,hk⟩ := Option.bind_eq_some_iff.mp h
    refine List.mem_map.mpr ⟨(k,a),?_,rfl⟩
    refine List.mem_flatMap.mpr ⟨(n,b),?_,?_⟩
    · exact ExtTreeMap.mem_toList_iff_getElem?_eq_some.mpr hb
    · exact ExtTreeMap.mem_toList_iff_getElem?_eq_some.mpr hk

def Storable (db : Db) : Prop := ∀ n k a, record db n k = some a → ValidKey k

def freed (a : Allocation) : Allocation := { a with used := false }

def FreedAt (keys : List (String × String)) (db db' : Db) : Prop :=
  ∀ n k, record db' n k = (record db n k).map fun a => if (n,k) ∈ keys then freed a else a

theorem FreedAt.trans {keys keys' : List (String × String)} {db db' db'' : Db} (h : FreedAt keys db db')
    (h' : FreedAt keys' db' db'') : FreedAt (keys ++ keys') db db'' := by
  intro n k
  rw [h' n k, h n k, Option.map_map]
  refine congrArg (Option.map · (record db n k)) ?_
  funext a
  by_cases hk : (n,k) ∈ keys <;> by_cases hk' : (n,k) ∈ keys' <;> simp [hk, hk', freed]

theorem FreedAt.storable {keys : List (String × String)} {db db' : Db} (h : FreedAt keys db db') (hs : Storable db) :
    Storable db' := by
  intro n k a ha
  rw [h n k] at ha
  obtain ⟨r,hr,-⟩ := Option.map_eq_some_iff.mp ha
  exact hs n k r hr

theorem unuseAlloc_reliable {s : Store} (hf : s.env.faults = []) (hs : Storable s.db) {netId id : String}
    {v : Allocation} (hv : record s.db netId id = some v) :
    ∃ t, unuseAlloc netId id s = (.ok (.ok ()),t) ∧ t.env.faults = [] ∧ FreedAt [(netId,id)] s.db t.db := by
  have hfree : texts.freeDbAlloc netId id s = (.ok (),{ s with db := putRecord s.db netId id (freed v) }) :=
    freeDbAlloc_reliable hf hv rfl (hs netId id v hv)
  refine ⟨_,attempt_ok hfree,hf,?_⟩
  intro n k
  rw [record_putRecord]
  by_cases h : netId = n ∧ id = k
  · obtain ⟨rfl,rfl⟩ := h
    rw [if_pos ⟨rfl,rfl⟩, hv]
    simp [freed]
  · have hne : (n,k) ≠ (netId,id) := by
      rintro he
      cases he
      exact h ⟨rfl,rfl⟩
    rw [if_neg h]
    simp [hne]

theorem freeLoop_reliable {name : String} {used : List Allocation} {s : Store} (hf : s.env.faults = [])
    (hs : Storable s.db) (hused : ∀ a ∈ used, ∃ v, record s.db a.netId a.id = some v) :
    ∃ t, used.forM (freeOne name) s = (.ok (),t) ∧
      FreedAt ((used.filter fun a => a.box = name).map Allocation.key) s.db t.db := by
  induction used generalizing s with
  | nil =>
    refine ⟨s,rfl,?_⟩
    intro n k
    simp
  | cons a used ih =>
    have hrest : ∀ a ∈ used, ∃ v, record s.db a.netId a.id = some v := fun x hx => hused x (List.mem_cons_of_mem a hx)
    by_cases hb : a.box = name
    · obtain ⟨v,hv⟩ := hused a List.mem_cons_self
      obtain ⟨t,ht,hft,hfree⟩ := unuseAlloc_reliable hf hs hv
      have hkept : ∀ a ∈ used, ∃ v, record t.db a.netId a.id = some v := by
        intro x hx
        obtain ⟨w,hw⟩ := hrest x hx
        rw [hfree, hw]
        exact ⟨_,rfl⟩
      obtain ⟨u,hu,hfu⟩ := ih hft (hfree.storable hs) hkept
      refine ⟨u,?_,?_⟩
      · have hone : freeOne name a s = (.ok (),t) := by
          rw [freeOne, if_pos hb, bind_ok ht, pure_apply]
        exact (bind_ok hone _).trans hu
      · rw [List.filter_cons, if_pos (by simpa using hb)]
        exact hfree.trans hfu
    · obtain ⟨u,hu,hfu⟩ := ih hf hs hrest
      refine ⟨u,?_,?_⟩
      · have hone : freeOne name a s = (.ok (),s) := by
          rw [freeOne, if_neg hb, pure_apply]
        exact (bind_ok hone _).trans hu
      · rw [List.filter_cons, if_neg (by simpa using hb)]
        exact hfu

theorem freeUsed_reliable (name : String) {used : List Allocation} {s : Store} (hf : s.env.faults = [])
    (hs : Storable s.db) (hused : ∀ a ∈ used, ∃ v, record s.db a.netId a.id = some v) :
    ∃ t, freeUsed name used s = (.ok (),t) ∧
      FreedAt ((used.filter fun a => a.box = name).map Allocation.key) s.db t.db := by
  unfold freeUsed
  split
  · exact freeLoop_reliable hf hs hused
  · rename_i h
    rw [List.length_pos_iff, not_not] at h
    subst h
    exact ⟨s,rfl,fun n k => by simp⟩

theorem mem_orphans_iff {db : Db} (hk : WellKeyed db) {name : String} {ips : List String} {n k : String}
    {a : Allocation} (ha : record db n k = some a) :
    (n,k) ∈ ((((stored db).filter Allocation.used).filter (orphaned ips)).filter fun a => a.box = name).map
      Allocation.key ↔ a.used = true ∧ a.box = name ∧ a.ip ∉ ips := by
  obtain ⟨hid,hnet⟩ := hk n k a ha
  simp only [List.mem_map, List.mem_filter, mem_stored, orphaned_iff, decide_eq_true_eq]
  constructor
  · rintro ⟨x,⟨⟨⟨⟨n',k',hx⟩,hu⟩,hip⟩,hbox⟩,hkey⟩
    obtain ⟨hxid,hxnet⟩ := hk n' k' x hx
    have hn : n' = n := by rw [← hxnet]; exact congrArg Prod.fst hkey
    have hk' : k' = k := by rw [← hxid]; exact congrArg Prod.snd hkey
    subst hn hk'
    rw [ha] at hx
    cases hx
    exact ⟨hu,hbox,hip⟩
  · rintro ⟨hu,hbox,hip⟩
    exact ⟨a,⟨⟨⟨⟨n,k,ha⟩,hu⟩,hip⟩,hbox⟩,Prod.ext hnet hid⟩

/-- The collection compares the used allocations with the addresses in bounds and to the
end, and frees exactly the orphans of the box. -/
theorem gcPhase_frees_orphans {c : MtnCfg} (hc : c.enable = true) (name : String) (ips : List String) {s : Store}
    (hf : s.env.faults = []) (hk : WellKeyed s.db) (hs : Storable s.db) :
    ∃ stat t, usedAllocations c s = (.ok ((stored s.db).filter Allocation.used,stat),s) ∧
      compareIps ips ((stored s.db).filter Allocation.used) =
        .ok (((stored s.db).filter Allocation.used).filter fun a => a.ip ∉ ips) ∧
      gcPhase c name ips s = (.ok (),t) ∧
      ∀ n k, record t.db n k = (record s.db n k).map fun a =>
        if a.used = true ∧ a.box = name ∧ a.ip ∉ ips then { a with used := false } else a := by
  obtain ⟨stat,hused⟩ := usedAllocations_reliable hf hc
  have hcmp := compareIps_eq ips ((stored s.db).filter Allocation.used)
  have hkept : ∀ a ∈ ((stored s.db).filter Allocation.used).filter (orphaned ips),
      ∃ v, record s.db a.netId a.id = some v := by
    intro a ha
    obtain ⟨n,k,hr⟩ := mem_stored.mp (List.mem_filter.mp (List.mem_filter.mp ha).1).1
    obtain ⟨rfl,rfl⟩ := hk n k a hr
    exact ⟨a,hr⟩
  obtain ⟨t,ht,hfree⟩ := freeUsed_reliable name hf hs hkept
  refine ⟨stat,t,hused,?_,?_,?_⟩
  · rw [hcmp]
    refine congrArg Outcome.ok (List.filter_congr ?_)
    intro a _
    simp [orphaned]
  · have hcall : (Prog.ofOutcome (compareIps ips ((stored s.db).filter Allocation.used)) : Mtn.Call (List Allocation)) s =
        (.ok (((stored s.db).filter Allocation.used).filter (orphaned ips)),s) := by
      rw [Prog.ofOutcome, hcmp]
    rw [gcPhase, bind_ok hused]
    exact (bind_ok hcall _).trans ht
  · intro n k
    rw [hfree n k]
    cases ha : record s.db n k with
    | none => rfl
    | some a =>
      rw [Option.map_some, Option.map_some, freed]
      simp only [mem_orphans_iff hk ha]

theorem Storable.putRecord {db : Db} (h : Storable db) {netId id : String} {a : Allocation} (hid : ValidKey id) :
    Storable (putRecord db netId id a) := by
  intro n k r hr
  rw [record_putRecord] at hr
  split at hr
  · rename_i he
    exact he.2 ▸ hid
  · exact h n k r hr

def leftDb : Db :=
  putRecord (putRecord lanDb "lan" "a2" ⟨"eth0","host","::2","a2","lan","box",true⟩) "lan" "a3"
    ⟨"eth0","host","::3","a3","lan","box",true⟩

theorem gcPhase_frees_left : ∃ t, gcPhase lanCfg "box" ["::2","::9","::2"] ⟨leftDb,silent⟩ = (.ok (),t) ∧
    record t.db "lan" "a2" = some ⟨"eth0","host","::2","a2","lan","box",true⟩ ∧
    record t.db "lan" "a3" = some ⟨"eth0","host","::3","a3","lan","box",false⟩ := by
  have hk : WellKeyed leftDb := by
    unfold leftDb
    refine WellKeyed.putRecord ?_ rfl rfl
    exact lanDb_wellKeyed.putRecord rfl rfl
  have hempty : Storable ∅ := fun n k a h => nomatch h
  have hs : Storable leftDb := by
    unfold leftDb
    refine Storable.putRecord ?_ ⟨by decide,by decide +kernel⟩
    refine Storable.putRecord ?_ ⟨by decide,by decide +kernel⟩
    exact hempty.putRecord ⟨by decide,by decide +kernel⟩
  obtain ⟨_,t,-,-,ht,hr⟩ := gcPhase_frees_orphans (c := lanCfg) rfl "box" ["::2","::9","::2"]
    (s := ⟨leftDb,silent⟩) rfl hk hs
  refine ⟨t,ht,?_,?_⟩
  · rw [hr, leftDb, record_putRecord, if_neg (by decide), record_putRecord, if_pos ⟨rfl,rfl⟩]
    rfl
  · rw [hr, leftDb, record_putRecord, if_pos ⟨rfl,rfl⟩]
    rfl

/-! ## Beside the spawns -/

theorem freeOne_ok (name : String) (a : Allocation) (s : Store) : ∃ t, freeOne name a s = (.ok (),t) := by
  unfold freeOne
  split
  · rcases hu : unuseAlloc a.netId a.id s with ⟨o,t⟩
    cases o with
    | ok r => exact ⟨t,by rw [bind_ok hu, pure_apply]⟩
    | error e =>
      have he := congrArg Prod.fst hu
      rw [unuseAlloc, Codec.unuseAlloc, Prog.attempt] at he
      split at he <;> cases he
    | panic p =>
      have hp : (unuseAlloc a.netId a.id s).1 ≠ .panic p := (freeDbAlloc_safe a.netId a.id).attempt s trivial p
      rw [hu] at hp
      exact (hp rfl).elim
  · exact ⟨s,rfl⟩

/-- Freeing one allocation is one step of the collection of `StartupGc`. -/
theorem freeOne_step (c : MtnCfg) (b : StartupGc.Box) {a : Allocation} {used : List Allocation} {s : StartupGc.State}
    (hgc : s.gc = .freeing (a :: used)) (env : Env) :
    StartupGc.step c b s (.unuseAlloc env) =
      some { s with db := (freeOne b.name a ⟨s.db,env⟩).2.db, gc := .freeing used } := by
  rw [StartupGc.step, StartupGc.State.unuseAlloc, hgc, freeOne]
  dsimp only
  split
  · rw [bind_pure_apply]
  · rfl

theorem freeLoop_runs (c : MtnCfg) (b : StartupGc.Box) {used : List Allocation} {s : StartupGc.State}
    (hgc : s.gc = .freeing used) (env : Env) :
    ∃ labels t, Runs (StartupGc.step c b) s labels { s with db := t.db, gc := .finished } ∧
      used.forM (freeOne b.name) ⟨s.db,env⟩ = (.ok (),t) := by
  induction used generalizing s env with
  | nil =>
    refine ⟨[.unuseAlloc env],⟨s.db,env⟩,.single ?_,rfl⟩
    rw [StartupGc.step, StartupGc.State.unuseAlloc, hgc]
  | cons a used ih =>
    obtain ⟨u,hu⟩ := freeOne_ok b.name a ⟨s.db,env⟩
    have hstep := freeOne_step c b hgc env
    rw [hu] at hstep
    obtain ⟨labels,t,hr,hl⟩ := ih (s := { s with db := u.db, gc := .freeing used }) rfl u.env
    exact ⟨_,t,.step hstep hr,(bind_ok hu _).trans hl⟩

theorem gcPhase_runs (c : MtnCfg) (b : StartupGc.Box) {ips : List String} {used : List Allocation}
    {s : StartupGc.State} (hgc : s.gc = .inspecting [] ips used) (env : Env) :
    ∃ labels t, Runs (StartupGc.step c b) s labels { s with db := t.db, gc := .finished } ∧
      (do let left ← Prog.ofOutcome (compareIps ips used); freeUsed b.name left : Mtn.Call Unit) ⟨s.db,env⟩ = (.ok (),t) := by
  have hstep : StartupGc.step c b s .compareIps = some { s with gc := .freeing (used.filter (orphaned ips)) } := by
    rw [StartupGc.step, StartupGc.State.compareIps, hgc]
    rfl
  have hcall : (Prog.ofOutcome (compareIps ips used) : Mtn.Call (List Allocation)) ⟨s.db,env⟩ =
      (.ok (used.filter (orphaned ips)),⟨s.db,env⟩) := by
    rw [Prog.ofOutcome, compareIps_eq]
  obtain ⟨labels,t,hr,hl⟩ := freeLoop_runs c b (s := { s with gc := .freeing (used.filter (orphaned ips)) }) rfl env
  refine ⟨.compareIps :: labels,t,.step hstep hr,?_⟩
  rw [bind_ok hcall, freeUsed]
  split
  · exact hl
  · rename_i h
    rw [List.length_pos_iff, not_not] at h
    rw [h] at hl
    exact hl

end Stout.Porto.GcPhase
