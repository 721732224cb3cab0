import Stout.Porto.ContainerVolumes

/-! # Extra volumes

`CreateExtraVolumes` of `porto/container_config.go`, from whatever state it is called
in. A turn of its loop gives up before it has put its volume on the list, or after, or
builds the volume. Everything on the list is destroyed on the way out of a failed turn,
so what counts is that the list and what has been made do not part company.
-/
namespace Stout.Porto
open Prog
open Paths (join join_ne_empty)

/-! ## What is built -/

section Built
variable (c : ContainerConfig) (root : String) (vp : VolumeProfile)

def VolumeProfile.storage : String := lookup vp.properties "storage"

/-- The properties with the path of the storage directory in the place of the storage. -/
def rewritten : Map :=
  if vp.storage ≠ "" then vp.properties.insert "storage" (join vp.storage c.id) else vp.properties

def builtVolume : Volume :=
  ⟨c.id,join root vp.target,false,rewritten c vp,if vp.storage ≠ "" then some (join vp.storage c.id) else none⟩

def storageCalls : List Call := if vp.storage ≠ "" then [.mkdirAll (join vp.storage c.id)] else []

def builtCalls (v : ℕ) : List Call :=
  .mkdirAll (join root vp.target) :: storageCalls c vp ++ [.createVolume v (join root vp.target) (rewritten c vp)]

/-- The calls for the volumes of a list, the first of which is the `v`-th of the heap. -/
def allCalls : ℕ → List VolumeProfile → List Call
  | _, [] => []
  | v, vp :: rest => builtCalls c root vp v ++ allCalls (v + 1) rest

end Built

/-- How many volumes come to the list: those before the first turn that fails, and the
one of that turn if its directory could be made. -/
def registered (o : Outside) : ℕ → List VolumeProfile → ℕ
  | _, [] => 0
  | i, vp :: rest =>
    if vp.target = "" ∨ o.fault (.mkdirTarget i) ≠ none then 0
    else if vp.storage ≠ "" ∧ o.fault (.mkdirStorage i) ≠ none ∨ o.fault (.createExtra i) ≠ none then 1
    else registered o (i + 1) rest + 1

def World.grown (w : World) (x : Volume) (calls : List Call) : World :=
  { w with volumes := w.volumes ++ [x], log := w.log ++ calls }

def Call.makes : Call → Bool
  | .mkdirAll _ | .createVolume .. => true
  | _ => false

def Call.destroys (v : ℕ) : Call → Bool
  | .destroyVolume u => u = v
  | _ => false

/-- The calls make something, and every directory they make is one of the volume's. -/
structure Covers (x : Volume) (calls : List Call) : Prop where
  makes : ∀ call ∈ calls, call.makes = true
  dirs : ∀ p, .mkdirAll p ∈ calls → p = x.path ∨ x.storagepath = some p ∧ p ≠ ""

theorem covers_builtCalls (c : ContainerConfig) (root : String) (vp : VolumeProfile) (v : ℕ) :
    Covers (builtVolume c root vp) (builtCalls c root vp v) := by
  unfold builtCalls storageCalls builtVolume
  by_cases hs : vp.storage = ""
  · constructor
    · simp [hs, Call.makes]
    · simp [hs]
  · constructor
    · simp [hs, Call.makes]
    · simp [hs, join_ne_empty hs]

/-! ## One turn -/

section Turn
variable {o : Outside} {c : ContainerConfig} {root : String} {i : ℕ} {volumes : List ℕ} {vp : VolumeProfile}
  {rest : List VolumeProfile} {w : World}

inductive Turn (o : Outside) (c : ContainerConfig) (root : String) (i : ℕ) (volumes : List ℕ) (vp : VolumeProfile)
    (rest : List VolumeProfile) (w : World) : Prop
  | unregistered {e : Err} : registered o i (vp :: rest) = 0 →
      createExtra o c root i volumes (vp :: rest) w = (.error e,(cleanUpOnError volumes w).2) → Turn o c root i volumes vp rest w
  | unfinished {e : Err} {x : Volume} {l : List Call} : registered o i (vp :: rest) = 1 →
      x.path = join root vp.target → Covers x l →
      createExtra o c root i volumes (vp :: rest) w =
        (.error e,(cleanUpOnError (volumes ++ [w.volumes.length]) (w.grown x l)).2) → Turn o c root i volumes vp rest w
  | built : registered o i (vp :: rest) = registered o (i + 1) rest + 1 →
      createExtra o c root i volumes (vp :: rest) w = createExtra o c root (i + 1) (volumes ++ [w.volumes.length]) rest
        (w.grown (builtVolume c root vp) (builtCalls c root vp w.volumes.length)) → Turn o c root i volumes vp rest w

theorem createStorage_plain (hs : vp.storage = "") (volumes : List ℕ) (v : ℕ) (w : World) :
    createStorage o c i vp volumes v w = (.ok (rewritten c vp),w) := by
  have hs' : lookup vp.properties "storage" = "" := hs
  unfold createStorage rewritten
  rw [if_neg (not_not.mpr hs'), if_neg (not_not.mpr hs), pure_apply]

theorem modify_length (l : List Volume) (x : Volume) (f : Volume → Volume) :
    (l ++ [x]).modify l.length f = l ++ [f x] := by
  induction l with
  | nil => rfl
  | cons y l ih => exact congrArg (y :: ·) ih

theorem createStorage_made (hs : vp.storage ≠ "") (hf : o.fault (.mkdirStorage i) = none) (volumes : List ℕ)
    (calls : List Call) :
    createStorage o c i vp volumes w.volumes.length (w.grown (extraVolume c (join root vp.target) vp) calls) =
      (.ok (rewritten c vp),w.grown (builtVolume c root vp) (calls ++ [.mkdirAll (join vp.storage c.id)])) := by
  have hs' : lookup vp.properties "storage" ≠ "" := hs
  have hrw : rewritten c vp = vp.properties.insert "storage" (join vp.storage c.id) := if_pos hs
  have hbuilt : builtVolume c root vp = { extraVolume c (join root vp.target) vp with
      storagepath := some (join vp.storage c.id)
      properties := vp.properties.insert "storage" (join vp.storage c.id) } := by
    rw [builtVolume, hrw, if_pos hs]
    rfl
  unfold createStorage
  rw [if_pos hs', bind_ok (onError_trying_quiet hf _ _ _)]
  rw [bind_ok (show update w.volumes.length _ _ = (.ok (),_) from rfl), pure_apply, hrw]
  refine congrArg (Prod.mk _) ?_
  simp only [World.grown, World.record, modify_length, hbuilt, List.append_assoc]
  rfl

theorem createExtra_allocated (ht : vp.target ≠ "") (hm : o.fault (.mkdirTarget i) = none) (volumes : List ℕ)
    (rest : List VolumeProfile) (w : World) :
    createExtra o c root i volumes (vp :: rest) w =
      (do let properties ← createStorage o c i vp (volumes ++ [w.volumes.length]) w.volumes.length
          Prog.onError (trying o (.createExtra i) (.createVolume w.volumes.length (join root vp.target) properties))
            (cleanUpOnError (volumes ++ [w.volumes.length]))
          createExtra o c root (i + 1) (volumes ++ [w.volumes.length]) rest)
        (w.grown (extraVolume c (join root vp.target) vp) [.mkdirAll (join root vp.target)]) := by
  rw [createExtra, if_neg ht, bind_ok (onError_trying_quiet hm _ _ w)]
  rfl

theorem createStorage_built (hs : vp.storage = "" ∨ o.fault (.mkdirStorage i) = none) (volumes : List ℕ) (w : World) :
    createStorage o c i vp volumes w.volumes.length
      (w.grown (extraVolume c (join root vp.target) vp) [.mkdirAll (join root vp.target)]) =
      (.ok (rewritten c vp),w.grown (builtVolume c root vp) (.mkdirAll (join root vp.target) :: storageCalls c vp)) := by
  by_cases he : vp.storage = ""
  · have hx : extraVolume c (join root vp.target) vp = builtVolume c root vp := by
      have he' : lookup vp.properties "storage" = "" := he
      simp [extraVolume, builtVolume, rewritten, he, he']
    rw [createStorage_plain he, hx, storageCalls, if_neg (not_not.mpr he)]
  · rw [createStorage_made he (hs.resolve_left he), storageCalls, if_pos he]
    rfl

theorem createExtra_prepared (c : ContainerConfig) (root : String) (ht : vp.target ≠ "")
    (hm : o.fault (.mkdirTarget i) = none) (hs : vp.storage = "" ∨ o.fault (.mkdirStorage i) = none)
    (volumes : List ℕ) (rest : List VolumeProfile) (w : World) :
    createExtra o c root i volumes (vp :: rest) w =
      (do Prog.onError
            (trying o (.createExtra i) (.createVolume w.volumes.length (join root vp.target) (rewritten c vp)))
            (cleanUpOnError (volumes ++ [w.volumes.length]))
          createExtra o c root (i + 1) (volumes ++ [w.volumes.length]) rest)
        (w.grown (builtVolume c root vp) (.mkdirAll (join root vp.target) :: storageCalls c vp)) := by
  rw [createExtra_allocated ht hm, bind_ok (createStorage_built hs _ w)]

theorem turn (o : Outside) (c : ContainerConfig) (root : String) (i : ℕ) (volumes : List ℕ) (vp : VolumeProfile)
    (rest : List VolumeProfile) (w : World) : Turn o c root i volumes vp rest w := by
  by_cases ht : vp.target = ""
  · refine .unregistered (e := emptyTarget) (by simp [registered, ht]) ?_
    rw [createExtra, if_pos ht, bind_ok (cleanUpOnError_apply volumes w), cleanUpOnError_apply]
    rfl
  cases hm : o.fault (.mkdirTarget i) with
  | some e =>
    refine .unregistered (e := .text e) (by simp [registered, hm]) ?_
    rw [createExtra, if_neg ht]
    exact bind_error (onError_trying_fails hm _ _ w) _
  | none =>
  by_cases hs : vp.storage ≠ "" ∧ o.fault (.mkdirStorage i) ≠ none
  · obtain ⟨hs,hf⟩ := hs
    obtain ⟨e,he⟩ := Option.ne_none_iff_exists'.mp hf
    have hs' : lookup vp.properties "storage" ≠ "" := hs
    refine .unfinished (e := .text e) (x := extraVolume c (join root vp.target) vp)
      (l := [.mkdirAll (join root vp.target)]) (by simp [registered, ht, hm, hs, he]) rfl ⟨?_,?_⟩ ?_
    · simp [Call.makes]
    · simp [extraVolume]
    · rw [createExtra_allocated ht hm]
      refine bind_error ?_ _
      unfold createStorage
      rw [if_pos hs']
      exact bind_error (onError_trying_fails he _ _ _) _
  have hstorage : vp.storage = "" ∨ o.fault (.mkdirStorage i) = none := by
    rwa [not_and_not_right, ← or_iff_not_imp_left] at hs
  have hprepared := createExtra_prepared c root ht hm hstorage volumes rest w
  cases hc : o.fault (.createExtra i) with
  | some e =>
    refine .unfinished (e := .text e) (x := builtVolume c root vp)
      (l := .mkdirAll (join root vp.target) :: storageCalls c vp) (by simp [registered, ht, hm, hs, hc]) rfl ?_ ?_
    · have hcov := covers_builtCalls c root vp w.volumes.length
      rw [builtCalls] at hcov
      exact ⟨fun call hcall => hcov.makes call (List.mem_append_left _ hcall),
        fun p hp => hcov.dirs p (List.mem_append_left _ hp)⟩
    · rw [hprepared]
      exact bind_error (onError_trying_fails hc _ _ _) _
  | none =>
    refine .built (by simp [registered, ht, hm, hs, hc]) ?_
    rw [hprepared, bind_ok (onError_trying_quiet hc _ _ _), builtCalls]
    simp only [World.grown, World.record, List.append_assoc]

end Turn

/-! ## The whole list -/

/-- What has been made since the start is on the list: the new volumes of the heap, and
with them every directory. -/
structure Listed (w₀ w : World) (volumes : List ℕ) (new : List Volume) : Prop where
  heap : w.volumes = w₀.volumes ++ new
  volumes : volumes = List.range' w₀.volumes.length new.length
  log : ∃ made, w.log = w₀.log ++ made ∧ (∀ call ∈ made, call.makes = true) ∧
    ∀ p, .mkdirAll p ∈ made → ∃ x ∈ new, p = x.path ∨ x.storagepath = some p ∧ p ≠ ""

/-- All that was made has been undone: there are calls that make, and after them calls
that undo, with one `Destroy` for each volume and the removal of every directory. -/
structure Undone (w₀ t : World) : Prop where
  log : ∃ made undone, t.log = w₀.log ++ made ++ undone ∧ (∀ call ∈ made, call.makes = true) ∧
    (∀ call ∈ undone, call.undoes = true) ∧ (∀ p, .mkdirAll p ∈ made → .removeAll p ∈ undone) ∧
    ∀ v, undone.countP (Call.destroys v) = if w₀.volumes.length ≤ v ∧ v < t.volumes.length then 1 else 0

theorem Listed.start (w : World) : Listed w w [] [] := ⟨by simp,rfl,[],by simp,by simp,by simp⟩

section Listed
variable {w₀ w : World} {volumes : List ℕ} {new : List Volume}

theorem Listed.grown (h : Listed w₀ w volumes new) {x : Volume} {calls : List Call} (hx : Covers x calls) :
    Listed w₀ (w.grown x calls) (volumes ++ [w.volumes.length]) (new ++ [x]) := by
  obtain ⟨made,hlog,hmakes,hdirs⟩ := h.log
  refine ⟨by simp [World.grown, h.heap],?_,made ++ calls,by simp [World.grown, hlog],?_,?_⟩
  · rw [h.volumes, h.heap, List.length_append, List.length_append, List.length_singleton, List.range'_1_concat]
  · intro call hc
    exact (List.mem_append.mp hc).elim (hmakes call) (hx.makes call)
  · intro p hp
    rcases List.mem_append.mp hp with hp | hp
    · obtain ⟨y,hy,hyp⟩ := hdirs p hp
      exact ⟨y,List.mem_append_left _ hy,hyp⟩
    · exact ⟨x,List.mem_append_right _ (List.mem_singleton_self x),hx.dirs p hp⟩

theorem countP_destroyCalls (volume : Volume) (u v : ℕ) :
    (volume.destroyCalls u).countP (Call.destroys v) = if u = v then 1 else 0 := by
  unfold Volume.destroyCalls
  cases volume.linked <;> cases volume.storagepath with
  | none => simp [Call.destroys, List.countP_cons]
  | some p =>
    by_cases hp : p = ""
    · simp [Call.destroys, List.countP_cons, hp]
    · simp [Call.destroys, List.countP_cons, hp]

theorem countP_cleanUp (volumes : List ℕ) (hnd : volumes.Nodup) (f : ℕ → Volume) (v : ℕ) :
    (volumes.flatMap fun u => (f u).destroyCalls u).countP (Call.destroys v) = if v ∈ volumes then 1 else 0 := by
  induction volumes with
  | nil => rfl
  | cons u volumes ih =>
    obtain ⟨hu,hnd⟩ := List.nodup_cons.mp hnd
    rw [List.flatMap_cons, List.countP_append, ih hnd, countP_destroyCalls]
    by_cases hv : u = v
    · subst hv
      simp [hu]
    · simp [hv, Ne.symm hv]

theorem Listed.cleanUp (h : Listed w₀ w volumes new) : Undone w₀ (cleanUpOnError volumes w).2 := by
  obtain ⟨made,hlog,hmakes,hdirs⟩ := h.log
  rw [cleanUpOnError_apply]
  refine ⟨made,_,by rw [World.record, hlog],hmakes,?_,?_,?_⟩
  · intro call hc
    obtain ⟨v,-,hv⟩ := List.mem_flatMap.mp hc
    exact undoes_of_mem_destroyCalls hv
  · intro p hp
    obtain ⟨x,hx,hxp⟩ := hdirs p hp
    obtain ⟨k,hk,rfl⟩ := List.getElem_of_mem hx
    refine List.mem_flatMap.mpr ⟨w₀.volumes.length + k,?_,?_⟩
    · rw [h.volumes, List.mem_range'_1]
      omega
    · have hv : w.volume (w₀.volumes.length + k) = new[k] := by
        rw [World.volume, h.heap, List.getD_eq_getElem?_getD, List.getElem?_append_right (by omega)]
        simp [hk]
      rw [hv]
      rcases hxp with rfl | ⟨hsp,hne⟩
      · simp [Volume.destroyCalls]
      · exact removeAll_mem hsp hne
  · intro v
    rw [countP_cleanUp _ (by rw [h.volumes]; exact List.nodup_range')]
    refine if_congr ?_ rfl rfl
    rw [h.volumes, List.mem_range'_1]
    change _ ↔ _ ∧ v < w.volumes.length
    rw [h.heap, List.length_append]

/-- The loop builds all its volumes, or undoes all it has made. -/
theorem createExtra_spec (o : Outside) (c : ContainerConfig) (root : String) (i : ℕ) (l : List VolumeProfile)
    (h : Listed w₀ w volumes new) :
    (∃ t, createExtra o c root i volumes l w = (.ok (List.range' w₀.volumes.length (new.length + l.length)),t) ∧
      t.volumes = w.volumes ++ l.map (builtVolume c root) ∧ t.log = w.log ++ allCalls c root w.volumes.length l) ∨
    ∃ e t, createExtra o c root i volumes l w = (.error e,t) ∧ Undone w₀ t ∧
      t.volumes.map Volume.path = w.volumes.map Volume.path ++
        (l.take (registered o i l)).map fun vp => join root vp.target := by
  induction l generalizing w volumes new i with
  | nil =>
    refine .inl ⟨w,?_,by simp,by simp [allCalls]⟩
    rw [createExtra, h.volumes]
    rfl
  | cons vp rest ih =>
    cases turn o c root i volumes vp rest w with
    | unregistered hreg heq =>
      refine .inr ⟨_,_,heq,h.cleanUp,?_⟩
      rw [hreg, cleanUpOnError_apply]
      simp [World.record]
    | @unfinished e x l hreg hpath hcov heq =>
      refine .inr ⟨_,_,heq,(h.grown hcov).cleanUp,?_⟩
      rw [hreg, cleanUpOnError_apply]
      simp [World.record, World.grown, hpath]
    | built hreg heq =>
      rw [heq, hreg]
      rcases ih (i + 1) (h.grown (covers_builtCalls c root vp w.volumes.length)) with
        ⟨t,ht,hvol,hlog⟩ | ⟨e,t,ht,hun,hvol⟩
      · refine .inl ⟨t,?_,?_,?_⟩
        · rw [ht]
          simp [Nat.add_comm, Nat.add_left_comm]
        · rw [hvol]
          simp [World.grown]
        · rw [hlog]
          simp [World.grown, allCalls]
      · refine .inr ⟨e,t,ht,hun,?_⟩
        rw [hvol]
        simp [World.grown, builtVolume]

end Listed

/-- Either every extra volume has been created, in the order of the profile, at its path
below the root volume and with its storage directory in the properties; or the call has
failed and undone all it has made. -/
theorem createExtraVolumes_allOrNothing (o : Outside) (c : ContainerConfig) (root : ℕ) (w : World) :
    (∃ t, createExtraVolumes o c root w =
        (.ok (List.range' w.volumes.length c.profile.extraVolumes.length),t) ∧
      t.volumes = w.volumes ++ c.profile.extraVolumes.map (builtVolume c (w.volume root).path) ∧
      t.log = w.log ++ allCalls c (w.volume root).path w.volumes.length c.profile.extraVolumes) ∨
    ∃ e t, createExtraVolumes o c root w = (.error e,t) ∧ Undone w t ∧
      t.volumes.map Volume.path = w.volumes.map Volume.path ++
        (c.profile.extraVolumes.take (registered o 0 c.profile.extraVolumes)).map
          fun vp => join (w.volume root).path vp.target := by
  have hcall : createExtraVolumes o c root w = createExtra o c (w.volume root).path 0 [] c.profile.extraVolumes w := rfl
  rw [hcall]
  have hspec := createExtra_spec o c (w.volume root).path 0 c.profile.extraVolumes (Listed.start w)
  simpa using hspec

end Stout.Porto
