import Stout.Library.JsonScanner
import Stout.Library.SortedSearch
import Stout.Porto.Container

/-! # The journal of layers

`porto/journal.go`: the layers that have been imported, with their digests, and the layers
of each application. `Load` reads both maps from a JSON document, `UpdateFromPorto` takes
out of the first what porto has no more.
-/
namespace Stout.Porto
open Json RangeOrder SortedSearch
open Std (ExtTreeMap)

/-- A map may be nil, which is how `Load` leaves one for which the document has `null`. -/
structure Journal where
  uuid : String
  layers : Option Map
  manifests : Option Map

namespace Journal

def newJournal (uuid : String) : Journal := ⟨uuid,some ∅,some ∅⟩

/-! ## Load -/

inductive LoadErr where
  /-- There is no value. -/
  | eof
  /-- What the scanner does not accept, and what is not complete at the end. -/
  | malformed
  /-- A value of another type than the field. -/
  | mismatch
deriving DecidableEq, Repr

/-- A string field set to a value; the flag says that a type has not fitted. -/
def setString (v : Value) (old : String) (mismatch : Bool) : String × Bool :=
  match v with
  | .string s => (utf8Text s,mismatch)
  | .null => (old,mismatch)
  | _ => (old,true)

/-- A member put into a map. What is not a string leaves the empty one. -/
def putMember (p : Map × Bool) (m : Bytes × Value) : Map × Bool :=
  let r := setString m.2 "" p.2
  (p.1.insert (utf8Text m.1) r.1,r.2)

/-- A map field set to a value: members are added to those it has. -/
def setMap (v : Value) (old : Option Map) (mismatch : Bool) : Option Map × Bool :=
  match v with
  | .object ms =>
    let r := ms.foldl putMember (old.getD ∅,mismatch)
    (some r.1,r.2)
  | .null => (none,mismatch)
  | _ => (old,true)

/-- A member decoded into the journal. Other members than its fields are skipped. -/
def set (p : Journal × Bool) (m : Bytes × Value) : Journal × Bool :=
  if foldEq (ofAscii "uuid") m.1 then
    let r := setString m.2 p.1.uuid p.2
    ({ p.1 with uuid := r.1 },r.2)
  else if foldEq (ofAscii "layers") m.1 then
    let r := setMap m.2 p.1.layers p.2
    ({ p.1 with layers := r.1 },r.2)
  else if foldEq (ofAscii "manifests") m.1 then
    let r := setMap m.2 p.1.manifests p.2
    ({ p.1 with manifests := r.1 },r.2)
  else p

def decode (j : Journal) : Value → Except LoadErr Journal
  | .object ms =>
    let p := ms.foldl set (j,false)
    if p.2 then .error .mismatch else .ok p.1
  | .null => .ok j
  | _ => .error .mismatch

/-- `Load`: the first value of the file. -/
def load (j : Journal) (content : Bytes) : Except LoadErr Journal :=
  match values content with
  | (v :: _,_) => j.decode v
  | ([],true) => .error .eof
  | ([],false) => .error .malformed

/-! ## The maps -/

def layer (j : Journal) (layer : String) : Option String := j.layers.bind fun m => m[layer]?

def getManifestLayers (j : Journal) (manifest : String) : String := (j.manifests.bind fun m => m[manifest]?).getD ""

/-- `in`: the place is looked for in a sorted list. -/
def isIn (a : List String) (x : String) : Bool := found a x

/-- `UpdateFromPorto`, with the order in which the loop visits the layers. The list is
sorted in place. -/
def updateFromPorto (order : List ℕ) (layers : List String) (j : Journal) : Journal :=
  if layers.isEmpty then { j with layers := some ∅ }
  else { j with layers := j.layers.map (prune order (isIn (sorted layers))) }

/-! ## Pruning -/

section Prune
variable (order : List ℕ) (layers : List String) (j : Journal)

theorem layer_updateFromPorto (name : String) :
    (j.updateFromPorto order layers).layer name = if name ∈ layers then j.layer name else none := by
  unfold updateFromPorto
  split
  · rename_i hl
    rw [List.isEmpty_iff.mp hl]
    simp [layer]
  · cases hm : j.layers with
    | none => simp [layer, hm]
    | some m => simp [layer, hm, getElem?_prune, isIn, found_sorted_iff]

theorem uuid_updateFromPorto : (j.updateFromPorto order layers).uuid = j.uuid := by
  unfold updateFromPorto
  split <;> rfl

theorem manifests_updateFromPorto : (j.updateFromPorto order layers).manifests = j.manifests := by
  unfold updateFromPorto
  split <;> rfl

theorem isSome_updateFromPorto :
    (j.updateFromPorto order layers).layers.isSome = (layers.isEmpty || j.layers.isSome) := by
  unfold updateFromPorto
  split
  · rename_i hl
    rw [hl]
    rfl
  · rename_i hl
    simp [hl]

end Prune

theorem ext_layer {j k : Journal} (huuid : j.uuid = k.uuid) (hmanifests : j.manifests = k.manifests)
    (hnil : j.layers.isSome = k.layers.isSome) (hlayer : ∀ name, j.layer name = k.layer name) : j = k := by
  obtain ⟨u,l,m⟩ := j
  obtain ⟨u',l',m'⟩ := k
  obtain rfl : u = u' := huuid
  obtain rfl : m = m' := hmanifests
  cases l with
  | none =>
    obtain rfl : l' = none := by simpa using hnil.symm
    rfl
  | some a =>
    obtain ⟨b,rfl⟩ := Option.isSome_iff_exists.mp hnil.symm
    have hab : a = b := ExtTreeMap.ext_getElem? fun {k} => hlayer k
    rw [hab]

/-- After the call a layer has its digest exactly if it had it before and is listed; the
rest is as it was. The order and the repetitions of the list, and the order of the loop,
do not matter, and another call with these names changes nothing. -/
theorem updateFromPorto_prunes (order : List ℕ) (layers : List String) (j : Journal) :
    (∀ name digest, (j.updateFromPorto order layers).layer name = some digest ↔
      j.layer name = some digest ∧ name ∈ layers) ∧
    (j.updateFromPorto order layers).uuid = j.uuid ∧
    (j.updateFromPorto order layers).manifests = j.manifests ∧
    ∀ order' layers', (∀ name, name ∈ layers' ↔ name ∈ layers) →
      j.updateFromPorto order' layers' = j.updateFromPorto order layers ∧
      (j.updateFromPorto order layers).updateFromPorto order' layers' = j.updateFromPorto order layers := by
  refine ⟨fun name digest => ?_,uuid_updateFromPorto ..,manifests_updateFromPorto ..,fun order' layers' hsame => ?_⟩
  · rw [layer_updateFromPorto]
    by_cases hn : name ∈ layers <;> simp [hn]
  have hempty : layers'.isEmpty = layers.isEmpty := by
    rw [Bool.eq_iff_iff, List.isEmpty_iff, List.isEmpty_iff, List.eq_nil_iff_forall_not_mem, List.eq_nil_iff_forall_not_mem]
    simp only [hsame]
  constructor
  · refine ext_layer ?_ ?_ ?_ fun name => ?_
    · rw [uuid_updateFromPorto, uuid_updateFromPorto]
    · rw [manifests_updateFromPorto, manifests_updateFromPorto]
    · rw [isSome_updateFromPorto, isSome_updateFromPorto, hempty]
    · simp only [layer_updateFromPorto, hsame]
  · refine ext_layer (uuid_updateFromPorto ..) (manifests_updateFromPorto ..) ?_ fun name => ?_
    · rw [isSome_updateFromPorto, isSome_updateFromPorto, hempty]
      cases layers.isEmpty <;> simp
    · simp only [layer_updateFromPorto, hsame]
      split <;> rfl

end Journal

end Stout.Porto
