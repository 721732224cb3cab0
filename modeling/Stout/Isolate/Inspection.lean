import Stout.Docker.Workers
import Stout.Porto.Workers
import Stout.Process.Workers

/-! # Inspecting a worker

`Inspect` of the three boxes, which a client calls with the identifier that it gave to
`Spawn`. The Docker box and the porto box carry the identifier into their tables, the
process box does not.
-/
namespace Stout.Inspection
open Mtn (Db lanCfg lanDb silent)

/-- A box in some state; the porto box with its configuration and the database it began
with. -/
inductive Box where
  | docker (s : Docker.Workers.State)
  | porto (b : Porto.BoxConfig) (db : Db) (s : Porto.Workers.State)
  | process (s : Process.Workers.State)

def Box.Reached : Box → Prop
  | .docker s => ∃ ls, Runs Docker.Workers.step Docker.Workers.initial ls s
  | .porto b db s => ∃ ls, Runs (Porto.Workers.step b) (Porto.Workers.initial db) ls s
  | .process s => ∃ ls, Runs Process.Workers.step Process.Workers.initial ls s

def Box.Distinct : Box → Prop
  | .docker s => Docker.Workers.Distinct s
  | .porto _ _ s => Porto.Workers.Distinct s
  | .process s => Process.Workers.Distinct s

def Box.Finds : Box → Prop
  | .docker s => Docker.Workers.Finds s
  | .porto _ _ s => Porto.Workers.Finds s
  | .process s => Process.Workers.Finds s

def Box.Childless : Box → Prop
  | .docker _ | .porto _ _ _ => True
  | .process s => s.box.children = ∅

/-- Along runs whose calls of `Spawn` have different identifiers, the Docker box and the porto
box always find their workers, and the process box only while its table is empty. -/
theorem inspect_finds_iff (b : Box) (h : b.Reached) (hd : b.Distinct) : b.Finds ↔ b.Childless := by
  cases b with
  | docker s =>
    obtain ⟨ls,hr⟩ := h
    exact iff_of_true (Docker.Workers.finds_of_runs hr hd) trivial
  | porto b db s =>
    obtain ⟨ls,hr⟩ := h
    exact iff_of_true (Porto.Workers.finds_of_runs hr hd) trivial
  | process s =>
    obtain ⟨ls,hr⟩ := h
    exact Process.Workers.finds_iff_of_runs hr hd

def lanBox : Porto.BoxConfig :=
  ⟨"box","","/cont",true,false,"overlay","cocaine-app","","",lanCfg,fun _ => "layer"⟩

def lanRequest (uuid : String) : Porto.SpawnConfig :=
  ⟨.ok ⟨"registry","inherited",((∅ : Porto.Map).insert "mtn" "enable").insert "netid" "lan","",[],∅,∅,[]⟩,"app","/app/run",
    (∅ : Porto.Map).insert "--uuid" uuid,∅⟩

/-- A worker of the Docker box is found, and so is one of the porto box. -/
theorem inspect_finds_iff_live :
    (∃ s, (Box.docker s).Reached ∧ s.calls = [⟨"w1",⟨"c1","w1"⟩,.spawned⟩] ∧
      ∀ containerInspect order,
        Docker.Workers.inspect containerInspect order s.world.containers "w1" = containerInspect "c1") ∧
    ∃ s, (Box.porto lanBox lanDb s).Reached ∧ s.spawned = [0] ∧
      ∀ order, (Registry.entries order s.uuid s.box.containers).find? (fun e => e.2 = "w1") = some ("app_w1","w1") := by
  constructor
  · let config : Docker.SpawnConfig := ⟨.ok,"app","/app/run",(∅ : Porto.Map).insert "--uuid" "w1",∅⟩
    let o : Docker.Outside := ⟨none,.ok "c1",none,[],[]⟩
    let ls : List Docker.Workers.Label := [.newContainer o config,.insert 0,.start 0 o]
    have hobs : (run Docker.Workers.step Docker.Workers.initial ls).map (fun s => (s.calls,s.removed)) =
        some ([⟨"w1",⟨"c1","w1"⟩,.spawned⟩],[]) := by
      decide +kernel
    obtain ⟨s,hs,ho⟩ := Option.map_eq_some_iff.mp hobs
    obtain ⟨hcalls,hremoved⟩ := Prod.mk.inj ho
    have hr : (Box.docker s).Reached := ⟨ls,.of_run hs⟩
    have hd : (Box.docker s).Distinct := by simp [Box.Distinct, Docker.Workers.Distinct, hcalls]
    have hf : Docker.Workers.Finds s := (inspect_finds_iff (.docker s) hr hd).mpr trivial
    have hlive := hf.live ⟨"w1",⟨"c1","w1"⟩,.spawned⟩ (by simp [hcalls]) rfl (by simp [hremoved])
    exact ⟨s,hr,hcalls,hlive.2⟩
  · let ls : List Porto.Workers.Label :=
      [.newContainer ⟨fun _ => none,[],[],[]⟩ (lanRequest "w1") silent,.box (.insert 0),.box (.start 0 true)]
    have hobs : (run (Porto.Workers.step lanBox) (Porto.Workers.initial lanDb) ls).map
        (fun s => (s.workers.map fun x => (x.uuid,x.container.containerID,x.container.mtnAllocationId),s.spawned,s.removed)) =
          some ([("w1","app_w1","a1")],[0],[]) := by
      decide +kernel
    obtain ⟨s,hs,ho⟩ := Option.map_eq_some_iff.mp hobs
    simp only [Prod.mk.injEq] at ho
    obtain ⟨hworkers,hspawned,hremoved⟩ := ho
    have hr : (Box.porto lanBox lanDb s).Reached := ⟨ls,.of_run hs⟩
    have huuids : s.workers.map (·.uuid) = ["w1"] := by
      simpa using congrArg (List.map Prod.fst) hworkers
    have hd : (Box.porto lanBox lanDb s).Distinct := by simp [Box.Distinct, Porto.Workers.Distinct, huuids]
    have hf : Porto.Workers.Finds s := (inspect_finds_iff (.porto lanBox lanDb s) hr hd).mpr trivial
    obtain ⟨x,hx,-,hfind⟩ := hf.live 0 (by simp [hspawned]) (by simp [hremoved])
    have hfirst := congrArg (fun l => l[0]?) hworkers
    simp only [List.getElem?_map, hx, Option.map_some, List.getElem?_cons_zero, Option.some.injEq, Prod.mk.injEq] at hfirst
    rw [hfirst.1, hfirst.2.1] at hfind
    exact ⟨s,hr,hspawned,hfind⟩

/-- A process is spawned as the worker `w1`, and `Inspect` of `w1` says that there is none. -/
theorem worker_not_inspected :
    ∃ s, (Box.process s).Reached ∧ (Box.process s).Distinct ∧ s.uuids = ["w1"] ∧ s.spawned = [0] ∧ s.removed = [] ∧
      s.box.children.toList = [(7,0)] ∧ (∀ order, Process.Workers.inspect order s.box.children "w1" = "\x7b\x7d") ∧
      ¬(Box.process s).Finds := by
  have hobs : (run Process.Workers.step Process.Workers.initial ((Process.launch 7 0).map (⟨"w1",·⟩))).map
      (fun s => (s.uuids,s.spawned,s.removed,s.box.children.toList)) = some (["w1"],[0],[],[(7,0)]) := by
    decide +kernel
  obtain ⟨s,hs,ho⟩ := Option.map_eq_some_iff.mp hobs
  simp only [Prod.mk.injEq] at ho
  obtain ⟨huuids,hspawned,hremoved,hchildren⟩ := ho
  have hr := Runs.of_run hs
  have hd : Process.Workers.Distinct s := by simp [Process.Workers.Distinct, huuids]
  refine ⟨s,⟨_,hr⟩,hd,huuids,hspawned,hremoved,hchildren,fun order => Process.Workers.inspect_of_ne (by decide) order _,fun hf => ?_⟩
  have hempty := (Process.Workers.finds_iff_of_runs hr hd).mp hf
  rw [hempty] at hchildren
  cases hchildren

end Stout.Inspection
