import Stout.Process.Box

/-! # Kill and the numbers of workers

`process.Kill` sends SIGKILL to the group with the number of its worker, whoever has the
number by then. The dispatcher keeps the handle after the worker has been reaped, and the
system may have given the number to a later worker.
-/
namespace Stout.Process
open ChildTable

/-- Each call of `Kill` has hit the worker of its handle at most. -/
def OnlyOwn (s : State) : Prop := ∀ k ∈ s.kills, ∀ v ∈ k.victims, v = k.handle

/-- The number of the worker was given to a later worker whose group is still there. -/
def reused (procs : List Child) (cmd : ℕ) : Bool :=
  (procs[cmd]?).any fun p => (procs.drop (cmd + 1)).any fun q => q.pid == p.pid && q.group && q.info.isWorker

/-- `Kill` is not called on a handle whose number has been reused. -/
def NotReused (s : State) : Label → Prop
  | .kill cmd => reused s.procs cmd = false
  | _ => True

theorem mem_victims {procs : List Child} {pid j : ℕ} : j ∈ victims procs pid ↔
    ∃ q, procs[j]? = some q ∧ q.pid = pid ∧ q.group = true ∧ q.info.isWorker = true := by
  unfold victims
  rw [List.mem_filter, List.mem_range]
  constructor
  · rintro ⟨hj,hany⟩
    rw [List.getElem?_eq_getElem hj] at hany ⊢
    simpa [and_assoc] using hany
  · rintro ⟨q,hq,hpid,hg,hw⟩
    refine ⟨(List.getElem?_eq_some_iff.mp hq).1,?_⟩
    simp [hq, hpid, hg, hw]

theorem reused_eq_true {procs : List Child} {cmd : ℕ} {p : Child} (hp : procs[cmd]? = some p) :
    reused procs cmd = true ↔ ∃ j, cmd < j ∧ j ∈ victims procs p.pid := by
  unfold reused
  rw [hp, Option.any_some, List.any_eq_true]
  constructor
  · rintro ⟨q,hq,hc⟩
    obtain ⟨k,hk⟩ := List.getElem?_of_mem hq
    rw [List.getElem?_drop] at hk
    refine ⟨_,by omega,mem_victims.mpr ⟨q,hk,?_⟩⟩
    simpa [and_assoc] using hc
  · rintro ⟨j,hj,hv⟩
    obtain ⟨q,hq,hc⟩ := mem_victims.mp hv
    obtain ⟨k,rfl⟩ := Nat.exists_eq_add_of_lt hj
    refine ⟨q,List.mem_of_getElem? (i := k) ?_,by simpa [and_assoc] using hc⟩
    rw [List.getElem?_drop, ← hq]
    congr 1
    omega

/-- No earlier worker is hit: its group was gone when the number was given away. -/
theorem victims_own_iff {procs : List Child} {cmd : ℕ} {p : Child} (hn : Numbered procs) (hp : procs[cmd]? = some p) :
    (∀ v ∈ victims procs p.pid, v = cmd) ↔ reused procs cmd = false := by
  rw [← Bool.not_eq_true, reused_eq_true hp]
  constructor
  · rintro hown ⟨j,hj,hv⟩
    have := hown j hv
    omega
  · intro hno v hv
    obtain ⟨q,hq,hpid,hg,-⟩ := mem_victims.mp hv
    rcases Nat.lt_trichotomy v cmd with hlt | heq | hgt
    · rw [hn.earlier v cmd q p hlt hq hp hpid] at hg
      cases hg
    · exact heq
    · exact absurd ⟨v,hgt,hv⟩ hno

theorem step_kills {s t : State} {l : Label} (h : step s l = some t) :
    t.kills = s.kills ∧ (∀ cmd, l ≠ .kill cmd) ∨
      ∃ cmd p, l = .kill cmd ∧ s.procs[cmd]? = some p ∧ t.kills = s.kills ++ [⟨cmd,victims s.procs p.pid⟩] := by
  cases step_cases h with
  | spawn pid e t hst =>
    refine Or.inl ⟨?_,nofun⟩
    cases hst <;> rfl
  | handler op t hst =>
    refine Or.inl ⟨?_,nofun⟩
    cases hst <;> rfl
  | kill cmd p hp => exact Or.inr ⟨cmd,p,rfl,hp,rfl⟩
  | _ => exact Or.inl ⟨rfl,nofun⟩

theorem step_onlyOwn (s : State) (l : Label) (t : State) (hn : Numbered s.procs) (h : step s l = some t) :
    OnlyOwn t ↔ OnlyOwn s ∧ NotReused s l := by
  rcases step_kills h with ⟨hk,hne⟩ | ⟨cmd,p,rfl,hp,hk⟩
  · have hg : NotReused s l := by
      cases l with
      | kill cmd => exact absurd rfl (hne cmd)
      | _ => trivial
    rw [OnlyOwn, hk]
    exact ⟨fun ho => ⟨ho,hg⟩,fun ho => ho.1⟩
  · change _ ↔ _ ∧ reused s.procs cmd = false
    rw [← victims_own_iff hn hp, OnlyOwn, hk]
    simp [OnlyOwn, or_imp, forall_and]

/-- In every run, `Kill` has hit its own worker only exactly if it was never called on a
handle whose number a later worker had. -/
theorem onlyOwn_iff_notReused (as : List Label) (t : State) (h : Runs step initial as t) :
    OnlyOwn t ↔ Meets step NotReused initial as := by
  have hiff := h.iff_meets step_numbered step_onlyOwn .nil
  rw [hiff]
  exact ⟨fun hm => hm.2,fun hm => ⟨nofun,hm⟩⟩

/-- A worker is killed twice while the system uses other numbers for other workers. -/
theorem onlyOwn_iff_notReused_twice :
    let as := launch 7 0 ++ launch 8 1 ++ [.kill 0,.kill 0]
    ∃ t, run step initial as = some t ∧ (OnlyOwn t ↔ Meets step NotReused initial as) := by
  intro as
  exact ⟨_,rfl,onlyOwn_iff_notReused as _ (.of_run rfl)⟩

/-- A worker exits and is reaped, its number goes to the next one, and the kill of the
first hits the second. -/
theorem kill_hits_later : ∃ t, run step initial (([.handler .notify] : List Label) ++ launch 7 0 ++
    ([.exit 0 0,.deliver] : List Label) ++ reapOne 0 ++ ([.disband 0] : List Label) ++ launch 7 1 ++ ([.kill 0] : List Label)) = some t ∧ t.kills = [⟨0,[1]⟩] ∧ ¬OnlyOwn t := by
  refine ⟨_,rfl,rfl,?_⟩
  intro h
  exact absurd (h ⟨0,[1]⟩ (by decide) 1 (by decide)) (by decide)

end Stout.Process
