import Stout.Library.SingleFlightServed

/-! # Results of jobs

What the work of jobs establishes about the store, carried to the callers that get the
results. The rule asks each job to keep its own assertions and to leave those of jobs for
other keys alone; that no two jobs for one key run at once is already known. It need only
be kept for the keys that are asked for.
-/
namespace Stout.SingleFlight
open Threads
variable {κ σ β ε ρ : Type*} {V : κ → Prop} {G : σ → Prop} {A : κ → β → σ → Prop} {Φ : κ → ρ → σ → Prop}

/-- The work of a job for a key with `V` keeps `G`, and `A` at each of its places until it has
a result with `Φ`; it does not disturb jobs for other such keys, nor results. A look at the
store that is enough has `Φ` as well. -/
structure Sound (w : Work κ σ β ε ρ) (V : κ → Prop) (G : σ → Prop) (A : κ → β → σ → Prop) (Φ : κ → ρ → σ → Prop) :
    Prop where
  look : ∀ k st e r, V k → G st → w.look k st e = some (some r) → Φ k r st
  start : ∀ k st, V k → G st → A k w.start st
  next : ∀ k st b e st' x, V k → G st → A k b st → w.next k st b e = some (st',x) →
    G st' ∧ x.elim (fun b' => A k b' st') (fun r => Φ k r st')
  others : ∀ k st b e st' x, V k → G st → A k b st → w.next k st b e = some (st',x) →
    ∀ k' b', V k' → k ≠ k' → A k' b' st → A k' b' st'
  results : ∀ k st b e st' x, V k → G st → A k b st → w.next k st b e = some (st',x) →
    ∀ k' r, V k' → Φ k' r st → Φ k' r st'

structure Results (V : κ → Prop) (G : σ → Prop) (A : κ → β → σ → Prop) (Φ : κ → ρ → σ → Prop) (s : State κ σ β ρ) :
    Prop where
  store : G s.store
  asked : ∀ job ∈ s.jobs, V job.key
  asking : ∀ c ∈ s.callers, V c.key
  working : ∀ job ∈ s.jobs, ∀ b, job.pc = .working b → A job.key b s.store
  results : ∀ job ∈ s.jobs, ∀ r, job.pc.result = some r → Φ job.key r s.store
  callers : ∀ c ∈ s.callers, ∀ r, c.pc = .returned (some r) → Φ c.key r s.store

section Moves
variable {s : State κ σ β ρ} {j : ℕ} {k : κ}

theorem Results.setCaller (hr : Results V G A Φ s) (i : ℕ) (c : Caller κ ρ) (hV : V c.key)
    (hp : ∀ r, c.pc = .returned (some r) → Φ c.key r s.store) : Results V G A Φ { s with callers := s.callers.set i c } :=
  ⟨hr.store,hr.asked,forall_mem_set hV hr.asking,hr.working,hr.results,forall_mem_set hp hr.callers⟩

theorem Results.setJob (hr : Results V G A Φ s) {pc : JobPc β ρ} (hj : s.jobs[j]? = some ⟨k,pc⟩) (pc' : JobPc β ρ)
    (hp : ∀ b, pc' ≠ .working b) (hpr : pc'.result = pc.result) :
    Results V G A Φ { s with jobs := s.jobs.set j ⟨k,pc'⟩ } := by
  have hmem := List.mem_of_getElem? hj
  refine ⟨hr.store,forall_mem_set (hr.asked ⟨k,pc⟩ hmem) hr.asked,hr.asking,forall_mem_set ?_ hr.working,
    forall_mem_set ?_ hr.results,hr.callers⟩
  · exact fun b hb => absurd hb (hp b)
  · exact fun r hjr => hr.results _ hmem r (hpr.symm.trans hjr)

end Moves

section Runs
variable [DecidableEq κ] {w : Work κ σ β ε ρ} {s t : State κ σ β ρ} {i j : ℕ} {c : Caller κ ρ} {k : κ} {r : ρ}

theorem Inv.key_ne (hs : Inv s) {b b' : β} {k' : κ} (hj : s.jobs[j]? = some ⟨k,.working b⟩)
    (hi : s.jobs[i]? = some ⟨k',.working b'⟩) (hne : i ≠ j) : k ≠ k' := by
  rintro rfl
  have hone := hs.one k
  have hle := Bool.toNat_le (s.table k).isSome
  have hadd := countP_eraseIdx_add hj (Job.runsFor k)
  have hpos : 0 < (s.jobs.eraseIdx j).countP (Job.runsFor k) := by
    rw [List.countP_pos_iff]
    exact ⟨_,List.mem_eraseIdx_iff_getElem?.mpr ⟨i,hne,hi⟩,by simp [Job.runsFor, JobPc.running]⟩
  have hself : Job.runsFor k (⟨k,.working b⟩ : Job κ β ρ) = true := by simp [Job.runsFor, JobPc.running]
  rw [hself, Bool.toNat_true] at hadd
  omega

theorem Results.work (hw : Sound w V G A Φ) (hs : Inv s) (hr : Results V G A Φ s) {b : β} {e : ε} {store : σ} {x : β ⊕ ρ}
    (hj : s.jobs[j]? = some ⟨k,.working b⟩) (hx : w.next k s.store b e = some (store,x)) :
    Results V G A Φ { s with store := store, jobs := s.jobs.set j ⟨k,x.elim .working .locking⟩ } := by
  have hmem := List.mem_of_getElem? hj
  have hV := hr.asked _ hmem
  have hA := hr.working _ hmem b rfl
  obtain ⟨hG,hown⟩ := hw.next _ _ _ _ _ _ hV hr.store hA hx
  have hkeep := hw.results _ _ _ _ _ _ hV hr.store hA hx
  refine ⟨hG,forall_mem_set hV hr.asked,hr.asking,?_,?_,?_⟩
  · intro job hjob b' hb'
    obtain ⟨i,hi⟩ := List.getElem?_of_mem hjob
    rcases of_getElem?_set hi with ⟨-,rfl⟩ | ⟨he,hi⟩
    · cases x with
      | inl b1 => cases hb'; exact hown
      | inr r => cases hb'
    · obtain ⟨k',pc⟩ := job
      cases hb'
      have hmem' := List.mem_of_getElem? hi
      exact hw.others _ _ _ _ _ _ hV hr.store hA hx k' b' (hr.asked _ hmem') (hs.key_ne hj hi (Ne.symm he))
        (hr.working _ hmem' b' rfl)
  · intro job hjob r hjr
    rcases List.mem_or_eq_of_mem_set hjob with hjob | rfl
    · exact hkeep _ r (hr.asked job hjob) (hr.results job hjob r hjr)
    · cases x with
      | inl b1 => cases hjr
      | inr r1 => cases hjr; exact hown
  · intro c hc r hp
    exact hkeep _ r (hr.asking c hc) (hr.callers c hc r hp)

theorem Results.register (hw : Sound w V G A Φ) (hr : Results V G A Φ s) (i : ℕ) (c : Caller κ ρ) (hV : V c.key) :
    Results V G A Φ (s.registered w i c) := by
  have hset := hr.setCaller i { c with pc := .waiting, since := some s.finished.length } hV nofun
  have hmem : ∀ job ∈ (s.registered w i c).jobs, job ∈ s.jobs ∨ job = ⟨c.key,.working w.start⟩ := by
    intro job hjob
    unfold State.registered at hjob
    dsimp only at hjob
    split at hjob
    · exact Or.inl hjob
    · exact (List.mem_append.mp hjob).imp_right List.mem_singleton.mp
  refine ⟨hr.store,?_,hset.asking,?_,?_,hset.callers⟩
  · intro job hjob
    rcases hmem job hjob with hjob | rfl
    · exact hr.asked job hjob
    · exact hV
  · intro job hjob b hb
    rcases hmem job hjob with hjob | rfl
    · exact hr.working job hjob b hb
    · cases hb
      exact hw.start _ _ hV hr.store
  · intro job hjob r hres
    rcases hmem job hjob with hjob | rfl
    · exact hr.results job hjob r hres
    · cases hres

theorem step_results (hw : Sound w V G A Φ) {l : Label κ ε} (hs : Inv s) (hr : Results V G A Φ s)
    (hl : ∀ k, l = .call k → V k) (h : step w s l = some t) : Results V G A Φ t := by
  cases step_cases h with
  | call k =>
    refine ⟨hr.store,hr.asked,?_,hr.working,hr.results,?_⟩
    · intro c hmem
      rcases List.mem_append.mp hmem with hmem | hmem
      · exact hr.asking c hmem
      · rw [List.mem_singleton.mp hmem]
        exact hl k rfl
    · intro c hmem r hp
      rcases List.mem_append.mp hmem with hmem | hmem
      · exact hr.callers c hmem r hp
      · rw [List.mem_singleton.mp hmem] at hp
        cases hp
  | look i e c hc hp r hlook =>
    have hV := hr.asking c (List.mem_of_getElem? hc)
    refine hr.setCaller i _ hV ?_
    intro x hx
    cases r with
    | none => cases hx
    | some y =>
      cases hx
      exact hw.look _ _ _ _ hV hr.store hlook
  | register i c hm hc hp => exact Results.register hw hr i c (hr.asking c (List.mem_of_getElem? hc))
  | cancel i c hc hp => exact hr.setCaller i _ (hr.asking c (List.mem_of_getElem? hc)) nofun
  | receive i c hc hp x hx =>
    refine hr.setCaller i _ (hr.asking c (List.mem_of_getElem? hc)) ?_
    rintro y ⟨⟩
    obtain ⟨-,job,hjob,hk,hres⟩ := hs.receives hc hp hx
    rw [← hk]
    exact hr.results job (List.mem_of_getElem? hjob) x.2 hres
  | work j e k b hj store x hx => exact hr.work hw hs hj hx
  | lock j k r hm hj =>
    obtain ⟨h1,h2,h3,h4,h5,h6⟩ := hr.setJob hj (.notifying r) nofun rfl
    exact ⟨h1,h2,h3,h4,h5,h6⟩
  | send j k r i left hm c hc he =>
    have hmem := List.mem_of_getElem? hc
    obtain ⟨h1,h2,h3,h4,h5,h6⟩ := hr.setCaller i { c with sends := c.sends ++ [(j,r)] } (hr.asking c hmem)
      (hr.callers c hmem)
    exact ⟨h1,h2,h3,h4,h5,h6⟩
  | finish j k r hm =>
    obtain ⟨h1,h2,h3,h4,h5,h6⟩ := hr.setJob (hs.holder _ hm) (.done r) nofun rfl
    exact ⟨h1,h2,h3,h4,h5,h6⟩

/-- Every result that a caller returns is good in every state from then on. -/
theorem runs_results (hw : Sound w V G A Φ) {store : σ} (hG : G store) {as : List (Label κ ε)}
    (hV : ∀ k, .call k ∈ as → V k) (h : Runs (step w) (initial store) as t) :
    ∀ c ∈ t.callers, ∀ r, c.pc = .returned (some r) → Φ c.key r t.store := by
  have hmeets : Meets (step w) (fun _ l => ∀ k, l = .call k → V k) (initial store) as := by
    refine .of_forall (fun l hl _ k hk => hV k ?_) _
    rw [← hk]
    exact hl
  have hboth : Inv t ∧ Results V G A Φ t := by
    refine h.invariant_of_meets (I := fun s => Inv s ∧ Results V G A Φ s) ?_ hmeets
      ⟨inv_initial store,hG,nofun,nofun,nofun,nofun,nofun⟩
    rintro s l t ⟨hs,hr⟩ hl hst
    exact ⟨step_inv w s l t hs hst,step_results hw hs hr hl hst⟩
  exact hboth.2.callers

end Runs

end Stout.SingleFlight
