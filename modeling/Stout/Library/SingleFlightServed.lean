import Stout.Library.Threads
import Stout.Library.SingleFlight

/-! # Callers are served

The invariant of the jobs and their callers: a key is in the table while its one job runs,
and a caller that is registered is either on the list of those to be sent to or has been
sent the result of a job for its key. No send blocks, since nothing was sent before to a
caller on the list.
-/
namespace Stout.SingleFlight
open Threads
variable {κ σ β ε ρ : Type*}

def JobPc.running : JobPc β ρ → Bool
  | .done _ => false
  | _ => true

def JobPc.result : JobPc β ρ → Option ρ
  | .working _ => none
  | .locking r | .notifying r | .done r => some r

def Caller.Placed (c : Caller κ ρ) : Prop :=
  match c.pc with
  | .looking | .registering => c.since = none
  | .waiting => c.since ≠ none ∧ c.received = 0
  | .returned none => c.since ≠ none
  | .returned (some r) => c.since = none ∨ ∃ j, c.sends = [(j,r)]

/-- The caller has had the one result of a job for its key that had not finished when
`n` jobs had. -/
def Answered (jobs : List (Job κ β ρ)) (finished : List ℕ) (c : Caller κ ρ) (n : ℕ) : Prop :=
  ∃ j r, c.sends = [(j,r)] ∧ (∃ job, jobs[j]? = some job ∧ job.key = c.key ∧ job.pc.result = some r) ∧
    j ∉ finished.take n

/-- Jobs move on: they keep their keys and their results. -/
def JobsGrow (jobs jobs' : List (Job κ β ρ)) : Prop :=
  ∀ (j : ℕ) (job : Job κ β ρ), jobs[j]? = some job → ∃ job', jobs'[j]? = some job' ∧ job'.key = job.key ∧
    ∀ r, job.pc.result = some r → job'.pc.result = some r

section Jobs
variable {jobs jobs' : List (Job κ β ρ)} {finished l : List ℕ} {c : Caller κ ρ} {n j : ℕ} {k : κ} {pc pc' : JobPc β ρ}

theorem JobsGrow.set (hj : jobs[j]? = some ⟨k,pc⟩) (hr : ∀ r, pc.result = some r → pc'.result = some r) :
    JobsGrow jobs (jobs.set j ⟨k,pc'⟩) := by
  intro m job hm
  by_cases he : j = m
  · subst he
    cases hj.symm.trans hm
    exact ⟨_,List.getElem?_set_self (List.getElem?_eq_some_iff.mp hj).1,rfl,hr⟩
  · exact ⟨job,by rw [List.getElem?_set_ne he, hm],rfl,fun _ => id⟩

theorem Answered.mono (hj : JobsGrow jobs jobs') (hn : n ≤ finished.length) (h : Answered jobs finished c n) :
    Answered jobs' (finished ++ l) c n := by
  obtain ⟨j,r,hl,⟨job,hjob,hk,hr⟩,hnot⟩ := h
  obtain ⟨job',hjob',hk',hr'⟩ := hj j job hjob
  refine ⟨j,r,hl,⟨job',hjob',by rw [hk', hk],hr' r hr⟩,?_⟩
  rwa [List.take_append_of_le_length hn]

theorem finished_set (hf : ∀ m ∈ finished, ∃ k r, jobs[m]? = some ⟨k,.done r⟩) (hj : jobs[j]? = some ⟨k,pc⟩)
    (hr : pc.running = true) : ∀ m ∈ finished, ∃ k' r, (jobs.set j ⟨k,pc'⟩)[m]? = some ⟨k',.done r⟩ := by
  intro m hm
  obtain ⟨k',r,hd⟩ := hf m hm
  have he : j ≠ m := by
    rintro rfl
    cases hj.symm.trans hd
    cases hr
  exact ⟨k',r,by rw [List.getElem?_set_ne he, hd]⟩

theorem JobsGrow.refl (jobs : List (Job κ β ρ)) : JobsGrow jobs jobs :=
  fun _ job hm => ⟨job,hm,rfl,fun _ => id⟩

theorem JobsGrow.append (jobs l : List (Job κ β ρ)) : JobsGrow jobs (jobs ++ l) := by
  intro m job hm
  exact ⟨job,by rw [List.getElem?_append_left (List.getElem?_eq_some_iff.mp hm).1, hm],rfl,fun _ => id⟩

theorem Caller.Placed.of_early (h : c.Placed) (hp : c.pc = .looking ∨ c.pc = .registering) : c.since = none := by
  unfold Caller.Placed at h
  rcases hp with hp | hp
  · rwa [hp] at h
  · rwa [hp] at h

theorem Caller.Placed.of_waiting (h : c.Placed) (hp : c.pc = .waiting) : c.since ≠ none ∧ c.received = 0 := by
  rwa [Caller.Placed, hp] at h

theorem Caller.Placed.send {x : ℕ × ρ} (h : c.Placed) (hn : c.since ≠ none) (hl : c.sends = []) :
    Caller.Placed { c with sends := c.sends ++ [x] } := by
  obtain ⟨k,pc,since,sends,received⟩ := c
  cases hl
  cases pc with
  | looking => exact absurd h hn
  | registering => exact absurd h hn
  | waiting => exact h
  | returned r =>
    cases r with
    | none => exact h
    | some r =>
      rcases h with h | ⟨j,h⟩
      · exact absurd h hn
      · cases h

end Jobs

/-- A caller: it is registered and waits to be sent to, or it has its answer. -/
structure CallerInv (toSend : κ → List ℕ) (jobs : List (Job κ β ρ)) (finished : List ℕ) (i : ℕ) (c : Caller κ ρ) :
    Prop where
  placed : c.Placed
  early : c.since = none → c.sends = []
  received : c.received ≤ c.sends.length
  registered : ∀ n, c.since = some n → n ≤ finished.length ∧
    ((c.sends = [] ∧ i ∈ toSend c.key) ∨ Answered jobs finished c n)

theorem CallerInv.mono {toSend toSend' : κ → List ℕ} {jobs jobs' : List (Job κ β ρ)} {finished : List ℕ}
    {i : ℕ} {c : Caller κ ρ} (h : CallerInv toSend jobs finished i c) (hsend : i ∈ toSend c.key → c.sends = [] → i ∈ toSend' c.key)
    (hj : JobsGrow jobs jobs') (l : List ℕ) : CallerInv toSend' jobs' (finished ++ l) i c := by
  refine ⟨h.placed,h.early,h.received,?_⟩
  intro n hn
  obtain ⟨hle,hor⟩ := h.registered n hn
  exact ⟨by rw [List.length_append]; omega,hor.imp (fun hx => ⟨hx.1,hsend hx.2 hx.1⟩) fun ha => ha.mono hj hle⟩

section Inv
variable [DecidableEq κ]

def Job.runsFor (k : κ) (job : Job κ β ρ) : Bool := job.key = k && job.pc.running

/-- The callers registered for a key to which nothing has been sent. -/
def State.toSend (s : State κ σ β ρ) (k : κ) : List ℕ :=
  match s.mu with
  | some n => if n.key = k then n.left else (s.table k).getD []
  | none => (s.table k).getD []

structure Inv (s : State κ σ β ρ) : Prop where
  one : ∀ k, s.jobs.countP (Job.runsFor k) = (s.table k).isSome.toNat
  holder : ∀ n, s.mu = some n → s.jobs[n.job]? = some ⟨n.key,.notifying n.result⟩
  notifying : ∀ (j : ℕ) (k : κ) (r : ρ), s.jobs[j]? = some ⟨k,.notifying r⟩ → ∃ n, s.mu = some n ∧ n.job = j
  listed : ∀ k, ∀ i ∈ s.toSend k, ∃ c, s.callers[i]? = some c ∧ c.key = k ∧ c.since ≠ none ∧ c.sends = []
  nodup : ∀ k, (s.toSend k).Nodup
  caller : ∀ (i : ℕ) (c : Caller κ ρ), s.callers[i]? = some c → CallerInv s.toSend s.jobs s.finished i c
  finished : ∀ j ∈ s.finished, ∃ k r, s.jobs[j]? = some ⟨k,.done r⟩

variable {w : Work κ σ β ε ρ} {s t : State κ σ β ρ} {i j : ℕ} {c c' : Caller κ ρ} {k : κ} {r : ρ}

theorem inv_initial (store : σ) : Inv (initial store : State κ σ β ρ) := by
  constructor <;> simp [initial, State.toSend]

theorem Inv.setCaller (hs : Inv s) (hc : s.callers[i]? = some c) (hk : c'.key = c.key) (hn : c'.since = c.since)
    (hl : c'.sends = c.sends) (hp : c'.Placed) (hr : c'.received ≤ c'.sends.length) :
    Inv { s with callers := s.callers.set i c' } := by
  have hlen := (List.getElem?_eq_some_iff.mp hc).1
  refine ⟨hs.one,hs.holder,hs.notifying,?_,hs.nodup,?_,hs.finished⟩
  · intro k m hm
    obtain ⟨d,hd,hdk,hdn,hdl⟩ := hs.listed k m hm
    by_cases he : i = m
    · subst he
      cases hc.symm.trans hd
      exact ⟨c',List.getElem?_set_self hlen,by rw [hk, hdk],by rw [hn]; exact hdn,by rw [hl, hdl]⟩
    · exact ⟨d,by rw [List.getElem?_set_ne he, hd],hdk,hdn,hdl⟩
  · intro m d hd
    rcases of_getElem?_set hd with ⟨rfl,rfl⟩ | ⟨-,hd⟩
    · obtain ⟨-,hearly,-,hreg⟩ := hs.caller i c hc
      refine ⟨hp,by rw [hn, hl]; exact hearly,hr,?_⟩
      unfold Answered
      rw [hn, hl, hk]
      exact hreg
    · exact hs.caller m d hd

theorem Inv.call (hs : Inv s) (k : κ) : Inv { s with callers := s.callers ++ [⟨k,.looking,none,[],0⟩] } := by
  refine ⟨hs.one,hs.holder,hs.notifying,?_,hs.nodup,?_,hs.finished⟩
  · intro k i hi
    obtain ⟨c,hc,hrest⟩ := hs.listed k i hi
    exact ⟨c,by rw [List.getElem?_append_left (List.getElem?_eq_some_iff.mp hc).1, hc],hrest⟩
  · intro i c hc
    rw [List.getElem?_append] at hc
    split at hc
    · exact hs.caller i c hc
    · cases List.mem_singleton.mp (List.mem_of_getElem? hc)
      exact ⟨rfl,fun _ => rfl,Nat.zero_le _,nofun⟩

/-- What the callers see of the rest of the state only grows. -/
structure Grows (s t : State κ σ β ρ) : Prop where
  callers : t.callers = s.callers
  toSend : ∀ k, t.toSend k = s.toSend k
  jobs : JobsGrow s.jobs t.jobs
  finished : ∃ l, t.finished = s.finished ++ l

theorem Grows.kept (hg : Grows s t) (hs : Inv s) :
    (∀ k, ∀ i ∈ t.toSend k, ∃ c, t.callers[i]? = some c ∧ c.key = k ∧ c.since ≠ none ∧ c.sends = []) ∧
    (∀ k, (t.toSend k).Nodup) ∧
    ∀ (i : ℕ) (c : Caller κ ρ), t.callers[i]? = some c → CallerInv t.toSend t.jobs t.finished i c := by
  have hsend : t.toSend = s.toSend := funext hg.toSend
  obtain ⟨l,hl⟩ := hg.finished
  rw [hsend, hg.callers, hl]
  exact ⟨hs.listed,hs.nodup,fun i c hc => (hs.caller i c hc).mono (fun hx _ => hx) hg.jobs l⟩

theorem countP_set_running {jobs : List (Job κ β ρ)} {pc : JobPc β ρ} (hj : jobs[j]? = some ⟨k,pc⟩) (pc' : JobPc β ρ)
    (hr : pc'.running = pc.running) (m : κ) : (jobs.set j ⟨k,pc'⟩).countP (Job.runsFor m) = jobs.countP (Job.runsFor m) := by
  have hc := countP_set_add hj ⟨k,pc'⟩ (Job.runsFor m)
  simp only [Job.runsFor, hr] at hc
  exact Nat.add_right_cancel hc

theorem Inv.work (hs : Inv s) {b : β} (hj : s.jobs[j]? = some ⟨k,.working b⟩) (store : σ) (x : β ⊕ ρ) :
    Inv { s with store := store, jobs := s.jobs.set j ⟨k,x.elim .working .locking⟩ } := by
  have hlen := (List.getElem?_eq_some_iff.mp hj).1
  have hg : Grows s { s with store := store, jobs := s.jobs.set j ⟨k,x.elim .working .locking⟩ } :=
    ⟨rfl,fun _ => rfl,.set hj nofun,[],by simp⟩
  obtain ⟨hlisted,hnodup,hcaller⟩ := hg.kept hs
  refine ⟨?_,?_,?_,hlisted,hnodup,hcaller,finished_set hs.finished hj rfl⟩
  · intro m
    exact (countP_set_running hj _ (by cases x <;> rfl) m).trans (hs.one m)
  · intro n hn
    have hh := hs.holder n hn
    have he : j ≠ n.job := by
      rintro rfl
      cases hj.symm.trans hh
    dsimp only
    rw [List.getElem?_set_ne he, hh]
  · intro m k' r hm
    rcases of_getElem?_set hm with ⟨-,he⟩ | ⟨-,hm⟩
    · cases x <;> cases he
    · exact hs.notifying m k' r hm

theorem Inv.lock (hs : Inv s) (hm : s.mu = none) (hj : s.jobs[j]? = some ⟨k,.locking r⟩) :
    Inv { s with mu := some ⟨j,k,r,(s.table k).getD []⟩, jobs := s.jobs.set j ⟨k,.notifying r⟩ } := by
  have hlen := (List.getElem?_eq_some_iff.mp hj).1
  have hg : Grows s { s with mu := some ⟨j,k,r,(s.table k).getD []⟩, jobs := s.jobs.set j ⟨k,.notifying r⟩ } := by
    refine ⟨rfl,?_,.set hj (fun _ => id),[],by simp⟩
    intro m
    simp only [State.toSend, hm]
    split
    case isTrue he => rw [he]
    case isFalse => rfl
  obtain ⟨hlisted,hnodup,hcaller⟩ := hg.kept hs
  refine ⟨?_,?_,?_,hlisted,hnodup,hcaller,finished_set hs.finished hj rfl⟩
  · intro m
    exact (countP_set_running hj (.notifying r) rfl m).trans (hs.one m)
  · rintro n ⟨⟩
    exact List.getElem?_set_self hlen
  · intro m k' r' hm'
    rcases of_getElem?_set hm' with ⟨he,-⟩ | ⟨-,hm'⟩
    · exact ⟨_,rfl,he⟩
    · obtain ⟨n,hn,-⟩ := hs.notifying m k' r' hm'
      cases hm.symm.trans hn

theorem Inv.finish (hs : Inv s) (hm : s.mu = some ⟨j,k,r,[]⟩) : Inv { s with
    mu := none
    table := Function.update s.table k none
    jobs := s.jobs.set j ⟨k,.done r⟩
    finished := s.finished ++ [j] } := by
  have hj := hs.holder _ hm
  have hlen := (List.getElem?_eq_some_iff.mp hj).1
  have hg : Grows s { s with
      mu := none
      table := Function.update s.table k none
      jobs := s.jobs.set j ⟨k,.done r⟩
      finished := s.finished ++ [j] } := by
    refine ⟨rfl,?_,.set hj (fun _ => id),[j],rfl⟩
    intro m
    simp only [State.toSend, hm]
    by_cases he : k = m
    · subst he
      simp
    · rw [Function.update_of_ne (Ne.symm he), if_neg he]
  obtain ⟨hlisted,hnodup,hcaller⟩ := hg.kept hs
  refine ⟨?_,nofun,?_,hlisted,hnodup,hcaller,?_⟩
  · intro m
    have hc := countP_set_add hj ⟨k,.done r⟩ (Job.runsFor m)
    have hone := hs.one m
    by_cases he : k = m
    · subst he
      have hle := Bool.toNat_le (s.table k).isSome
      simp only [Job.runsFor, JobPc.running, decide_true, Bool.and_true, Bool.and_false, Bool.toNat_true,
        Bool.toNat_false, Function.update_self, Option.isSome_none] at hc ⊢
      omega
    · simp only [Job.runsFor, he, decide_false, Bool.false_and, Bool.toNat_false, Nat.add_zero] at hc
      dsimp only
      rw [Function.update_of_ne (Ne.symm he), ← hone]
      exact hc
  · intro m k' r' hm'
    rcases of_getElem?_set hm' with ⟨-,hd⟩ | ⟨he,hm'⟩
    · cases hd
    · obtain ⟨n,hn,hnj⟩ := hs.notifying m k' r' hm'
      cases hm.symm.trans hn
      exact absurd hnj he
  · intro m hmem
    rcases List.mem_append.mp hmem with hmem | hmem
    · exact finished_set hs.finished hj rfl m hmem
    · rw [List.mem_singleton.mp hmem]
      exact ⟨k,r,List.getElem?_set_self hlen⟩

section Send
variable {left : List ℕ}

def State.sent (s : State κ σ β ρ) (j : ℕ) (k : κ) (r : ρ) (left : List ℕ) (i : ℕ) (c : Caller κ ρ) : State κ σ β ρ :=
  { s with mu := some ⟨j,k,r,left⟩, callers := s.callers.set i { c with sends := c.sends ++ [(j,r)] } }

theorem toSend_sent (hm : s.mu = some ⟨j,k,r,i :: left⟩) (m : κ) :
    (s.sent j k r left i c).toSend m = if k = m then left else s.toSend m := by
  by_cases he : k = m <;> simp [State.sent, State.toSend, hm, he]

theorem Inv.mem_toSend_sent (hs : Inv s) (hm : s.mu = some ⟨j,k,r,i :: left⟩) (hc : s.callers[i]? = some c) (m : κ) (x : ℕ) :
    x ∈ (s.sent j k r left i c).toSend m ↔ x ∈ s.toSend m ∧ x ≠ i := by
  have hleft : s.toSend k = i :: left := by simp [State.toSend, hm]
  have hnd := hs.nodup k
  rw [hleft, List.nodup_cons] at hnd
  obtain ⟨d,hd,hkey,-⟩ := hs.listed k i (by rw [hleft]; exact List.mem_cons_self)
  cases hc.symm.trans hd
  rw [toSend_sent hm]
  split
  case isTrue he =>
    subst he
    rw [hleft, List.mem_cons]
    constructor
    · intro hx
      exact ⟨Or.inr hx,fun he => hnd.1 (he ▸ hx)⟩
    · rintro ⟨hx | hx,hne⟩
      · exact absurd hx hne
      · exact hx
  case isFalse he =>
    refine ⟨fun hx => ⟨hx,?_⟩,fun hx => hx.1⟩
    rintro rfl
    obtain ⟨d,hd,hdk,-⟩ := hs.listed m x hx
    cases hc.symm.trans hd
    exact he (hkey.symm.trans hdk)

theorem Inv.send (hs : Inv s) (hm : s.mu = some ⟨j,k,r,i :: left⟩) (hc : s.callers[i]? = some c) :
    Inv (s.sent j k r left i c) := by
  have hj := hs.holder _ hm
  have hci := hs.caller i c hc
  obtain ⟨d,hd,hkey,hsince,hnil⟩ := hs.listed k i (by simp [State.toSend, hm])
  cases hc.symm.trans hd
  refine ⟨hs.one,?_,?_,?_,?_,?_,hs.finished⟩
  · rintro n ⟨⟩
    exact hj
  · intro m k' r' hm'
    obtain ⟨n,hn,hnj⟩ := hs.notifying m k' r' hm'
    cases hm.symm.trans hn
    exact ⟨_,rfl,hnj⟩
  · intro m x hx
    obtain ⟨hx,hne⟩ := (hs.mem_toSend_sent hm hc m x).mp hx
    obtain ⟨d,hd,hrest⟩ := hs.listed m x hx
    exact ⟨d,(List.getElem?_set_ne (Ne.symm hne)).trans hd,hrest⟩
  · intro m
    have hnd := hs.nodup m
    rw [toSend_sent hm]
    split
    case isTrue he =>
      rw [State.toSend, hm] at hnd
      simp only [he, if_true, List.nodup_cons] at hnd
      exact hnd.2
    case isFalse => exact hnd
  · intro x d hd
    rcases of_getElem?_set hd with ⟨rfl,rfl⟩ | ⟨he,hd⟩
    · refine ⟨hci.placed.send hsince hnil,fun h => absurd h hsince,hci.received.trans (by simp),?_⟩
      intro n hn
      refine ⟨(hci.registered n hn).1,Or.inr ⟨j,r,by rw [hnil]; rfl,⟨_,hj,hkey.symm,rfl⟩,?_⟩⟩
      -- The job that sends has not finished.
      intro hfin
      obtain ⟨k',r',hdone⟩ := hs.finished j (List.mem_of_mem_take hfin)
      cases hj.symm.trans hdone
    · rw [← List.append_nil (s.sent j k r left i c).finished]
      exact (hs.caller x d hd).mono (fun hx _ => (hs.mem_toSend_sent hm hc d.key x).mpr ⟨hx,Ne.symm he⟩) (.refl s.jobs) []

end Send

section Register

theorem countP_register {jobs : List (Job κ β ρ)} {o : Option (List ℕ)} {b : β} (k m : κ)
    (h : jobs.countP (Job.runsFor k) = o.isSome.toNat) :
    (if o.isSome then jobs else jobs ++ [⟨k,.working b⟩]).countP (Job.runsFor m) =
      if k = m then 1 else jobs.countP (Job.runsFor m) := by
  cases o with
  | none =>
    rw [if_neg nofun, List.countP_append]
    by_cases he : k = m
    · subst he
      simp [h, Job.runsFor, JobPc.running]
    · simp [he, Job.runsFor]
  | some l =>
    rw [if_pos Option.isSome_some]
    split
    case isTrue he => rw [← he, h]; rfl
    case isFalse => rfl

/-- The state after a registration: the caller is on the list of its key, and a job for the
key is started if none ran. -/
def State.registered (w : Work κ σ β ε ρ) (s : State κ σ β ρ) (i : ℕ) (c : Caller κ ρ) : State κ σ β ρ := { s with
  callers := s.callers.set i { c with pc := .waiting, since := some s.finished.length }
  table := Function.update s.table c.key (some ((s.table c.key).getD [] ++ [i]))
  jobs := if (s.table c.key).isSome then s.jobs else s.jobs ++ [⟨c.key,.working w.start⟩] }

theorem toSend_registered (hm : s.mu = none) (m : κ) :
    (s.registered w i c).toSend m = if c.key = m then s.toSend m ++ [i] else s.toSend m := by
  by_cases he : c.key = m
  · subst he
    simp [State.registered, State.toSend, hm]
  · simp [State.registered, State.toSend, hm, he, Function.update_of_ne (Ne.symm he)]

theorem subset_toSend_registered (hm : s.mu = none) (m : κ) : s.toSend m ⊆ (s.registered w i c).toSend m := by
  rw [toSend_registered hm]
  split
  case isTrue => exact List.subset_append_left _ _
  case isFalse => exact List.Subset.refl _

theorem jobs_registered (w : Work κ σ β ε ρ) (s : State κ σ β ρ) (i : ℕ) (c : Caller κ ρ) :
    ∃ l, (s.registered w i c).jobs = s.jobs ++ l ∧ ∀ job ∈ l, job.pc = .working w.start := by
  unfold State.registered
  dsimp only
  split
  case isTrue => exact ⟨[],by simp,nofun⟩
  case isFalse => exact ⟨_,rfl,by simp⟩

theorem Inv.unregistered (hs : Inv s) (hc : s.callers[i]? = some c) (hp : c.pc = .registering) :
    c.sends = [] ∧ ∀ m, i ∉ s.toSend m := by
  have hci := hs.caller i c hc
  have hsince := hci.placed.of_early (Or.inr hp)
  refine ⟨hci.early hsince,?_⟩
  intro m hx
  obtain ⟨d,hd,-,hdn,-⟩ := hs.listed m i hx
  cases hc.symm.trans hd
  exact hdn hsince

theorem Inv.listed_registered (hs : Inv s) (hm : s.mu = none) (hc : s.callers[i]? = some c) (hp : c.pc = .registering)
    {m : κ} {x : ℕ} (hx : x ∈ (s.registered w i c).toSend m) :
    ∃ d, (s.registered w i c).callers[x]? = some d ∧ d.key = m ∧ d.since ≠ none ∧ d.sends = [] := by
  obtain ⟨hnil,hnew⟩ := hs.unregistered hc hp
  have hor : (c.key = m ∧ x = i) ∨ x ∈ s.toSend m := by
    rw [toSend_registered hm] at hx
    split at hx
    case isTrue he => exact (List.mem_append.mp hx).symm.imp_left fun h => ⟨he,List.mem_singleton.mp h⟩
    case isFalse => exact Or.inr hx
  rcases hor with ⟨hk,rfl⟩ | hx
  · exact ⟨_,List.getElem?_set_self (List.getElem?_eq_some_iff.mp hc).1,hk,nofun,hnil⟩
  · have he : i ≠ x := by
      rintro rfl
      exact hnew m hx
    obtain ⟨d,hd,hrest⟩ := hs.listed m x hx
    exact ⟨d,(List.getElem?_set_ne he).trans hd,hrest⟩

theorem Inv.callerInv_registered (hs : Inv s) (hm : s.mu = none) (hc : s.callers[i]? = some c) (hp : c.pc = .registering)
    {x : ℕ} {d : Caller κ ρ} (hd : (s.registered w i c).callers[x]? = some d) :
    CallerInv (s.registered w i c).toSend (s.registered w i c).jobs s.finished x d := by
  have hci := hs.caller i c hc
  obtain ⟨hnil,-⟩ := hs.unregistered hc hp
  obtain ⟨l,hl,-⟩ := jobs_registered w s i c
  rcases of_getElem?_set hd with ⟨rfl,rfl⟩ | ⟨-,hd⟩
  · have hrec := hci.received
    rw [hnil, List.length_nil, Nat.le_zero] at hrec
    refine ⟨⟨nofun,hrec⟩,nofun,hci.received,?_⟩
    rintro n ⟨⟩
    refine ⟨le_rfl,Or.inl ⟨hnil,?_⟩⟩
    rw [toSend_registered hm, if_pos rfl]
    exact List.mem_append_right _ (List.mem_singleton_self i)
  · rw [hl, ← List.append_nil s.finished]
    exact (hs.caller x d hd).mono (fun hx _ => subset_toSend_registered hm d.key hx) (.append s.jobs l) []

theorem Inv.register (hs : Inv s) (hm : s.mu = none) (hc : s.callers[i]? = some c) (hp : c.pc = .registering) :
    Inv (s.registered w i c) := by
  obtain ⟨l,hl,hstart⟩ := jobs_registered w s i c
  refine ⟨?_,?_,?_,fun _ _ => hs.listed_registered hm hc hp,?_,fun _ _ => hs.callerInv_registered hm hc hp,?_⟩
  · intro m
    refine (countP_register c.key m (hs.one c.key)).trans ?_
    by_cases he : c.key = m
    · subst he
      simp [State.registered]
    · rw [if_neg he, hs.one m]
      simp [State.registered, Function.update_of_ne (Ne.symm he)]
  · intro n hn
    cases hm.symm.trans hn
  · intro j k r hj
    rw [hl, List.getElem?_append] at hj
    split at hj
    · obtain ⟨n,hn,-⟩ := hs.notifying j k r hj
      cases hm.symm.trans hn
    · cases hstart _ (List.mem_of_getElem? hj)
  · intro m
    rw [toSend_registered hm]
    split
    case isTrue =>
      rw [List.nodup_append]
      refine ⟨hs.nodup m,List.nodup_singleton i,?_⟩
      rintro x hx y hy rfl
      rw [List.mem_singleton.mp hy] at hx
      exact (hs.unregistered hc hp).2 m hx
    case isFalse => exact hs.nodup m
  · intro j hj
    obtain ⟨k,r,hd⟩ := hs.finished j hj
    exact ⟨k,r,by rw [hl, List.getElem?_append_left (List.getElem?_eq_some_iff.mp hd).1, hd]⟩

end Register

theorem Inv.receives (hs : Inv s) (hc : s.callers[i]? = some c) (hp : c.pc = .waiting) {x : ℕ × ρ}
    (hx : c.sends[c.received]? = some x) :
    c.sends = [x] ∧ ∃ job, s.jobs[x.1]? = some job ∧ job.key = c.key ∧ job.pc.result = some x.2 := by
  have hci := hs.caller i c hc
  obtain ⟨hsince,hrec⟩ := hci.placed.of_waiting hp
  obtain ⟨n,hn⟩ := Option.ne_none_iff_exists'.mp hsince
  rcases (hci.registered n hn).2 with ⟨hnil,-⟩ | ⟨j,r,hl,hjob,-⟩
  · rw [hnil] at hx
    cases hx
  · rw [hl, hrec] at hx
    cases hx
    exact ⟨hl,hjob⟩

theorem step_inv (w : Work κ σ β ε ρ) (s : State κ σ β ρ) (l : Label κ ε) (t : State κ σ β ρ) (hs : Inv s)
    (h : step w s l = some t) : Inv t := by
  cases step_cases h with
  | call k => exact hs.call k
  | look i e c hc hp r hr =>
    have hci := hs.caller i c hc
    have hsince := hci.placed.of_early (Or.inl hp)
    refine hs.setCaller hc rfl rfl rfl ?_ hci.received
    cases r with
    | none => exact hsince
    | some x => exact Or.inl hsince
  | register i c hm hc hp => exact hs.register hm hc hp
  | cancel i c hc hp =>
    have hci := hs.caller i c hc
    exact hs.setCaller hc rfl rfl rfl (hci.placed.of_waiting hp).1 hci.received
  | receive i c hc hp x hx =>
    have hlt := (List.getElem?_eq_some_iff.mp hx).1
    exact hs.setCaller hc rfl rfl rfl (Or.inr ⟨x.1,(hs.receives hc hp hx).1⟩) hlt
  | work j e k b hj store x hx => exact hs.work hj store x
  | lock j k r hm hj => exact hs.lock hm hj
  | send j k r i left hm c hc he => exact hs.send hm hc
  | finish j k r hm => exact hs.finish hm

/-! ## Callers are served -/

/-- What is promised in a state: one job a key, in the table while it runs; a caller that is
registered has its one answer or a job for its key runs; the holder of the lock is never
blocked. -/
structure Served (w : Work κ σ β ε ρ) (s : State κ σ β ρ) : Prop where
  one : ∀ k, s.jobs.countP (Job.runsFor k) ≤ 1
  inProgress : ∀ k, (s.table k).isSome = true ↔ ∃ job ∈ s.jobs, job.key = k ∧ job.pc.running = true
  answered : ∀ c ∈ s.callers, ∀ n, c.since = some n →
    Answered s.jobs s.finished c n ∨ (c.sends = [] ∧ ∃ job ∈ s.jobs, job.key = c.key ∧ job.pc.running = true)
  returned : ∀ c ∈ s.callers, c.since ≠ none → ∀ r, c.pc = .returned (some r) → ∃ j, c.sends = [(j,r)]
  receives : ∀ i c, s.callers[i]? = some c → c.pc = .waiting → c.sends ≠ [] → (step w s (.receive i)).isSome = true
  notifies : ∀ (j : ℕ) (k : κ) (r : ρ), s.jobs[j]? = some ⟨k,.notifying r⟩ → ∃ n, s.mu = some n ∧ n.job = j
  unblocked : ∀ n, s.mu = some n → (step w s (if n.left = [] then .finish else .send)).isSome = true

theorem exists_running_iff (hs : Inv s) (k : κ) :
    (s.table k).isSome = true ↔ ∃ job ∈ s.jobs, job.key = k ∧ job.pc.running = true := by
  have hone := hs.one k
  have hpos : 0 < s.jobs.countP (Job.runsFor k) ↔ ∃ job ∈ s.jobs, job.key = k ∧ job.pc.running = true := by
    rw [List.countP_pos_iff]
    simp [Job.runsFor]
  rw [← hpos, hone]
  cases (s.table k).isSome <;> simp

theorem Inv.running (hs : Inv s) (hi : i ∈ s.toSend k) : ∃ job ∈ s.jobs, job.key = k ∧ job.pc.running = true := by
  have htable : i ∈ (s.table k).getD [] → ∃ job ∈ s.jobs, job.key = k ∧ job.pc.running = true := by
    intro hx
    refine (exists_running_iff hs k).mp ?_
    cases ht : s.table k with
    | none => rw [ht] at hx; cases hx
    | some l => rfl
  unfold State.toSend at hi
  split at hi
  case h_1 n hm =>
    split at hi
    case isTrue he => exact ⟨_,List.mem_of_getElem? (hs.holder n hm),he,rfl⟩
    case isFalse => exact htable hi
  case h_2 => exact htable hi

theorem Inv.served (hs : Inv s) (w : Work κ σ β ε ρ) : Served w s where
  one := by
    intro k
    rw [hs.one k]
    exact Bool.toNat_le _
  inProgress := exists_running_iff hs
  answered := by
    intro c hmem n hn
    obtain ⟨i,hc⟩ := List.getElem?_of_mem hmem
    rcases ((hs.caller i c hc).registered n hn).2 with ⟨hnil,hi⟩ | ha
    · exact Or.inr ⟨hnil,hs.running hi⟩
    · exact Or.inl ha
  returned := by
    intro c hmem hn r hp
    obtain ⟨i,hc⟩ := List.getElem?_of_mem hmem
    have hpl := (hs.caller i c hc).placed
    rw [Caller.Placed, hp] at hpl
    exact hpl.resolve_left hn
  receives := by
    intro i c hc hp hne
    obtain ⟨-,hrec⟩ := (hs.caller i c hc).placed.of_waiting hp
    obtain ⟨k,pc,since,sends,received⟩ := c
    cases hp
    cases hrec
    cases sends with
    | nil => exact absurd rfl hne
    | cons x l => simp [step, State.receive, hc]
  notifies := hs.notifying
  unblocked := by
    rintro ⟨j,k,r,left⟩ hm
    cases left with
    | nil => simp [step, State.finish, hm]
    | cons i left =>
      obtain ⟨c,hc,-,-,hnil⟩ := hs.listed k i (by simp [State.toSend, hm])
      have hrec := (hs.caller i c hc).received
      rw [hnil, List.length_nil, Nat.le_zero] at hrec
      simp [step, State.send, hm, hc, hnil, hrec]

theorem runs_inv {store : σ} {as : List (Label κ ε)} (h : Runs (step w) (initial store) as t) : Inv t :=
  h.invariant (step_inv w) (inv_initial store)

end Inv

end Stout.SingleFlight
