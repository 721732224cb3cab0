import Stout.Library.Runs

/-! # Exclusive leases

Keys are taken and given back. A key is taken only while nobody holds it; giving back
a key that nobody holds is allowed and does nothing. Between two acquisitions of one
key there is therefore a release of it, whatever happens to the other keys.
-/
namespace Stout.Lease
variable {K : Type*} {σ α : Type*}

inductive Event (K : Type*) where
  | acquire (k : K)
  | release (k : K)
  | quiet
deriving DecidableEq, Repr

inductive Step : Set K → Event K → Set K → Prop
  | acquire {held : Set K} {k : K} : k ∉ held → Step held (.acquire k) (insert k held)
  | release (held : Set K) (k : K) : Step held (.release k) (held \ {k})
  | quiet (held : Set K) : Step held .quiet held

inductive Run : Set K → List (Event K) → Set K → Prop
  | nil (held : Set K) : Run held [] held
  | cons {h₀ h₁ h₂ : Set K} {e : Event K} {es : List (Event K)} :
      Step h₀ e h₁ → Run h₁ es h₂ → Run h₀ (e :: es) h₂

theorem Step.mem_of_ne_release {h₀ h₁ : Set K} {e : Event K} {k : K} (h : Step h₀ e h₁) (hk : k ∈ h₀)
    (he : e ≠ .release k) : k ∈ h₁ := by
  cases h with
  | acquire _ => exact Set.mem_insert_of_mem _ hk
  | release j =>
    refine ⟨hk,?_⟩
    intro hj
    exact he (congrArg Event.release (Set.mem_singleton_iff.mp hj).symm)
  | quiet => exact hk

theorem Step.acquire_ne {h₀ h₁ : Set K} {k : K} (h : Step h₀ (.acquire k) h₁) : h₁ ≠ h₀ := by
  cases h with
  | acquire hk =>
    intro he
    exact hk (he ▸ Set.mem_insert k h₀)

theorem Run.release_of_mem {h₀ h₁ : Set K} {k : K} {mid post : List (Event K)} (hk : k ∈ h₀)
    (h : Run h₀ (mid ++ .acquire k :: post) h₁) : .release k ∈ mid := by
  induction mid generalizing h₀ with
  | nil =>
    cases h with
    | cons hs _ =>
      cases hs with
      | acquire hn => exact absurd hk hn
  | cons e mid ih =>
    cases h with
    | cons hs hr =>
      by_cases he : e = .release k
      · exact he ▸ List.mem_cons_self
      · exact List.mem_cons_of_mem _ (ih (hs.mem_of_ne_release hk he) hr)

/-- Two acquisitions of one key have a release of it between them. -/
theorem Run.release_between {h₀ h₁ : Set K} {k : K} {pre mid post : List (Event K)}
    (h : Run h₀ (pre ++ .acquire k :: (mid ++ .acquire k :: post)) h₁) : .release k ∈ mid := by
  induction pre generalizing h₀ with
  | nil =>
    cases h with
    | cons hs hr =>
      cases hs with
      | acquire _ => exact Run.release_of_mem (Set.mem_insert _ _) hr
  | cons e pre ih =>
    cases h with
    | cons _ hr => exact ih hr

theorem Run.of_runs {step : σ → α → Option σ} (held : σ → Set K) (ev : σ → α → Event K) {I : σ → Prop}
    {G : σ → α → Prop}
    (hstep : ∀ s a t, I s → G s a → step s a = some t → I t ∧ Step (held s) (ev s a) (held t))
    {s t : σ} {as : List α} (h : Runs step s as t) (hg : Meets step G s as) (hs : I s) :
    Run (held s) (trace step ev s as) (held t) := by
  induction h with
  | refl s => exact .nil _
  | @step s t u a as he _ ih =>
    obtain ⟨ht,hev⟩ := hstep s a t hs hg.1 he
    rw [trace, he]
    exact .cons hev (ih (hg.2 t he) ht)

/-! ## Owners -/

/-- The parties, each with the key it holds if it holds one: the keys are held, and no
two parties hold the same. -/
structure Owned (held : Set K) (owners : List (Option K)) : Prop where
  held : ∀ k, some k ∈ owners → k ∈ held
  once : (owners.filterMap id).Nodup

theorem Owned.nil (held : Set K) : Owned held [] := ⟨by simp,by simp⟩

theorem Owned.perm {held : Set K} {os os' : List (Option K)} (h : Owned held os) (hp : os.Perm os') : Owned held os' :=
  ⟨fun k hk => h.held k (hp.mem_iff.mpr hk),(hp.filterMap id).nodup_iff.mp h.once⟩

theorem Owned.idle {held : Set K} {os : List (Option K)} (h : Owned held os) : Owned held (none :: os) :=
  ⟨fun k hk => h.held k (by simpa using hk),by simpa using h.once⟩

theorem Owned.acquire {h₀ h₁ : Set K} {k : K} {os : List (Option K)} (h : Owned h₀ os)
    (hs : Step h₀ (.acquire k) h₁) : Owned h₁ (some k :: os) := by
  cases hs with
  | acquire hk =>
    refine ⟨?_,?_⟩
    · intro j hj
      rcases List.mem_cons.mp hj with hj | hj
      · exact Or.inl (Option.some.inj hj)
      · exact Set.mem_insert_of_mem k (h.held j hj)
    · rw [List.filterMap_cons_some (f := id) rfl, List.nodup_cons]
      refine ⟨?_,h.once⟩
      intro hm
      exact hk (h.held k (by simpa using hm))

theorem Owned.release {h₀ h₁ : Set K} {k : K} {os : List (Option K)} (h : Owned h₀ (some k :: os))
    (hs : Step h₀ (.release k) h₁) : Owned h₁ os := by
  cases hs with
  | release =>
    have ho := h.once
    rw [List.filterMap_cons_some (f := id) rfl, List.nodup_cons] at ho
    refine ⟨?_,ho.2⟩
    intro j hj
    refine ⟨h.held j (List.mem_cons_of_mem _ hj),?_⟩
    intro hjk
    rw [Set.mem_singleton_iff] at hjk
    exact ho.1 (by simpa [← hjk] using hj)

/-- A party may also go away with its key still held. -/
theorem Owned.forget {held : Set K} {o : Option K} {os : List (Option K)} (h : Owned held (o :: os)) :
    Owned held os := by
  refine ⟨fun k hk => h.held k (List.mem_cons_of_mem o hk),?_⟩
  cases o with
  | none => simpa using h.once
  | some k =>
    have ho := h.once
    rw [List.filterMap_cons_some (f := id) rfl, List.nodup_cons] at ho
    exact ho.2

theorem Owned.notMem {held : Set K} {k : K} {os : List (Option K)} (h : Owned held (some k :: os)) : some k ∉ os := by
  intro hk
  have ho := h.once
  rw [List.filterMap_cons_some (f := id) rfl, List.nodup_cons] at ho
  exact ho.1 (by simpa using hk)

/-- A key that is held and that no party has. -/
structure Stray (held : Set K) (owners : List (Option K)) (k : K) : Prop where
  held : k ∈ held
  unowned : some k ∉ owners

theorem Stray.perm {held : Set K} {os os' : List (Option K)} {k : K} (h : Stray held os k) (hp : os.Perm os') :
    Stray held os' k :=
  ⟨h.held,fun hk => h.unowned (hp.mem_iff.mpr hk)⟩

theorem Stray.idle {held : Set K} {os : List (Option K)} {k : K} (h : Stray held os k) : Stray held (none :: os) k :=
  ⟨h.held,by simpa using h.unowned⟩

theorem Stray.forget {held : Set K} {o : Option K} {os : List (Option K)} {k : K} (h : Stray held (o :: os) k) :
    Stray held os k :=
  ⟨h.held,fun hk => h.unowned (List.mem_cons_of_mem o hk)⟩

theorem Stray.acquire {h₀ h₁ : Set K} {j k : K} {os : List (Option K)} (h : Stray h₀ os k)
    (hs : Step h₀ (.acquire j) h₁) : Stray h₁ (some j :: os) k := by
  refine ⟨hs.mem_of_ne_release h.held nofun,?_⟩
  intro hk
  rcases List.mem_cons.mp hk with hk | hk
  · cases hk
    cases hs with
    | acquire hj => exact hj h.held
  · exact h.unowned hk

theorem Stray.release {h₀ h₁ : Set K} {j k : K} {os : List (Option K)} (h : Stray h₀ (some j :: os) k)
    (hs : Step h₀ (.release j) h₁) : Stray h₁ os k := by
  refine ⟨hs.mem_of_ne_release h.held ?_,h.forget.unowned⟩
  intro he
  cases he
  exact h.unowned List.mem_cons_self

theorem Owned.release_stray {h₀ h₁ : Set K} {k : K} {os : List (Option K)} (h : Owned h₀ os) (hk : Stray h₀ os k)
    (hs : Step h₀ (.release k) h₁) : Owned h₁ os := by
  refine ⟨?_,h.once⟩
  intro j hj
  refine hs.mem_of_ne_release (h.held j hj) ?_
  intro he
  cases he
  exact hk.unowned hj

theorem Stray.release_other {h₀ h₁ : Set K} {j k : K} {os : List (Option K)} (h : Stray h₀ os k) (hjk : j ≠ k)
    (hs : Step h₀ (.release j) h₁) : Stray h₁ os k := by
  refine ⟨hs.mem_of_ne_release h.held ?_,h.unowned⟩
  intro he
  cases he
  exact hjk rfl

end Stout.Lease
