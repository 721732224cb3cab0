import Stout.Process.Archive

/-! # Where an archive is unpacked to

Whatever the tree and whatever fails, the entries of an archive are unpacked inside the
target if they are `Contained`; and if they are not, there is a tree on which they are
not.
-/
namespace Stout.Process.Archive
open Prog FileTree
open Paths

/-! ## What the calls do -/

structure Grown (v w : World) : Prop where
  tree : v.tree.Grows w.tree
  log : v.log <+: w.log

instance : IsPreorder World Grown where
  refl w := ⟨.refl w.tree,List.prefix_rfl⟩
  trans _ _ _ h k := ⟨h.tree.trans k.tree,h.log.trans k.log⟩

/-- What is new is above the path or at it. -/
def Spreads (path : List String) (v w : World) : Prop :=
  ∀ q, (w.tree.node q).isSome = true → (v.tree.node q).isSome = true ∨ q <:+ path

instance (path : List String) : IsPreorder World (Spreads path) where
  refl _ _ h := Or.inl h
  trans _ _ _ h k q hq := (k q hq).elim (h q) Or.inr

section Calls
variable {o : Outside} {v w : World}

theorem trying_moves {α : Type} {R : World → World → Prop} [IsPreorder World R] {p : Point} {m : Run α} (h : Moves R m) :
    Moves R (trying o p m) := by
  unfold trying
  split
  · exact .throw _
  · exact h

theorem trying_ok {α : Type} {p : Point} {m : Run α} {a : α} (h : trying o p m v = (.ok a,w)) : m v = (.ok a,w) := by
  unfold trying at h
  cases hf : o.fault p with
  | some e =>
    rw [hf] at h
    cases h
  | none =>
    rw [hf] at h
    exact h

theorem change_ok {p : Point} {f : FileTree String → Except Errno (FileTree String)} {c : Call} {u : Unit}
    (h : change o p f c v = (.ok u,w)) : ∃ t, f v.tree = .ok t ∧ w = ⟨t,v.log ++ [c]⟩ := by
  have h := trying_ok h
  rw [read_bind] at h
  cases ht : f v.tree with
  | error e =>
    rw [ht] at h
    cases h
  | ok t =>
    rw [ht] at h
    cases h
    exact ⟨t,rfl,rfl⟩

theorem change_moves {R : World → World → Prop} [IsPreorder World R] {p : Point}
    {f : FileTree String → Except Errno (FileTree String)} {c : Call}
    (h : ∀ v t, f v.tree = .ok t → R v ⟨t,v.log ++ [c]⟩) : Moves R (change o p f c) := by
  apply trying_moves
  intro v
  rw [read_bind]
  cases ht : f v.tree with
  | error e => exact refl_of R v
  | ok t => exact h v t ht

theorem change_free {p : Point} {f : FileTree String → Except Errno (FileTree String)} {t : FileTree String}
    (hf : o.fault p = none) (ht : f v.tree = .ok t) (c : Call) : change o p f c v = (.ok (),⟨t,v.log ++ [c]⟩) := by
  rw [change, trying, hf]
  dsimp only
  rw [read_bind, ht]
  rfl

theorem mkdir_grown (p : Point) (path : List String) (mode : ℕ) : Moves Grown (mkdir o p path mode) :=
  change_moves fun _ _ ht => ⟨(mkdir_ok ht).1.grows,List.prefix_append _ _⟩

theorem openFile_grown (i : ℕ) (path : List String) (mode : ℕ) : Moves Grown (openFile o i path mode) :=
  change_moves fun _ _ ht => ⟨(openFile_ok ht).grows,List.prefix_append _ _⟩

theorem spreads_of_adds {t : FileTree String} {path q : List String} {n : Node} (h : Adds v.tree t q n) (hq : q <:+ path)
    (log : List Call) : Spreads path v ⟨t,log⟩ := by
  intro r hr
  by_cases he : r = q
  · exact Or.inr (he ▸ hq)
  · have hr' : (t.node r).isSome = true := hr
    rw [h.only r he] at hr'
    exact Or.inl hr'

theorem mkdir_spreads (p : Point) {path q : List String} (hq : q <:+ path) (mode : ℕ) :
    Moves (Spreads path) (mkdir o p q mode) :=
  change_moves fun _ _ ht => spreads_of_adds (mkdir_ok ht).1 hq _

theorem openFile_spreads (i : ℕ) (path : List String) (mode : ℕ) : Moves (Spreads path) (openFile o i path mode) :=
  change_moves fun _ _ ht => spreads_of_adds (openFile_ok ht) List.suffix_rfl _

theorem mkdirAll_moves {R : World → World → Prop} [IsPreorder World R] {path : List String}
    (h : ∀ p q mode, q <:+ path → Moves R (mkdir o p q mode)) (i mode : ℕ) : Moves R (mkdirAll o i mode path) := by
  induction path with
  | nil => exact .pure ()
  | cons x path ih =>
    unfold mkdirAll
    refine Moves.bind .read fun w => ?_
    split
    · exact .pure ()
    · exact .throw _
    · refine Moves.bind (ih fun p q mode hq => h p q mode (hq.trans (List.suffix_cons x path))) fun _ => ?_
      exact h _ _ mode List.suffix_rfl

theorem mkdirAll_spreads (i mode : ℕ) (path : List String) : Moves (Spreads path) (mkdirAll o i mode path) :=
  mkdirAll_moves (fun p _ mode hq => mkdir_spreads p hq mode) i mode

theorem mkdirAll_grown (i mode : ℕ) (path : List String) : Moves Grown (mkdirAll o i mode path) :=
  mkdirAll_moves (fun p q mode _ => mkdir_grown p q mode) i mode

theorem stat_moves {R : World → World → Prop} [IsPreorder World R] (i : ℕ) (path : List String) : Moves R (stat o i path) := by
  apply trying_moves
  refine Moves.bind .read fun w => ?_
  split
  · exact .pure _
  · exact .throw _

theorem makeParent_moves {R : World → World → Prop} [IsPreorder World R] {path : String}
    (h : ∀ p q mode, q <:+ resolve o.cwd (dir path) → Moves R (mkdir o p q mode)) (i : ℕ) : Moves R (makeParent o i path) := by
  unfold makeParent
  dsimp only
  split
  · exact .pure ()
  · refine Moves.bind (stat_moves i _).attempt fun r => ?_
    cases r with
    | ok n => exact .pure ()
    | error e =>
      dsimp only
      split
      · exact mkdirAll_moves h i _
      · exact .throw e

theorem makeParent_grown (i : ℕ) (path : String) : Moves Grown (makeParent o i path) :=
  makeParent_moves (fun p q mode _ => mkdir_grown p q mode) i

theorem makeParent_spreads (i : ℕ) (path : String) : Moves (Spreads (resolve o.cwd (dir path))) (makeParent o i path) :=
  makeParent_moves (fun p _ mode hq => mkdir_spreads p hq mode) i

theorem unpackEntry_grown (target : String) (i : ℕ) (hdr : Header) : Moves Grown (unpackEntry o target i hdr) := by
  unfold unpackEntry
  dsimp only
  split
  · exact mkdirAll_grown i hdr.mode _
  · refine Moves.bind (makeParent_grown i _) fun _ => ?_
    exact Moves.bind (openFile_grown i _ _) fun _ => trying_moves (.pure ())

theorem unpackEntries_grown (target : String) (i : ℕ) (hdrs : List Header) :
    Moves Grown (unpackEntries o target i hdrs) := by
  induction hdrs generalizing i with
  | nil => exact .pure ()
  | cons hdr hdrs ih => exact Moves.bind (unpackEntry_grown target i hdr) fun _ => ih (i + 1)

theorem mkdirAll_ok {i mode : ℕ} {path : List String} {u : Unit} (h : mkdirAll o i mode path v = (.ok u,w)) :
    w.tree.node path = some .dir := by
  cases path with
  | nil =>
    cases h
    exact v.tree.root
  | cons x path =>
    rw [mkdirAll, read_bind] at h
    rcases hn : v.tree.node (x :: path) with _ | _ | _
    · rw [hn] at h
      obtain ⟨_,s,-,hm⟩ := of_bind_ok h
      obtain ⟨t,ht,rfl⟩ := change_ok hm
      exact (mkdir_ok ht).1.here
    · rw [hn] at h
      cases h
      exact hn
    · rw [hn] at h
      cases h

theorem unpackEntry_ok {target : String} {i : ℕ} {hdr : Header} {u : Unit} (h : unpackEntry o target i hdr v = (.ok u,w)) :
    w.tree.node (item o.cwd target hdr).path = some (item o.cwd target hdr).kind := by
  unfold unpackEntry at h
  by_cases hd : hdr.isDir = true
  · rw [if_pos hd] at h
    rw [item, if_pos hd]
    exact mkdirAll_ok h
  · rw [if_neg hd] at h
    obtain ⟨_,s₁,-,h⟩ := of_bind_ok h
    obtain ⟨_,s₂,hopen,hcopy⟩ := of_bind_ok h
    obtain ⟨t,ht,rfl⟩ := change_ok hopen
    cases trying_ok hcopy
    rw [item, if_neg hd]
    exact (openFile_ok ht).here

end Calls

/-! ## Inside -/

section Inside
variable {o : Outside} {target : List String} {known : List (Item String)} {v w : World}

def Inside (target : List String) (w : World) : Prop := ∀ c ∈ w.log, target <:+ c.path

theorem Inside.change (h : Inside target w) {p : Point} {f : FileTree String → Except Errno (FileTree String)} {c : Call}
    (hc : ∀ t, f w.tree = .ok t → target <:+ c.path) : Inside target (change o p f c w).2 := by
  unfold Archive.change trying
  cases o.fault p with
  | some e => exact h
  | none =>
    dsimp only
    rw [read_bind]
    cases ht : f w.tree with
    | error e => exact h
    | ok t =>
      intro d hd
      rcases List.mem_append.mp hd with hd | hd
      · exact h d hd
      · rw [List.mem_singleton.mp hd]
        exact hc t ht

theorem dir_of_outside (hknown : start o.cwd target ⊆ known) (hw : w.tree.Has known) {path : List String}
    (hs : Sheltered o.cwd target path) (hout : ¬target <:+ path) : w.tree.node path = some .dir := by
  have htarget : w.tree.node target = some .dir := hw ⟨target,.dir⟩ (hknown List.mem_cons_self)
  rcases hs with h | h | h
  · exact absurd h hout
  · exact dir_of_suffix h htarget
  · by_cases hc : target <:+ o.cwd
    · exact dir_of_suffix ((List.suffix_or_suffix_of_suffix h hc).resolve_right hout) htarget
    · have hcwd : w.tree.node o.cwd = some .dir := by
        refine hw ⟨o.cwd,.dir⟩ (hknown ?_)
        rw [start, if_neg hc]
        exact List.mem_cons_of_mem _ List.mem_cons_self
      exact dir_of_suffix h hcwd

theorem inside_of_missing (hknown : start o.cwd target ⊆ known) (hw : w.tree.Has known) {x : String} {path : List String}
    (hs : Sheltered o.cwd target (x :: path)) (hx : w.tree.node (x :: path) = none) : target <:+ path := by
  have htarget : w.tree.node target = some .dir := hw ⟨target,.dir⟩ (hknown List.mem_cons_self)
  by_cases hin : target <:+ x :: path
  · rcases List.suffix_cons_iff.mp hin with rfl | h
    · rw [hx] at htarget
      cases htarget
    · exact h
  · rw [dir_of_outside hknown hw hs hin] at hx
    cases hx

theorem Inside.mkdirAll (hknown : start o.cwd target ⊆ known) (hw : w.tree.Has known) (h : Inside target w) (i mode : ℕ)
    {path : List String} (hs : Sheltered o.cwd target path) : Inside target (mkdirAll o i mode path w).2 := by
  induction path with
  | nil => exact h
  | cons x path ih =>
    rw [Archive.mkdirAll, read_bind]
    rcases hn : w.tree.node (x :: path) with _ | _ | _
    · have hin := inside_of_missing hknown hw hs hn
      have hpath := ih (Or.inl hin)
      dsimp only
      exact bind_ends hpath fun _ s _ hs => hs.change fun _ _ => hin.trans (List.suffix_cons x path)
    · exact h
    · exact h

theorem Inside.makeParent (hknown : start o.cwd target ⊆ known) (hw : w.tree.Has known) (h : Inside target w) (i : ℕ)
    {path : String} (hs : Sheltered o.cwd target (resolve o.cwd (dir path))) : Inside target (makeParent o i path w).2 := by
  unfold Archive.makeParent
  by_cases hdot : dir path = "."
  · rw [if_pos hdot]
    exact h
  rw [if_neg hdot]
  have hstat : Moves Eq (Prog.attempt (stat o i (resolve o.cwd (dir path))) : Run (Except Failure Node)) :=
    (stat_moves i _).attempt
  refine bind_ends ?_ ?_
  · rw [← hstat w]
    exact h
  · intro r s hr _
    obtain rfl := hstat.of_eq hr
    cases r with
    | ok n => exact h
    | error e =>
      dsimp only
      by_cases he : e.isNotExist = true
      · rw [if_pos he]
        exact h.mkdirAll hknown hw i _ hs
      · rw [if_neg he]
        exact h

theorem Sheltered.tail {cwd path : List String} (h : Sheltered cwd target path) : Sheltered cwd target path.tail := by
  rcases h with h | h | h
  · cases path with
    | nil => exact Or.inl h
    | cons x path =>
      rcases List.suffix_cons_iff.mp h with rfl | h
      · exact Or.inr (Or.inl (List.suffix_cons x path))
      · exact Or.inl h
  · exact Or.inr (Or.inl ((List.tail_suffix path).trans h))
  · exact Or.inr (Or.inr ((List.tail_suffix path).trans h))

theorem Inside.unpackEntry {target : String} {hdr : Header} (ht : target ≠ "")
    (hknown : start o.cwd (resolve o.cwd target) ⊆ known) (hw : w.tree.Has known) (h : Inside (resolve o.cwd target) w)
    (i : ℕ) (hs : Sheltered o.cwd (resolve o.cwd target) (item o.cwd target hdr).path) :
    Inside (resolve o.cwd target) (unpackEntry o target i hdr w).2 := by
  unfold Archive.unpackEntry
  by_cases hd : hdr.isDir = true
  · rw [if_pos hd]
    exact h.mkdirAll hknown hw i _ hs
  rw [if_neg hd]
  have hdir : Sheltered o.cwd (resolve o.cwd target) (resolve o.cwd (dir (join target hdr.name))) := by
    rcases dir_join_cases ht o.cwd hdr.name with he | ⟨-,hc⟩
    · rw [he]
      exact hs.tail
    · exact Or.inr (Or.inr hc)
  refine bind_ends (h.makeParent hknown hw i hdir) fun _ s hr hin => ?_
  have hgrown := (makeParent_grown i _).of_eq hr
  have hcopy : Moves Eq (trying o (.copy i) (pure ()) : Run Unit) := trying_moves (.pure ())
  refine bind_ends (hin.change fun t hopen => ?_) fun _ u _ hin => ?_
  · by_contra hout
    have hnode := (openFile_ok hopen).grows _ _ (dir_of_outside hknown (hw.grows hgrown.tree) hs hout)
    exact absurd ((openFile_ok hopen).here.symm.trans hnode) (by decide)
  · rw [← hcopy u]
    exact hin

/-- The whole archive, whatever the tree and whatever fails. -/
theorem Inside.unpackEntries {target : String} {hdrs : List Header} (ht : target ≠ "")
    (hknown : start o.cwd (resolve o.cwd target) ⊆ known) (hw : w.tree.Has known) (h : Inside (resolve o.cwd target) w)
    (i : ℕ) (hc : Contained o.cwd (resolve o.cwd target) known (hdrs.map (item o.cwd target))) :
    Inside (resolve o.cwd target) (unpackEntries o target i hdrs w).2 := by
  induction hdrs generalizing w i known with
  | nil => exact h
  | cons hdr hdrs ih =>
    obtain ⟨hs,hrest⟩ := hc
    refine bind_ends (h.unpackEntry ht hknown hw i hs) fun _ s hr hin => ?_
    have hold := hw.grows ((unpackEntry_grown target i hdr).of_eq hr).tree
    have hnew := unpackEntry_ok hr
    refine ih (fun g hg => List.mem_cons_of_mem _ (hknown hg)) ?_ hin (i + 1) (hrest ?_)
    · intro g hg
      rcases List.mem_cons.mp hg with rfl | hg
      · exact hnew
      · exact hold g hg
    · exact fun g hg => not_clash_of_node (hold g hg) hnew

end Inside

/-! ## Outside -/

section Outside
variable {cwd : List String} {known : List (Item String)} {v w : World}

/-- Nothing fails but for the tree. -/
def free (cwd : List String) : Outside := ⟨cwd,fun _ => none⟩

theorem free_cwd (cwd : List String) : (free cwd).cwd = cwd := rfl

def Clear (w : World) (path : List String) : Prop := ∀ q, q <:+ path → w.tree.node q ≠ some .file

def Made (path : List String) (w : World) : Prop := ∃ c ∈ w.log, c.path = path

theorem Made.grown {path : List String} (h : Made path v) (hvw : Grown v w) : Made path w := by
  obtain ⟨c,hc,hp⟩ := h
  exact ⟨c,hvw.log.subset hc,hp⟩

theorem mkdirAll_free (cwd : List String) (i mode : ℕ) {path : List String} (h : Clear v path) :
    ∃ w, mkdirAll (free cwd) i mode path v = (.ok (),w) ∧ (v.tree.node path = none → Made path w) := by
  induction path with
  | nil =>
    refine ⟨v,rfl,fun hn => ?_⟩
    rw [v.tree.root] at hn
    cases hn
  | cons x path ih =>
    rw [mkdirAll, read_bind]
    rcases hn : v.tree.node (x :: path) with _ | _ | _
    · obtain ⟨s,hs,-⟩ := ih fun q hq => h q (hq.trans (List.suffix_cons x path))
      have hmissing : s.tree.node (x :: path) = none := by
        by_contra hsome
        have hspread := (mkdirAll_spreads i mode path).of_eq hs
        rcases hspread (x :: path) (Option.isSome_iff_ne_none.mpr hsome) with h | h
        · rw [hn] at h
          cases h
        · exact absurd h.length_le (by simp)
      obtain ⟨t,ht⟩ := mkdir_of_missing (mkdirAll_ok hs) hmissing
      dsimp only
      rw [bind_ok hs]
      refine ⟨_,change_free rfl ht _,fun _ => ⟨_,List.mem_append_right _ List.mem_cons_self,rfl⟩⟩
    · exact ⟨v,rfl,nofun⟩
    · exact absurd hn (h _ List.suffix_rfl)

theorem stat_free_ok {path : List String} {n : Node} (i : ℕ) (h : v.tree.stat path = .ok n) :
    stat (free cwd) i path v = (.ok n,v) := by
  rw [stat, trying, free]
  dsimp only
  rw [read_bind, h]
  rfl

theorem stat_free_error {path : List String} {e : Errno} (i : ℕ) (h : v.tree.stat path = .error e) :
    stat (free cwd) i path v = (.error (.errno e),v) := by
  rw [stat, trying, free]
  dsimp only
  rw [read_bind, h]
  rfl

theorem makeParent_free (i : ℕ) {path : String} (h : Clear v (resolve cwd (dir path)))
    (hdot : dir path = "." → v.tree.node (resolve cwd (dir path)) = some .dir) :
    ∃ w, makeParent (free cwd) i path v = (.ok (),w) ∧ w.tree.node (resolve cwd (dir path)) = some .dir := by
  unfold makeParent
  by_cases hd : dir path = "."
  · rw [if_pos hd]
    exact ⟨v,rfl,hdot hd⟩
  rw [if_neg hd, free_cwd]
  rcases hn : v.tree.node (resolve cwd (dir path)) with _ | _ | _
  · have hstat : v.tree.stat (resolve cwd (dir path)) = .error .noEntry := by
      rw [FileTree.stat, hn, missing_of_noFile h]
    obtain ⟨w,hw,-⟩ := mkdirAll_free cwd i 0o770 h
    refine ⟨w,?_,mkdirAll_ok hw⟩
    rw [bind_ok (attempt_error (stat_free_error i hstat))]
    generalize mkdirAll (free cwd) i 0o770 (resolve cwd (dir path)) = m at hw ⊢
    exact hw
  · have hstat : v.tree.stat (resolve cwd (dir path)) = .ok .dir := by
      rw [FileTree.stat, hn]
    refine ⟨v,?_,hn⟩
    rw [bind_ok (attempt_ok (stat_free_ok i hstat))]
    rfl
  · exact absurd hn (h _ List.suffix_rfl)

variable {target : String} {hdr : Header}

theorem unpackDir_free (i : ℕ) (hd : hdr.isDir = true) (h : Clear v (item cwd target hdr).path) :
    ∃ w, unpackEntry (free cwd) target i hdr v = (.ok (),w) ∧ Spreads (item cwd target hdr).path v w ∧
      (v.tree.node (item cwd target hdr).path = none → Made (item cwd target hdr).path w) := by
  have heq : unpackEntry (free cwd) target i hdr = mkdirAll (free cwd) i hdr.mode (item cwd target hdr).path := if_pos hd
  obtain ⟨w,hw,hmade⟩ := mkdirAll_free cwd i hdr.mode h
  rw [heq]
  exact ⟨w,hw,(mkdirAll_spreads i hdr.mode _).of_eq hw,hmade⟩

theorem unpackFile_free (ht : target ≠ "") (i : ℕ) (hd : hdr.isDir ≠ true)
    (htarget : v.tree.node (resolve cwd target) = some .dir)
    (hp : ¬(item cwd target hdr).path <:+ resolve cwd target) (h : Clear v (item cwd target hdr).path.tail)
    (hnot : v.tree.node (item cwd target hdr).path ≠ some .dir) :
    ∃ w, unpackEntry (free cwd) target i hdr v = (.ok (),w) ∧ Spreads (item cwd target hdr).path v w ∧
      Made (item cwd target hdr).path w := by
  generalize hpath : (item cwd target hdr).path = path at *
  have hres : resolve cwd (join target hdr.name) = path := hpath
  have hdir : resolve cwd (dir (join target hdr.name)) = path.tail := by
    rcases dir_join_cases ht cwd hdr.name with he | ⟨hup,-⟩
    · rw [he, hres]
    · rw [hres] at hup
      exact absurd hup hp
  have hdot : dir (join target hdr.name) = "." → v.tree.node (resolve cwd (dir (join target hdr.name))) = some .dir := by
    intro hd
    rcases dir_join_dot ht cwd hd with hup | hcwd
    · rw [hres] at hup
      exact absurd hup hp
    · rw [hd]
      exact dir_of_suffix hcwd htarget
  obtain ⟨s,hs,hsdir⟩ := makeParent_free i (hdir.symm ▸ h) hdot
  have hspread := (makeParent_spreads i (join target hdr.name)).of_eq hs
  rw [free_cwd, hdir] at hspread
  have hgrown := (makeParent_grown i _).of_eq hs
  rw [hdir] at hsdir
  have heq : unpackEntry (free cwd) target i hdr = (do
      makeParent (free cwd) i (join target hdr.name)
      openFile (free cwd) i path hdr.mode
      trying (free cwd) (.copy i) (pure ()) : Run Unit) := by
    rw [← hres]
    exact if_neg hd
  cases path with
  | nil => exact absurd List.nil_suffix hp
  | cons x path =>
    have hopen : ∃ t, s.tree.openFile (x :: path) = .ok t := by
      refine openFile_of_notDir hsdir fun hn => ?_
      rcases hspread (x :: path) (by rw [hn]; rfl) with hv | hv
      · obtain ⟨n,hv⟩ := Option.isSome_iff_exists.mp hv
        rw [hgrown.tree _ _ hv] at hn
        exact hnot (hv.trans hn)
      · exact absurd hv.length_le (by simp)
    obtain ⟨t,ht⟩ := hopen
    have hcall : openFile (free cwd) i (x :: path) hdr.mode s = (.ok (),⟨t,s.log ++ [.openFile (x :: path) hdr.mode]⟩) :=
      change_free rfl ht _
    refine ⟨⟨t,s.log ++ [.openFile (x :: path) hdr.mode]⟩,?_,?_,_,List.mem_append_right _ List.mem_cons_self,rfl⟩
    · rw [heq, bind_ok hs, bind_ok hcall]
      rfl
    · intro q hq
      rcases (openFile_spreads i (x :: path) hdr.mode).of_eq hcall q hq with hq | hq
      · exact (hspread q hq).imp_right fun hq => hq.trans (List.suffix_cons x path)
      · exact Or.inr hq

/-- An entry that is not sheltered makes something outside, where nothing is in its way. -/
theorem unpackEntry_escapes (ht : target ≠ "") (hknown : start cwd (resolve cwd target) ⊆ known)
    (hsh : ∀ g ∈ known, Sheltered cwd (resolve cwd target) g.path) (hw : w.tree.Has known) (hb : w.tree.Bare known) (i : ℕ)
    (hout : ¬Sheltered cwd (resolve cwd target) (item cwd target hdr).path) :
    Made (item cwd target hdr).path (unpackEntry (free cwd) target i hdr w).2 := by
  have hclear : Clear w (item cwd target hdr).path := by
    intro q hq hfile
    have hdir : w.tree.node q = some .dir := by
      refine dir_of_outside (o := free cwd) hknown hw (hsh _ (hb.file hw hfile)) fun hin => ?_
      exact hout (Or.inl (hin.trans hq))
    rw [hdir] at hfile
    cases hfile
  have hnone : w.tree.node (item cwd target hdr).path = none := by
    by_contra hsome
    obtain ⟨g,hg,hpg⟩ := hb _ (Option.isSome_iff_ne_none.mpr hsome)
    rcases hsh g hg with h | h | h
    · rcases List.suffix_or_suffix_of_suffix hpg h with h | h
      · exact hout (Or.inr (Or.inl h))
      · exact hout (Or.inl h)
    · exact hout (Or.inr (Or.inl (hpg.trans h)))
    · exact hout (Or.inr (Or.inr (hpg.trans h)))
  by_cases hd : hdr.isDir = true
  · obtain ⟨u,hu,-,hmade⟩ := unpackDir_free i hd hclear
    rw [hu]
    exact hmade hnone
  · have htarget : w.tree.node (resolve cwd target) = some .dir := hw ⟨_,.dir⟩ (hknown List.mem_cons_self)
    have hnot : w.tree.node (item cwd target hdr).path ≠ some .dir := by
      rw [hnone]
      exact nofun
    obtain ⟨u,hu,-,hmade⟩ := unpackFile_free ht i hd htarget (fun h => hout (Or.inr (Or.inl h)))
      (fun q hq => hclear q (hq.trans (List.tail_suffix _))) hnot
    rw [hu]
    exact hmade

/-- An entry that clashes with none of those before it is unpacked, and nothing else comes
to be. -/
theorem unpackEntry_fits (ht : target ≠ "") (hknown : start cwd (resolve cwd target) ⊆ known) (hw : w.tree.Has known)
    (hb : w.tree.Bare known) (i : ℕ) (hfit : ∀ g ∈ known, ¬Clash g (item cwd target hdr)) :
    ∃ u, unpackEntry (free cwd) target i hdr w = (.ok (),u) ∧ Spreads (item cwd target hdr).path w u := by
  by_cases hd : hdr.isDir = true
  · have hkind : (item cwd target hdr).kind = .dir := if_pos hd
    have hclear : Clear w (item cwd target hdr).path := by
      intro q hq hfile
      refine hfit _ (hb.file hw hfile) ⟨Or.inl ⟨rfl,hq⟩,fun he => ?_⟩
      rw [← he] at hkind
      cases hkind
    obtain ⟨u,hu,hspread,-⟩ := unpackDir_free i hd hclear
    exact ⟨u,hu,hspread⟩
  · have hkind : (item cwd target hdr).kind = .file := if_neg hd
    have htarget : w.tree.node (resolve cwd target) = some .dir := hw ⟨_,.dir⟩ (hknown List.mem_cons_self)
    have hp : ¬(item cwd target hdr).path <:+ resolve cwd target := by
      intro h
      refine hfit _ (hknown List.mem_cons_self) ⟨Or.inr ⟨hkind,h⟩,fun he => ?_⟩
      rw [← he] at hkind
      cases hkind
    have hclear : Clear w (item cwd target hdr).path.tail := by
      intro q hq hfile
      refine hfit _ (hb.file hw hfile) ⟨Or.inl ⟨rfl,hq.trans (List.tail_suffix _)⟩,fun he => ?_⟩
      rw [← he] at hq hp
      cases q with
      | nil => exact hp List.nil_suffix
      | cons x q => exact absurd hq.length_le (by simp)
    have hnot : w.tree.node (item cwd target hdr).path ≠ some .dir := by
      intro hdir
      obtain ⟨g,hg,hpg⟩ := hb _ (by rw [hdir]; rfl)
      refine hfit g hg ⟨Or.inr ⟨hkind,hpg⟩,fun he => ?_⟩
      have hn := hw g hg
      rw [he, hdir, hkind] at hn
      cases hn
    obtain ⟨u,hu,hspread,-⟩ := unpackFile_free ht i hd htarget hp hclear hnot
    exact ⟨u,hu,hspread⟩

theorem unpackEntries_escape {hdrs : List Header} (ht : target ≠ "") (hknown : start cwd (resolve cwd target) ⊆ known)
    (hsh : ∀ g ∈ known, Sheltered cwd (resolve cwd target) g.path) (hw : w.tree.Has known) (hb : w.tree.Bare known) (i : ℕ)
    (hc : ¬Contained cwd (resolve cwd target) known (hdrs.map (item cwd target))) :
    ∃ c ∈ (unpackEntries (free cwd) target i hdrs w).2.log, ¬resolve cwd target <:+ c.path := by
  induction hdrs generalizing w i known with
  | nil => exact absurd trivial hc
  | cons hdr hdrs ih =>
    by_cases hs : Sheltered cwd (resolve cwd target) (item cwd target hdr).path
    · have hfit : ∀ g ∈ known, ¬Clash g (item cwd target hdr) := by
        by_contra hclash
        exact hc ⟨hs,fun hfit => absurd hfit hclash⟩
      have hrest : ¬Contained cwd (resolve cwd target) (item cwd target hdr :: known) (hdrs.map (item cwd target)) :=
        fun h => hc ⟨hs,fun _ => h⟩
      obtain ⟨u,hu,hspread⟩ := unpackEntry_fits ht hknown hw hb i hfit
      have hold := hw.grows ((unpackEntry_grown target i hdr).of_eq hu).tree
      rw [unpackEntries, bind_ok hu]
      refine ih (fun g hg => List.mem_cons_of_mem _ (hknown hg)) ?_ ?_ ?_ (i + 1) hrest
      · intro g hg
        rcases List.mem_cons.mp hg with rfl | hg
        · exact hs
        · exact hsh g hg
      · intro g hg
        rcases List.mem_cons.mp hg with rfl | hg
        · exact unpackEntry_ok hu
        · exact hold g hg
      · intro q hq
        rcases hspread q hq with hq | hq
        · obtain ⟨g,hg,hqg⟩ := hb q hq
          exact ⟨g,List.mem_cons_of_mem _ hg,hqg⟩
        · exact ⟨_,List.mem_cons_self,hq⟩
    · have hmade := unpackEntry_escapes ht hknown hsh hw hb i hs
      have hend : Made (item cwd target hdr).path (unpackEntries (free cwd) target i (hdr :: hdrs) w).2 :=
        bind_ends hmade fun _ _ _ h => h.grown (unpackEntries_grown target (i + 1) hdrs _)
      obtain ⟨c,hc,hp⟩ := hend
      refine ⟨c,hc,fun hin => hs (Or.inl ?_)⟩
      rw [← hp]
      exact hin

end Outside

/-! ## The archive -/

section Archive
variable {f : Formats} {o : Outside} {data : List UInt8} {target : String} {v w : World}

theorem archiveReader_isSome (f : Formats) (data : List UInt8) : ∃ stream, archiveReader data (constructors f) = some stream := by
  unfold constructors archiveReader
  cases f.gzipReader data with
  | ok stream => exact ⟨stream,rfl⟩
  | error e =>
    unfold archiveReader
    cases f.zlibReader data with
    | ok stream => exact ⟨stream,rfl⟩
    | error e => exact ⟨⟨data,none⟩,rfl⟩

theorem unpackStream_snd (stream : Stream) :
    (unpackStream f o target stream w).2 = (unpackEntries o target 0 (f.tarReader stream).1 w).2 := by
  refine bind_ends (P := fun t => t = (unpackEntries o target 0 (f.tarReader stream).1 w).2) rfl ?_
  intro _ t _ ht
  cases (f.tarReader stream).2 <;> exact ht

theorem removeAll_cases (ht : target ≠ "") (v : World) :
    (∃ t, v.tree.removeAll (resolve o.cwd target) = .ok t ∧ removeAll o target v = (.ok (),⟨t,v.log⟩)) ∨
    ∃ e, removeAll o target v = (.error e,v) := by
  unfold removeAll
  rw [if_neg ht]
  by_cases hdot : base target = "."
  · rw [if_pos hdot]
    exact Or.inr ⟨_,rfl⟩
  by_cases hdots : base target = ".."
  · rw [if_neg hdot, if_pos hdots]
    exact Or.inr ⟨_,rfl⟩
  rw [if_neg hdot, if_neg hdots, trying]
  cases o.fault .removeAll with
  | some e => exact Or.inr ⟨_,rfl⟩
  | none =>
    dsimp only
    rw [read_bind]
    cases hr : v.tree.removeAll (resolve o.cwd target) with
    | error e => exact Or.inr ⟨_,rfl⟩
    | ok t => exact Or.inl ⟨t,rfl,rfl⟩

theorem removeAll_dotted (ht : target ≠ "") (hd : Dotted target) (v : World) : ∃ e, removeAll o target v = (.error e,v) := by
  unfold removeAll
  rw [if_neg ht]
  by_cases hdot : base target = "."
  · rw [if_pos hdot]
    exact ⟨_,rfl⟩
  · rw [if_neg hdot, if_pos (hd.resolve_left hdot)]
    exact ⟨_,rfl⟩

theorem removeAll_free {cwd : List String} {t : FileTree String} (ht : target ≠ "") (hd : ¬Dotted target)
    (h : v.tree.removeAll (resolve cwd target) = .ok t) : removeAll (free cwd) target v = (.ok (),⟨t,v.log⟩) := by
  rw [removeAll, if_neg ht, if_neg fun hdot => hd (Or.inl hdot), if_neg fun hdots => hd (Or.inr hdots), trying, free]
  dsimp only
  rw [read_bind, h]
  rfl

theorem prepared {t u : FileTree String} {cwd path : List String} (hcwd : v.tree.node cwd = some .dir)
    (ht : v.tree.removeAll path = .ok t) (hu : t.mkdir path = .ok u) : u.Has (start cwd path) := by
  intro g hg
  rcases List.mem_cons.mp hg with rfl | hg
  · exact (mkdir_ok hu).1.here
  · split at hg
    · cases hg
    · rename_i hout
      rw [List.mem_singleton.mp hg]
      refine (mkdir_ok hu).1.grows _ _ ?_
      rw [FileTree.removeAll_ok ht, if_neg hout]
      exact hcwd

/-- Contained entries are unpacked inside, whatever the tree and whatever fails. -/
theorem Stays.of_contained {tree : FileTree String} (hcwd : tree.node o.cwd = some .dir)
    (h : target = "" ∨ Dotted target ∨ Contained o.cwd (resolve o.cwd target) (start o.cwd (resolve o.cwd target))
      ((headers f data).map (item o.cwd target))) : Stays f o data target tree := by
  by_cases ht : target = ""
  · intro c hc
    subst ht
    cases hc
  unfold Stays unpackArchive
  rw [if_neg ht]
  have hstart : Inside (resolve o.cwd target) ⟨tree,[]⟩ := nofun
  rcases removeAll_cases ht (⟨tree,[]⟩ : World) with ⟨t,hremove,hcall⟩ | ⟨e,hcall⟩
  · rw [bind_ok hcall]
    have hin : Inside (resolve o.cwd target) ⟨t,[]⟩ := nofun
    refine bind_ends (P := Inside (resolve o.cwd target)) (hin.change fun _ _ => List.suffix_rfl) ?_
    intro _ w hw hin
    obtain ⟨u,hu,rfl⟩ := change_ok hw
    obtain ⟨stream,hs⟩ := archiveReader_isSome f data
    have hheaders : headers f data = (f.tarReader stream).1 := by rw [headers, hs]
    rw [hs]
    dsimp only
    rw [unpackStream_snd]
    have hc : Contained o.cwd (resolve o.cwd target) (start o.cwd (resolve o.cwd target))
        ((f.tarReader stream).1.map (item o.cwd target)) := by
      rw [← hheaders]
      refine (h.resolve_left ht).resolve_left fun hdot => ?_
      obtain ⟨e,he⟩ := removeAll_dotted (o := o) ht hdot (⟨tree,[]⟩ : World)
      rw [he] at hcall
      cases hcall
    exact hin.unpackEntries ht (List.Subset.refl _) (prepared (v := ⟨tree,[]⟩) hcwd hremove hu) 0 hc
  · rw [bind_error hcall]
    exact hstart

theorem contained_root (cwd : List String) (known items : List (Item String)) : Contained cwd [] known items := by
  induction items generalizing known with
  | nil => trivial
  | cons e items ih => exact ⟨Or.inl List.nil_suffix,fun _ => ih _⟩

theorem bare_start {t u : FileTree String} {cwd rest : List String} {x : String}
    (hremove : (above [rest,cwd]).removeAll (x :: rest) = .ok t) (hmk : t.mkdir (x :: rest) = .ok u) :
    u.Bare (start cwd (x :: rest)) := by
  intro q hq
  have hup : q <:+ x :: rest → ∃ g ∈ start cwd (x :: rest), q <:+ g.path := fun h => ⟨_,List.mem_cons_self,h⟩
  by_cases he : q = x :: rest
  · exact hup (he ▸ List.suffix_rfl)
  rw [(mkdir_ok hmk).1.only q he, FileTree.removeAll_ok hremove] at hq
  by_cases hin : x :: rest <:+ q
  · rw [if_pos hin] at hq
    cases hq
  rw [if_neg hin, above_node] at hq
  have hmem : q = [] ∨ ∃ p ∈ [rest,cwd], q <:+ p := by
    by_contra hn
    rw [if_neg hn] at hq
    cases hq
  rcases hmem with rfl | ⟨p,hp,hqp⟩
  · exact hup List.nil_suffix
  rcases List.mem_cons.mp hp with rfl | hp
  · exact hup (hqp.trans (List.suffix_cons x p))
  rw [List.mem_singleton.mp hp] at hqp
  by_cases hc : x :: rest <:+ cwd
  · exact hup ((List.suffix_or_suffix_of_suffix hqp hc).resolve_right hin)
  · refine ⟨⟨cwd,.dir⟩,?_,hqp⟩
    rw [start, if_neg hc]
    exact List.mem_cons_of_mem _ List.mem_cons_self

/-- Entries that are not contained are unpacked outside, on a tree with nothing but the
directories above the target and the working directory. -/
theorem escapes_of_not_contained {cwd : List String} (ht : target ≠ "") (hdot : ¬Dotted target)
    (h : ¬Contained cwd (resolve cwd target) (start cwd (resolve cwd target)) ((headers f data).map (item cwd target))) :
    ∃ tree : FileTree String, tree.node cwd = some .dir ∧ ¬Stays f (free cwd) data target tree := by
  cases hT : resolve cwd target with
  | nil =>
    rw [hT] at h
    exact absurd (contained_root _ _ _) h
  | cons x rest =>
  have hcwd : (above [rest,cwd]).node cwd = some .dir := by
    rw [above_node, if_pos (Or.inr ⟨cwd,by simp,List.suffix_rfl⟩)]
  refine ⟨above [rest,cwd],hcwd,fun hstays => ?_⟩
  obtain ⟨t,hremove⟩ := removeAll_of_ne (above [rest,cwd]) (List.cons_ne_nil x rest)
  have hnode := FileTree.removeAll_ok hremove
  have hparent : t.node rest = some .dir := by
    rw [hnode, if_neg (fun hs => absurd hs.length_le (by simp)), above_node, if_pos (Or.inr ⟨rest,by simp,List.suffix_rfl⟩)]
  obtain ⟨u,hmk⟩ := mkdir_of_missing (x := x) hparent (by rw [hnode, if_pos List.suffix_rfl])
  have hhas := prepared (v := ⟨above [rest,cwd],[]⟩) hcwd hremove hmk
  have hbare := bare_start hremove hmk
  rw [← hT] at hremove hmk hhas hbare
  have hsh : ∀ g ∈ start cwd (resolve cwd target), Sheltered cwd (resolve cwd target) g.path := by
    intro g hg
    rcases List.mem_cons.mp hg with rfl | hg
    · exact Or.inl List.suffix_rfl
    · split at hg
      · cases hg
      · rw [List.mem_singleton.mp hg]
        exact Or.inr (Or.inr List.suffix_rfl)
  obtain ⟨stream,hs⟩ := archiveReader_isSome f data
  have hheaders : headers f data = (f.tarReader stream).1 := by rw [headers, hs]
  rw [hheaders] at h
  have hremoved : removeAll (free cwd) target ⟨above [rest,cwd],[]⟩ = (.ok (),⟨t,[]⟩) := removeAll_free ht hdot hremove
  have hmade : mkdir (free cwd) .mkdir (resolve cwd target) 0o755 ⟨t,[]⟩ =
      (.ok (),⟨u,[] ++ [.mkdir (resolve cwd target) 0o755]⟩) := change_free rfl hmk _
  obtain ⟨c,hc,hout⟩ := unpackEntries_escape ht (List.Subset.refl _) hsh
    (w := ⟨u,[] ++ [.mkdir (resolve cwd target) 0o755]⟩) hhas hbare 0 h
  refine hout (hstays c ?_)
  unfold unpackArchive
  rw [bind_ok hremoved, if_neg ht, free_cwd, bind_ok hmade, hs]
  dsimp only
  rw [unpackStream_snd]
  exact hc

end Archive

/-- Whatever the tree and whatever fails, an archive is unpacked inside the target, exactly
if its entries are contained or the target cannot be renewed. -/
theorem unpackArchive_stays_iff (f : Formats) (cwd : List String) (data : List UInt8) (target : String) :
    (∀ (tree : FileTree String) (fault : Point → Option String), tree.node cwd = some .dir →
      Stays f ⟨cwd,fault⟩ data target tree) ↔
    target = "" ∨ Dotted target ∨ Contained cwd (resolve cwd target) (start cwd (resolve cwd target))
      ((headers f data).map (item cwd target)) := by
  constructor
  · intro h
    by_contra hn
    obtain ⟨ht,hn⟩ := not_or.mp hn
    obtain ⟨hdot,hc⟩ := not_or.mp hn
    obtain ⟨tree,hcwd,hout⟩ := escapes_of_not_contained ht hdot hc
    exact hout (h tree _ hcwd)
  · intro h tree fault hcwd
    exact Stays.of_contained hcwd h

def oneFile (name : String) : Formats :=
  ⟨fun _ => .error "gzip: invalid header",fun _ => .error "zlib: invalid header",fun _ => ([⟨name,false,0o644⟩],none)⟩

/-- The file of the archive is created beside the target. -/
theorem unpackArchive_climbs :
    (unpackArchive (oneFile "../x") (free []) [] "/spool/app" ⟨above [["spool"]],[]⟩).1 = .ok () ∧
    (unpackArchive (oneFile "../x") (free []) [] "/spool/app" ⟨above [["spool"]],[]⟩).2.log =
      [.mkdir ["app","spool"] 0o755,.openFile ["x","spool"] 0o644] ∧
    ¬resolve [] "/spool/app" <:+ ["x","spool"] := by
  decide +kernel

theorem contained_of_noClimb {cwd : List String} {target : String} {hdrs : List Header} (ht : target ≠ "")
    (h : ∀ hdr ∈ hdrs, ".." ∉ names hdr.name) (known : List (Item String)) :
    Contained cwd (resolve cwd target) known (hdrs.map (item cwd target)) := by
  induction hdrs generalizing known with
  | nil => trivial
  | cons hdr hdrs ih =>
    refine ⟨Or.inl ?_,fun _ => ih (fun hdr hm => h hdr (List.mem_cons_of_mem _ hm)) _⟩
    have hpath : (item cwd target hdr).path = (names hdr.name).foldl walk (resolve cwd target) :=
      resolve_join_walk ht cwd hdr.name
    rw [hpath]
    exact suffix_foldl_walk (h hdr List.mem_cons_self) _

/-- `Box.Spool` makes nothing outside the directory of the application, if no name of the
archive climbs. -/
theorem spool_stays {f : Formats} {o : Outside} {spoolPath profileSpool name : String}
    {fetched : Except String (List UInt8)} {cancelled : Bool} {tree : FileTree String} (hcwd : tree.node o.cwd = some .dir)
    (h : ∀ data, fetched = .ok data → ∀ hdr ∈ headers f data, ".." ∉ names hdr.name) :
    ∀ c ∈ (spool f o spoolPath (.ok profileSpool) fetched cancelled name ⟨tree,[]⟩).2.log,
      resolve o.cwd (join (if profileSpool ≠ "" then profileSpool else spoolPath) name) <:+ c.path := by
  generalize hbase : (if profileSpool ≠ "" then profileSpool else spoolPath) = base
  unfold spool
  dsimp only
  rw [hbase]
  cases fetched with
  | error e => exact nofun
  | ok data =>
    cases cancelled with
    | true => exact nofun
    | false =>
      have hstays : Stays f o data (join base name) tree := by
        apply Stays.of_contained hcwd
        by_cases ht : join base name = ""
        · exact Or.inl ht
        · exact Or.inr (Or.inr (contained_of_noClimb ht (h data rfl) _))
      exact hstays

end Stout.Process.Archive
