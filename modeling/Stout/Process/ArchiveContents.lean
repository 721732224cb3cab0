import Stout.Library.FileViews
import Stout.Process.ArchiveStays

/-! # What an archive is unpacked to

`unpackArchive` again, now with the bodies of the entries and with what is in the files.
Below the target there is then what the entries make of an empty directory, whatever was
there before; and nothing that fails on the way is passed over.
-/
namespace Stout.Process.Archive.Contents
open Prog FileTree
open Paths

structure Entry where
  header : Header
  body : Stream

/-- `Formats`, with the bodies of the entries. -/
structure Readers where
  gzipReader : List UInt8 → Except String Stream
  zlibReader : List UInt8 → Except String Stream
  tarReader : Stream → List Entry × Option String

def Readers.formats (r : Readers) : Formats :=
  ⟨r.gzipReader,r.zlibReader,fun stream => ((r.tarReader stream).1.map Entry.header,(r.tarReader stream).2)⟩

/-- What is in the files. Where there is no file it is not looked at. -/
structure Files where
  world : World
  content : List String → List UInt8

abbrev Run (α : Type) := Prog Files Failure α

/-- A call that changes no content. -/
def onTree {α : Type} (m : Archive.Run α) : Run α := Prog.zoom Files.world (fun s w => { s with world := w }) m

def write (path : List String) (bytes : List UInt8) : Run Unit :=
  Prog.modify fun s => { s with content := Function.update s.content path bytes }

/-- `os.OpenFile` with `O_CREATE`, `O_TRUNC` and `O_WRONLY`. -/
def openFile (o : Outside) (i : ℕ) (path : List String) (mode : ℕ) : Run Unit := do
  onTree (Archive.openFile o i path mode)
  write path []

/-- `io.Copy` of the body to the file. How much has been written when that fails is left
out. -/
def copy (o : Outside) (i : ℕ) (path : List String) (body : Stream) : Run Unit :=
  match o.fault (.copy i) with
  | some e => Prog.throw (.other e)
  | none => do
    write path body.bytes
    match body.error with
    | some e => Prog.throw (.other e)
    | none => pure ()

def unpackEntry (o : Outside) (target : String) (i : ℕ) (e : Entry) : Run Unit :=
  let path := join target e.header.name
  if e.header.isDir then onTree (mkdirAll o i e.header.mode (resolve o.cwd path))
  else do
    onTree (makeParent o i path)
    openFile o i (resolve o.cwd path) e.header.mode
    copy o i (resolve o.cwd path) e.body

def unpackEntries (o : Outside) (target : String) : ℕ → List Entry → Run Unit
  | _, [] => pure ()
  | i, e :: rest => do
    unpackEntry o target i e
    unpackEntries o target (i + 1) rest

def unpackStream (r : Readers) (o : Outside) (target : String) (stream : Stream) : Run Unit := do
  unpackEntries o target 0 (r.tarReader stream).1
  match (r.tarReader stream).2 with
  | none => pure ()
  | some e => Prog.throw (.other e)

/-- The target is removed and made again. -/
def renew (o : Outside) (target : String) : Run Unit := do
  onTree (removeAll o target)
  if target = "" then Prog.throw (.errno .noEntry)
  else onTree (mkdir o .mkdir (resolve o.cwd target) 0o755)

def unpackArchive (r : Readers) (o : Outside) (data : List UInt8) (target : String) : Run Unit := do
  renew o target
  match archiveReader data (constructors r.formats) with
  | none => Prog.crash Mtn.nilDereference
  | some stream => unpackStream r o target stream

/-! ## The model without contents -/

def reading (o : Outside) (entries : List Entry) : Outside :=
  { o with fault := fun
    | .copy i => (o.fault (.copy i)).or (entries[i]?.bind fun e => e.body.error)
    | p => o.fault p }

theorem mkdirAll_reading (o : Outside) (entries : List Entry) (i mode : ℕ) (path : List String) :
    mkdirAll (reading o entries) i mode path = mkdirAll o i mode path := by
  induction path with
  | nil => rfl
  | cons x path ih =>
    unfold mkdirAll
    rw [ih]
    rfl

theorem makeParent_reading (o : Outside) (entries : List Entry) (i : ℕ) (path : String) :
    makeParent (reading o entries) i path = makeParent o i path := by
  unfold makeParent
  simp only [mkdirAll_reading]
  rfl

theorem onTree_projects {α : Type} (m : Archive.Run α) : Projects Files.world (onTree m) m := .zoom (fun _ _ => rfl) m

theorem write_projects (path : List String) (bytes : List UInt8) : Projects Files.world (write path bytes) (pure ()) :=
  fun _ => rfl

theorem openFile_projects (o : Outside) (i : ℕ) (path : List String) (mode : ℕ) :
    Projects Files.world (openFile o i path mode) (Archive.openFile o i path mode) := by
  have h := (onTree_projects (Archive.openFile o i path mode)).bind fun _ => write_projects path []
  intro s
  rw [openFile, ← h s]
  rcases hr : Archive.openFile o i path mode s.world with ⟨r,w⟩
  cases r with
  | ok u => rw [bind_ok hr]; rfl
  | error e => rw [bind_error hr]
  | panic p => rw [bind_panic hr]

theorem copy_projects {o : Outside} {entries : List Entry} {i : ℕ} {e : Entry} (hi : entries[i]? = some e)
    (path : List String) : Projects Files.world (copy o i path e.body) (trying (reading o entries) (.copy i) (pure ())) := by
  have hfault : (reading o entries).fault (.copy i) = (o.fault (.copy i)).or e.body.error := by
    dsimp only [reading]
    rw [hi]
    rfl
  rw [trying, hfault, copy]
  cases o.fault (.copy i) with
  | some m => exact .throw _
  | none =>
    dsimp only [Option.none_or]
    cases e.body.error with
    | none => exact fun _ => rfl
    | some m => exact fun _ => rfl

theorem unpackEntry_projects {o : Outside} {entries : List Entry} {i : ℕ} {e : Entry} (hi : entries[i]? = some e)
    (target : String) :
    Projects Files.world (unpackEntry o target i e) (Archive.unpackEntry (reading o entries) target i e.header) := by
  unfold unpackEntry Archive.unpackEntry
  dsimp only
  split
  · rw [mkdirAll_reading]
    exact onTree_projects _
  · rw [makeParent_reading]
    exact (onTree_projects _).bind fun _ => (openFile_projects o i _ _).bind fun _ => copy_projects hi _

theorem unpackEntries_projects {o : Outside} {entries pre post : List Entry} (h : entries = pre ++ post) (target : String) :
    Projects Files.world (unpackEntries o target pre.length post)
      (Archive.unpackEntries (reading o entries) target pre.length (post.map Entry.header)) := by
  induction post generalizing pre with
  | nil => exact .pure ()
  | cons e post ih =>
    have hi : entries[pre.length]? = some e := by simp [h]
    refine (unpackEntry_projects hi target).bind fun _ => ?_
    have hsplit : entries = (pre ++ [e]) ++ post := by rw [h, List.append_assoc, List.singleton_append]
    have hrest := ih hsplit
    rwa [List.length_append] at hrest

def Readers.entries (r : Readers) (data : List UInt8) : List Entry :=
  match archiveReader data (constructors r.formats) with
  | none => []
  | some stream => (r.tarReader stream).1

/-- The error the archive ends with, where the next header cannot be read. -/
def Readers.headerError (r : Readers) (data : List UInt8) : Option String :=
  (archiveReader data (constructors r.formats)).bind fun stream => (r.tarReader stream).2

/-- Without the contents this is `Archive.unpackArchive`. -/
theorem unpackArchive_projects (r : Readers) (o : Outside) (data : List UInt8) (target : String) :
    Projects Files.world (unpackArchive r o data target)
      (Archive.unpackArchive r.formats (reading o (r.entries data)) data target) := by
  obtain ⟨stream,hs⟩ := archiveReader_isSome r.formats data
  have hentries : r.entries data = (r.tarReader stream).1 := by rw [Readers.entries, hs]
  have hstream : Projects Files.world (unpackStream r o target stream)
      (Archive.unpackStream r.formats (reading o (r.entries data)) target stream) := by
    have hsplit : r.entries data = [] ++ (r.tarReader stream).1 := hentries
    refine (unpackEntries_projects hsplit target).bind fun _ => ?_
    change Projects _ (match (r.tarReader stream).2 with | none => _ | some e => _)
      (match (r.tarReader stream).2 with | none => _ | some e => _)
    cases (r.tarReader stream).2 with
    | none => exact .pure ()
    | some e => exact .throw _
  unfold unpackArchive Archive.unpackArchive renew
  rw [hs, Prog.bind_assoc]
  refine (onTree_projects _).bind fun _ => ?_
  by_cases ht : target = ""
  · rw [if_pos ht, if_pos ht]
    exact fun _ => rfl
  · rw [if_neg ht, if_neg ht]
    exact (onTree_projects _).bind fun _ => hstream

/-! ## No panics -/

section Safe
variable {o : Outside}

theorem trying_safe {α : Type} {p : Point} {m : Archive.Run α} (h : Safe (fun _ => True) m) :
    Safe (fun _ => True) (trying o p m) := by
  unfold trying
  split
  · exact .throw _
  · exact h

theorem change_safe (p : Point) (f : FileTree String → Except Errno (FileTree String)) (c : Call) :
    Safe (fun _ => True) (change o p f c) := by
  apply trying_safe
  refine Safe.read.seq fun w => ?_
  split
  · exact .modify _
  · exact .throw _

theorem mkdirAll_safe (i mode : ℕ) (path : List String) : Safe (fun _ => True) (mkdirAll o i mode path) := by
  induction path with
  | nil => exact .pure ()
  | cons x path ih =>
    unfold mkdirAll
    refine Safe.read.seq fun w => ?_
    split
    · exact .pure ()
    · exact .throw _
    · exact ih.seq fun _ => change_safe _ _ _

theorem makeParent_safe (i : ℕ) (path : String) : Safe (fun _ => True) (makeParent o i path) := by
  have hstat : Safe (fun _ => True) (stat o i (resolve o.cwd (dir path))) := by
    apply trying_safe
    refine Safe.read.seq fun w => ?_
    split
    · exact .pure _
    · exact .throw _
  unfold makeParent
  dsimp only
  split
  · exact .pure ()
  · refine hstat.attempt.seq fun r => ?_
    cases r with
    | ok n => exact .pure ()
    | error e =>
      dsimp only
      split
      · exact mkdirAll_safe i _ _
      · exact .throw e

theorem unpackEntries_safe (target : String) (i : ℕ) (hdrs : List Header) :
    Safe (fun _ => True) (Archive.unpackEntries o target i hdrs) := by
  induction hdrs generalizing i with
  | nil => exact .pure ()
  | cons hdr hdrs ih =>
    refine Safe.seq ?_ fun _ => ih (i + 1)
    unfold Archive.unpackEntry
    dsimp only
    split
    · exact mkdirAll_safe i _ _
    · exact (makeParent_safe i _).seq fun _ => (change_safe _ _ _).seq fun _ => trying_safe (.pure ())

theorem unpackArchive_safe (f : Formats) (data : List UInt8) (target : String) :
    Safe (fun _ => True) (Archive.unpackArchive f o data target) := by
  have hremove : Safe (fun _ => True) (removeAll o target) := by
    unfold removeAll
    split
    · exact .pure ()
    split
    · exact .throw _
    split
    · exact .throw _
    apply trying_safe
    refine Safe.read.seq fun w => ?_
    split
    · exact .modify _
    · exact .throw _
  obtain ⟨stream,hs⟩ := archiveReader_isSome f data
  unfold Archive.unpackArchive Archive.unpackStream
  rw [hs]
  refine hremove.seq fun _ => ?_
  split
  · exact .throw _
  · refine (change_safe _ _ _).seq fun _ => (unpackEntries_safe target 0 _).seq fun _ => ?_
    split
    · exact .pure ()
    · exact .throw _

end Safe

theorem unpackArchive_ends (r : Readers) (o : Outside) (data : List UInt8) (target : String) (s : Files) :
    (∃ e t, unpackArchive r o data target s = (.error e,t)) ∨ ∃ t, unpackArchive r o data target s = (.ok (),t) := by
  have hsafe := (unpackArchive_projects r o data target).safe (unpackArchive_safe _ _ _) s trivial
  rcases hr : unpackArchive r o data target s with ⟨x,t⟩
  cases x with
  | ok u => exact Or.inr ⟨t,rfl⟩
  | error e => exact Or.inl ⟨e,t,rfl⟩
  | panic p => exact absurd (congrArg Prod.fst hr) (hsafe p)

/-! ## What has not failed -/

/-- Something fails at the entry, which comes to the world: a directory or the file cannot
be made, or the body cannot be read or written. -/
def Fails (o : Outside) (target : String) (i : ℕ) (e : Entry) (w : World) : Prop :=
  let path := join target e.header.name
  if e.header.isDir then ∃ x t, mkdirAll o i e.header.mode (resolve o.cwd path) w = (.error x,t)
  else
    (∃ x t, makeParent o i path w = (.error x,t)) ∨
    (∃ v, makeParent o i path w = (.ok (),v) ∧ ∃ x t, Archive.openFile o i (resolve o.cwd path) e.header.mode v = (.error x,t)) ∨
    o.fault (.copy i) ≠ none ∨ e.body.error ≠ none

theorem onTree_ok {α : Type} {m : Archive.Run α} {s t : Files} {a : α} (h : onTree m s = (.ok a,t)) :
    m s.world = (.ok a,t.world) ∧ t.content = s.content := by
  obtain ⟨u,hu,rfl⟩ := of_zoom_ok h
  exact ⟨hu,rfl⟩

theorem openFile_ok {o : Outside} {i mode : ℕ} {path : List String} {s t : Files} {u : Unit}
    (h : openFile o i path mode s = (.ok u,t)) :
    Archive.openFile o i path mode s.world = (.ok (),t.world) ∧ t.content = Function.update s.content path [] := by
  obtain ⟨_,v,hopen,hw⟩ := of_bind_ok h
  obtain ⟨hopen,hc⟩ := onTree_ok hopen
  cases hw
  rw [← hc]
  exact ⟨hopen,rfl⟩

theorem copy_ok {o : Outside} {i : ℕ} {path : List String} {body : Stream} {s t : Files} {u : Unit}
    (h : copy o i path body s = (.ok u,t)) :
    o.fault (.copy i) = none ∧ body.error = none ∧ t.world = s.world ∧ t.content = Function.update s.content path body.bytes := by
  unfold copy at h
  cases hf : o.fault (.copy i) with
  | some e =>
    rw [hf] at h
    cases h
  | none =>
    rw [hf] at h
    obtain ⟨_,v,hw,h⟩ := of_bind_ok h
    cases hw
    cases he : body.error with
    | some e =>
      rw [he] at h
      cases h
    | none =>
      rw [he] at h
      cases h
      exact ⟨rfl,rfl,rfl,rfl⟩

theorem unpackEntry_ok {o : Outside} {target : String} {i : ℕ} {e : Entry} {s t : Files} {u : Unit}
    (h : unpackEntry o target i e s = (.ok u,t)) :
    (e.header.isDir = true ∧ mkdirAll o i e.header.mode (resolve o.cwd (join target e.header.name)) s.world = (.ok (),t.world) ∧
      t.content = s.content) ∨
    (e.header.isDir = false ∧ o.fault (.copy i) = none ∧ e.body.error = none ∧
      t.content = Function.update s.content (resolve o.cwd (join target e.header.name)) e.body.bytes ∧
      ∃ v, makeParent o i (join target e.header.name) s.world = (.ok (),v) ∧
        Archive.openFile o i (resolve o.cwd (join target e.header.name)) e.header.mode v = (.ok (),t.world)) := by
  unfold unpackEntry at h
  cases hd : e.header.isDir with
  | true =>
    rw [if_pos hd] at h
    obtain ⟨hm,hc⟩ := onTree_ok h
    exact Or.inl ⟨rfl,hm,hc⟩
  | false =>
    rw [if_neg (by simp [hd])] at h
    obtain ⟨_,s₁,hparent,h⟩ := of_bind_ok h
    obtain ⟨_,s₂,hopen,hcopy⟩ := of_bind_ok h
    obtain ⟨hparent,hc₁⟩ := onTree_ok hparent
    obtain ⟨hopen,hc₂⟩ := openFile_ok hopen
    obtain ⟨hf,he,hw,hc⟩ := copy_ok hcopy
    refine Or.inr ⟨rfl,hf,he,?_,s₁.world,hparent,hw ▸ hopen⟩
    rw [hc, hc₂, Function.update_idem, hc₁]

theorem not_fails {o : Outside} {target : String} {i : ℕ} {e : Entry} {s t : Files} {u : Unit}
    (h : unpackEntry o target i e s = (.ok u,t)) : ¬Fails o target i e s.world := by
  unfold Fails
  rcases unpackEntry_ok h with ⟨hd,hm,-⟩ | ⟨hd,hf,he,-,v,hp,ho⟩
  · rw [if_pos hd]
    rintro ⟨x,w,hx⟩
    rw [hm] at hx
    cases hx
  · rw [if_neg (by simp [hd])]
    rintro (⟨x,w,hx⟩ | ⟨v',hv,x,w,hx⟩ | hx | hx)
    · rw [hp] at hx
      cases hx
    · rw [hp] at hv
      cases hv
      rw [ho] at hx
      cases hx
    · exact hx hf
    · exact hx he

theorem unpackEntries_reach {o : Outside} {target : String} {i : ℕ} {pre post : List Entry} {e : Entry} {s t : Files} {u : Unit}
    (h : unpackEntries o target i (pre ++ e :: post) s = (.ok u,t)) :
    ∃ v w, unpackEntries o target i pre s = (.ok (),v) ∧ unpackEntry o target (i + pre.length) e v = (.ok (),w) := by
  induction pre generalizing i s with
  | nil =>
    obtain ⟨_,w,he,-⟩ := of_bind_ok h
    exact ⟨s,w,rfl,he⟩
  | cons f pre ih =>
    obtain ⟨_,s₁,hf,h⟩ := of_bind_ok h
    obtain ⟨v,w,hpre,he⟩ := ih h
    refine ⟨v,w,?_,?_⟩
    · rw [unpackEntries, bind_ok hf, hpre]
    · rw [List.length_cons, Nat.add_comm pre.length 1, ← Nat.add_assoc]
      exact he

theorem unpackArchive_ok {r : Readers} {o : Outside} {data : List UInt8} {target : String} {s t : Files} {u : Unit}
    (h : unpackArchive r o data target s = (.ok u,t)) :
    r.headerError data = none ∧ ∃ v, renew o target s = (.ok (),v) ∧
      unpackEntries o target 0 (r.entries data) v = (.ok (),t) := by
  obtain ⟨stream,hs⟩ := archiveReader_isSome r.formats data
  obtain ⟨_,v,hrenew,h⟩ := of_bind_ok h
  rw [hs] at h
  obtain ⟨_,w,hentries,hend⟩ := of_bind_ok h
  rw [Readers.headerError, Readers.entries, hs]
  cases he : (r.tarReader stream).2 with
  | some e =>
    rw [he] at hend
    cases hend
  | none =>
    rw [he] at hend
    cases hend
    exact ⟨he,v,hrenew,hentries⟩

/-! ## The tree that results -/

def within (name : String) : List String := ((names name).filter fun n => n ≠ "" ∧ n ≠ ".").reverse

theorem foldl_walk_eq {ns : List String} (h : ".." ∉ ns) (place : List String) :
    ns.foldl walk place = (ns.filter fun n => n ≠ "" ∧ n ≠ ".").reverse ++ place := by
  induction ns generalizing place with
  | nil => rfl
  | cons n ns ih =>
    have hn : n ≠ ".." := fun he => h (he ▸ List.mem_cons_self)
    rw [List.foldl_cons, ih fun hm => h (List.mem_cons_of_mem n hm), walk]
    by_cases hp : n = "" ∨ n = "."
    · rw [if_pos hp, List.filter_cons_of_neg]
      simp only [decide_eq_true_eq]
      tauto
    · rw [if_neg hp, if_neg hn, List.filter_cons_of_pos, List.reverse_cons, List.append_assoc]
      · rfl
      · simp only [decide_eq_true_eq]
        tauto

theorem resolve_join_within {target name : String} (ht : target ≠ "") (h : ".." ∉ names name) (cwd : List String) :
    resolve cwd (join target name) = within name ++ resolve cwd target := by
  rw [resolve_join_walk ht, foldl_walk_eq h]
  rfl

/-- What an entry makes of a directory, if nothing is in the way. -/
def apply (d : View String (List UInt8)) (e : Entry) : Option (View String (List UInt8)) :=
  if e.header.isDir then d.addDir (within e.header.name) else d.addFile (within e.header.name) e.body.bytes

/-- The entries in order, from an empty directory. -/
def applyAll (entries : List Entry) : Option (View String (List UInt8)) := entries.foldlM apply View.empty

theorem node_of_spreads {v w : World} {path q : List String} (hg : Grown v w) (hs : Spreads path v w) (hq : ¬q <:+ path) :
    w.tree.node q = v.tree.node q := by
  cases hv : v.tree.node q with
  | some n => exact hg.tree q n hv
  | none =>
    cases hw : w.tree.node q with
    | none => rfl
    | some n =>
      rcases hs q (by rw [hw]; rfl) with h | h
      · rw [hv] at h
        cases h
      · exact absurd h hq

theorem mkdirAll_node {o : Outside} {v w : World} {i mode : ℕ} {path : List String} {u : Unit}
    (h : mkdirAll o i mode path v = (.ok u,w)) (q : List String) :
    w.tree.node q = if q <:+ path then some .dir else v.tree.node q := by
  by_cases hq : q <:+ path
  · rw [if_pos hq]
    exact dir_of_suffix hq (mkdirAll_ok h)
  · rw [if_neg hq]
    exact node_of_spreads ((mkdirAll_grown i mode path).of_eq h) ((mkdirAll_spreads i mode path).of_eq h) hq

section Shows
variable {o : Outside} {target : String} {d : View String (List UInt8)}

theorem unpackEntry_shows {i : ℕ} {e : Entry} {s t : Files} {u : Unit} (ht : target ≠ "") (hn : ".." ∉ names e.header.name)
    (hplace : s.world.tree.node (resolve o.cwd target) = some .dir)
    (hs : s.world.tree.Shows s.content (resolve o.cwd target) d) (h : unpackEntry o target i e s = (.ok u,t)) :
    t.world.tree.node (resolve o.cwd target) = some .dir ∧
    ∃ d', apply d e = some d' ∧ t.world.tree.Shows t.content (resolve o.cwd target) d' := by
  have hpath := resolve_join_within ht hn o.cwd
  rcases unpackEntry_ok h with ⟨hd,hm,hc⟩ | ⟨hd,-,-,hc,v,hp,ho⟩
  · have hg := ((mkdirAll_grown i _ _).of_eq hm).tree
    refine ⟨hg _ _ hplace,?_⟩
    rw [hpath] at hm
    rw [apply, if_pos hd, hc]
    exact hs.addDir hg (mkdirAll_node hm)
  · have hg₁ := (makeParent_grown i _).of_eq hp
    obtain ⟨tree,hopen,hw⟩ := change_ok ho
    have hadds := FileTree.openFile_ok hopen
    have hg : s.world.tree.Grows t.world.tree := by
      rw [hw]
      exact hg₁.tree.trans hadds.grows
    have hfile : t.world.tree.node (within e.header.name ++ resolve o.cwd target) = some .file := by
      rw [hw, ← hpath]
      exact hadds.here
    refine ⟨hg _ _ hplace,?_⟩
    have hbytes : e.body.bytes = t.content (within e.header.name ++ resolve o.cwd target) := by
      rw [hc, hpath, Function.update_self]
    rw [apply, if_neg (by simp [hd]), hbytes]
    refine hs.addFile hplace hg hfile (fun q hq => ?_) fun q hq => ?_
    · rw [← hpath] at hq
      -- the directory the file is made in is above it, for it is not the target itself
      have hdir : resolve o.cwd (dir (join target e.header.name)) <:+ resolve o.cwd (join target e.header.name) := by
        rcases dir_join_cases ht o.cwd e.header.name with he | ⟨hup,-⟩
        · rw [he]
          exact List.tail_suffix _
        · have hbad := dir_of_suffix hup (hg _ _ hplace)
          rw [hpath, hfile] at hbad
          cases hbad
      rw [hw]
      have hne : q ≠ resolve o.cwd (join target e.header.name) := fun he => hq (he ▸ List.suffix_rfl)
      rw [hadds.only q hne]
      exact node_of_spreads hg₁ ((makeParent_spreads i _).of_eq hp) fun hqd => hq (hqd.trans hdir)
    · rw [hc, hpath, Function.update_of_ne hq]

theorem unpackEntries_shows {i : ℕ} {entries : List Entry} {s t : Files} {u : Unit} (ht : target ≠ "")
    (hn : ∀ e ∈ entries, ".." ∉ names e.header.name) (hplace : s.world.tree.node (resolve o.cwd target) = some .dir)
    (hs : s.world.tree.Shows s.content (resolve o.cwd target) d) (h : unpackEntries o target i entries s = (.ok u,t)) :
    ∃ d', entries.foldlM apply d = some d' ∧ t.world.tree.Shows t.content (resolve o.cwd target) d' := by
  induction entries generalizing i s d with
  | nil =>
    cases h
    exact ⟨d,rfl,hs⟩
  | cons e entries ih =>
    obtain ⟨_,s₁,he,h⟩ := of_bind_ok h
    obtain ⟨hplace₁,d₁,hd₁,hs₁⟩ := unpackEntry_shows ht (hn e List.mem_cons_self) hplace hs he
    rw [List.foldlM_cons, hd₁]
    exact ih (fun e hm => hn e (List.mem_cons_of_mem _ hm)) hplace₁ hs₁ h

theorem renew_ok {s t : Files} {u : Unit} (h : renew o target s = (.ok u,t)) :
    target ≠ "" ∧ t.world.tree.node (resolve o.cwd target) = some .dir ∧
      t.world.tree.Shows t.content (resolve o.cwd target) View.empty := by
  obtain ⟨_,s₁,hremove,h⟩ := of_bind_ok h
  by_cases ht : target = ""
  · rw [if_pos ht] at h
    cases h
  rw [if_neg ht] at h
  obtain ⟨hremove,-⟩ := onTree_ok hremove
  obtain ⟨hmk,-⟩ := onTree_ok h
  obtain ⟨tree,hmk,hw⟩ := change_ok hmk
  obtain ⟨hadds,-⟩ := mkdir_ok hmk
  have hgone : ∀ q, resolve o.cwd target <:+ q → s₁.world.tree.node q = none := by
    intro q hq
    rcases removeAll_cases ht s.world with ⟨tree,htree,hr⟩ | ⟨e,hr⟩
    · have hw : s₁.world = ⟨tree,s.world.log⟩ := congrArg Prod.snd (hremove.symm.trans hr)
      rw [hw, FileTree.removeAll_ok htree, if_pos hq]
    · rw [hremove] at hr
      cases hr
  have hplace : t.world.tree.node (resolve o.cwd target) = some .dir := by
    rw [hw]
    exact hadds.here
  refine ⟨ht,hplace,.of_new hplace fun q hq => ?_⟩
  have hne : q ++ resolve o.cwd target ≠ resolve o.cwd target := fun he => hq (List.append_left_eq_self.mp he)
  rw [hw, hadds.only _ hne]
  exact hgone _ (List.suffix_append _ _)

end Shows

/-- An archive is unpacked or there is an error. When it is unpacked nothing has failed on
the way; and if besides no name climbs, there is below the target what the entries make of
an empty directory. -/
theorem unpackArchive_applies (r : Readers) (o : Outside) (data : List UInt8) (target : String) (s : Files) :
    (∃ e t, unpackArchive r o data target s = (.error e,t)) ∨
    ∃ t, unpackArchive r o data target s = (.ok (),t) ∧
      (r.headerError data = none ∧ ∀ pre e post, r.entries data = pre ++ e :: post →
        ∃ v, (renew o target >>= fun _ => unpackEntries o target 0 pre) s = (.ok (),v) ∧
          ¬Fails o target pre.length e v.world) ∧
      ((∀ e ∈ r.entries data, ".." ∉ names e.header.name) →
        ∃ d, applyAll (r.entries data) = some d ∧ ∀ q, t.world.tree.look t.content (q ++ resolve o.cwd target) = d q) := by
  rcases unpackArchive_ends r o data target s with herr | ⟨t,h⟩
  · exact Or.inl herr
  obtain ⟨hhdr,v,hrenew,hentries⟩ := unpackArchive_ok h
  refine Or.inr ⟨t,h,⟨hhdr,fun pre e post he => ?_⟩,fun hn => ?_⟩
  · rw [he] at hentries
    obtain ⟨w,x,hpre,hentry⟩ := unpackEntries_reach hentries
    rw [Nat.zero_add] at hentry
    refine ⟨w,?_,not_fails hentry⟩
    rw [bind_ok hrenew, hpre]
  · obtain ⟨ht,hplace,hempty⟩ := renew_ok hrenew
    exact unpackEntries_shows ht hn hplace hempty hentries

/-- A plain archive with a file that comes twice, in a directory that does not come, and
with a directory. -/
def twice : Readers :=
  ⟨fun _ => .error "gzip: invalid header",fun _ => .error "zlib: invalid header",fun _ =>
    ([⟨⟨"a/b",false,0o644⟩,⟨[1,2,3],none⟩⟩,⟨⟨"./c/",true,0o755⟩,⟨[],none⟩⟩,⟨⟨"/a/b",false,0o644⟩,⟨[9],none⟩⟩],none)⟩

/-- The later file is there, and what the target had before is gone. -/
theorem unpackArchive_applies_twice :
    ∃ t, unpackArchive twice (free []) [] "/spool/app" ⟨⟨above [["old","app","spool"]],[]⟩,fun _ => []⟩ = (.ok (),t) ∧
      t.world.tree.look t.content ["b","a","app","spool"] = some (.file [9]) ∧
      t.world.tree.look t.content ["c","app","spool"] = some .dir ∧
      t.world.tree.look t.content ["old","app","spool"] = none := by
  rcases unpackArchive_applies twice (free []) [] "/spool/app" ⟨⟨above [["old","app","spool"]],[]⟩,fun _ => []⟩ with
    ⟨e,t,h⟩ | ⟨t,h,-,hd⟩
  · have hok : (unpackArchive twice (free []) [] "/spool/app" ⟨⟨above [["old","app","spool"]],[]⟩,fun _ => []⟩).1 = .ok () := by
      decide +kernel
    rw [h] at hok
    cases hok
  · obtain ⟨d,hd,hlook⟩ := hd (by decide +kernel)
    have hview (q : List String) : t.world.tree.look t.content (q ++ ["app","spool"]) =
        (applyAll (twice.entries [])).bind fun d => d q := by
      rw [hd]
      exact hlook q
    exact ⟨t,h,(hview ["b","a"]).trans (by decide +kernel),(hview ["c"]).trans (by decide +kernel),
      (hview ["old"]).trans (by decide +kernel)⟩

end Stout.Process.Archive.Contents
