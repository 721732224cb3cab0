import Stout.Library.Files
import Stout.Library.Paths
import Stout.Library.SingleFlightResults

/-! # The repository of blobs

`blobRepo` of `porto/repository.go`: `Get` looks for the file of a digest in the spool and
otherwise waits for a download; `fetch` copies the stream of the blob to a file with a name
of its own and renames it. A digest is any text, as the manifest has it. Files are known by
their paths and written through the file that was opened, and the streams that the registry
has opened are recorded.
-/
namespace Stout.Porto.BlobRepo
open Paths
open SingleFlight

/-! ## Digests -/

def isAlgorithmChar (c : Char) : Bool := c.isAlphanum || c == '-' || c == '_' || c == '+' || c == '.'

def isHexChar (c : Char) : Bool := c.isDigit || ('a' ≤ c && c ≤ 'f') || ('A' ≤ c && c ≤ 'F')

/-- `DigestRegexpAnchored`: an algorithm, a colon and hexadecimal digits. -/
def matchesDigest (s : String) : Bool :=
  let algorithm := s.toList.takeWhile (· ≠ ':')
  match s.toList.dropWhile (· ≠ ':') with
  | [] => false
  | _ :: hex => !algorithm.isEmpty && algorithm.all isAlgorithmChar && !hex.isEmpty && hex.all isHexChar

/-- What `fetch` prints its random number after. -/
def tempName (dgst : String) (n : ℕ) : String := dgst ++ "-" ++ toString n

theorem append_cons_unique {α : Type*} {c : α} {x y z u : List α} (hx : c ∉ x) (hy : c ∉ y)
    (h : x ++ c :: z = y ++ c :: u) : x = y ∧ z = u := by
  induction x generalizing y with
  | nil =>
    cases y with
    | nil => exact ⟨rfl,(List.cons.inj h).2⟩
    | cons b y => exact absurd (List.mem_cons.mpr (Or.inl (List.cons.inj h).1)) hy
  | cons a x ih =>
    cases y with
    | nil => exact absurd (List.mem_cons.mpr (Or.inl (List.cons.inj h).1.symm)) hx
    | cons b y =>
      obtain ⟨hab,hrest⟩ := List.cons.inj h
      obtain ⟨hxy,hzu⟩ := ih (fun hm => hx (List.mem_cons_of_mem a hm)) (fun hm => hy (List.mem_cons_of_mem b hm)) hrest
      exact ⟨by rw [hab, hxy],hzu⟩

section Digests
variable {d e : String} {n m : ℕ} (hd : matchesDigest d = true) (he : matchesDigest e = true)

theorem split_of_matches (hd : matchesDigest d = true) :
    ∃ a h, d.toList = a ++ ':' :: h ∧ ':' ∉ a ∧ '-' ∉ h ∧ '/' ∉ d.toList := by
  have happ : d.toList.takeWhile (· ≠ ':') ++ d.toList.dropWhile (· ≠ ':') = d.toList :=
    List.takeWhile_append_dropWhile
  have hcolon : ':' ∉ d.toList.takeWhile (· ≠ ':') := fun hmem => by
    have hp := List.mem_takeWhile_imp hmem
    simp at hp
  unfold matchesDigest at hd
  cases hdrop : d.toList.dropWhile (· ≠ ':') with
  | nil =>
    rw [hdrop] at hd
    cases hd
  | cons c hex =>
    have hc : c = ':' := by
      have hhead := List.head?_dropWhile_not (fun c => decide (c ≠ ':')) d.toList
      rw [hdrop] at hhead
      simpa using hhead
    rw [hdrop] at hd happ
    subst hc
    simp only [Bool.and_eq_true, List.all_eq_true] at hd
    obtain ⟨⟨⟨-,halgorithm⟩,-⟩,hhex⟩ := hd
    have hslash : isAlgorithmChar '/' = false ∧ isHexChar '/' = false ∧ isHexChar '-' = false := by decide
    refine ⟨_,hex,happ.symm,hcolon,fun hmem => ?_,fun hmem => ?_⟩
    · rw [hhex '-' hmem] at hslash
      cases hslash.2.2
    · rw [← happ, List.mem_append, List.mem_cons] at hmem
      rcases hmem with hmem | hmem | hmem
      · rw [halgorithm '/' hmem] at hslash
        cases hslash.1
      · cases hmem
      · rw [hhex '/' hmem] at hslash
        cases hslash.2.1

theorem toList_tempName (d : String) (n : ℕ) : (tempName d n).toList = d.toList ++ '-' :: (toString n).toList := by
  simp [tempName, String.toList_append]

theorem plain_of_colon {s : String} (hcolon : ':' ∈ s.toList) (hslash : '/' ∉ s.toList) : Plain s ∧ s ≠ ".." := by
  refine ⟨⟨?_,?_,hslash⟩,?_⟩ <;> rintro rfl <;> revert hcolon <;> decide

include hd in
theorem plain_of_matches : Plain d ∧ d ≠ ".." := by
  obtain ⟨a,h,hsplit,-,-,hslash⟩ := split_of_matches hd
  exact plain_of_colon (by simp [hsplit]) hslash

include hd in
theorem plain_tempName (n : ℕ) : Plain (tempName d n) ∧ tempName d n ≠ ".." := by
  obtain ⟨a,h,hsplit,-,-,hslash⟩ := split_of_matches hd
  refine plain_of_colon (by simp [toList_tempName, hsplit]) ?_
  rw [toList_tempName, List.mem_append, List.mem_cons]
  rintro (hmem | hmem | hmem)
  · exact hslash hmem
  · cases hmem
  · have hdigit := Nat.isDigit_of_mem_toDigits (by decide) (by decide) (show '/' ∈ Nat.toDigits 10 n by simpa using hmem)
    exact absurd hdigit (by decide)

include hd he in
/-- No file that is being written has the name of a result. -/
theorem tempName_ne (n : ℕ) : tempName d n ≠ e := by
  intro heq
  obtain ⟨a,h,hsplit,ha,-⟩ := split_of_matches hd
  obtain ⟨a',h',hsplit',ha',hh',-⟩ := split_of_matches he
  have hl := congrArg String.toList heq
  rw [toList_tempName, hsplit, hsplit', List.append_assoc, List.cons_append] at hl
  obtain ⟨-,hrest⟩ := append_cons_unique ha ha' hl
  exact hh' (by rw [← hrest]; simp)

include hd he in
theorem eq_of_tempName (heq : tempName d n = tempName e m) : d = e := by
  obtain ⟨a,h,hsplit,ha,hh,-⟩ := split_of_matches hd
  obtain ⟨a',h',hsplit',ha',hh',-⟩ := split_of_matches he
  have hl := congrArg String.toList heq
  rw [toList_tempName, toList_tempName, hsplit, hsplit', List.append_assoc, List.append_assoc, List.cons_append,
    List.cons_append] at hl
  obtain ⟨haa,hrest⟩ := append_cons_unique ha ha' hl
  obtain ⟨hhh,-⟩ := append_cons_unique hh hh' hrest
  exact String.toList_inj.mp (by rw [hsplit, hsplit', haa, hhh])

end Digests

/-! ## fetch -/

/-- The directory of the blobs, which `NewBlobRepository` asks for. -/
structure Repo where
  spoolPath : String
  configured : spoolPath ≠ ""

def Repo.path (r : Repo) (dgst : String) : String := join r.spoolPath dgst

def Repo.tempFilePath (r : Repo) (dgst : String) (n : ℕ) : String := join r.spoolPath (tempName dgst n)

/-- The files and the directories, and the streams opened so far with their digests. -/
structure Spool where
  files : Files String UInt8
  dirs : List String
  opened : List (String × List UInt8)

abbrev Res := Except String String

/-- Where `fetch` is; from `opening` on it has chosen the number `n` and has the file `i`
open, and of the stream `pos` bytes are copied. -/
inductive FetchPc where
  | creating
  | opening (n i : ℕ)
  | copying (n i : ℕ) (blob : List UInt8) (pos : ℕ)
  | moving (n i : ℕ)
  | removing (n : ℕ) (res : Res)
deriving DecidableEq

inductive Event where
  | lstat (err : Option String)
  | create (n : ℕ) (err : Option String)
  | openBlob (blob : Except String (List UInt8))
  | copy (k : ℕ)
  | copyError (err : String)
  | eof
  | rename (err : Option String)
  | remove
deriving DecidableEq

/-- A write at a position of a file; what is between its end and the position is zero. -/
def writeAt (file : List UInt8) (pos : ℕ) (bytes : List UInt8) : List UInt8 :=
  (file ++ List.replicate (pos - file.length) 0).take pos ++ bytes ++ file.drop (pos + bytes.length)

/-- One operation of `fetch`. `io.Copy` writes what it has read, some bytes at a time; after
it the file is removed under its first name, whether or not it has been renamed. A file
cannot be created or moved where there is a directory. -/
def fetchNext (r : Repo) (d : String) (st : Spool) : FetchPc → Event → Option (Spool × (FetchPc ⊕ Res))
  | .creating, .create _ (some err) => some (st,.inr (.error err))
  | .creating, .create n none =>
    if r.tempFilePath d n ∈ st.dirs then none
    else ((st.files.create (r.tempFilePath d n)).name (r.tempFilePath d n)).map fun i =>
      ({ st with files := st.files.create (r.tempFilePath d n) },.inl (.opening n i))
  | .opening n _, .openBlob (.error err) => some (st,.inl (.removing n (.error err)))
  | .opening n i, .openBlob (.ok blob) =>
    some ({ st with opened := st.opened ++ [(d,blob)] },.inl (.copying n i blob 0))
  | .copying n i blob pos, .copy k =>
    if 0 < k ∧ pos + k ≤ blob.length then
      some ({ st with files := st.files.write i (writeAt (st.files.file i) pos ((blob.drop pos).take k)) },
        .inl (.copying n i blob (pos + k)))
    else none
  | .copying n _ _ _, .copyError err => some (st,.inl (.removing n (.error err)))
  | .copying n i blob pos, .eof => if pos = blob.length then some (st,.inl (.moving n i)) else none
  | .moving n _, .rename (some err) => some (st,.inl (.removing n (.error err)))
  | .moving n _, .rename none =>
    if r.path d ∈ st.dirs ∨ st.files.name (r.tempFilePath d n) = none then none
    else some ({ st with files := st.files.move (r.tempFilePath d n) (r.path d) },.inl (.removing n (.ok (r.path d))))
  | .removing n res, .remove => some ({ st with files := st.files.remove (r.tempFilePath d n) },.inr res)
  | _, _ => none

/-- `Lstat` says that there is something under the path, that there is not, or fails. -/
def lstat (r : Repo) (d : String) (st : Spool) : Event → Option (Option Res)
  | .lstat (some err) => some (some (.error err))
  | .lstat none =>
    if r.path d ∈ st.dirs ∨ (st.files.name (r.path d)).isSome = true then some (some (.ok (r.path d))) else some none
  | _ => none

/-- `Get` with `download` and `fetch`. -/
def getWork (r : Repo) : Work String Spool FetchPc Event Res := ⟨lstat r,.creating,fetchNext r⟩

/-! ## Complete copies -/

/-- Under the path is a file that is a stream of the blob, all of it. -/
def Copied (st : Spool) (d path : String) : Prop := ∃ bytes, st.files.read path = some bytes ∧ (d,bytes) ∈ st.opened

/-- Under the path of a digest there is nothing or a complete copy, and no two paths lead to
one file. -/
structure Whole (r : Repo) (st : Spool) : Prop where
  distinct : st.files.Distinct
  files : ∀ d bytes, matchesDigest d = true → st.files.read (r.path d) = some bytes → (d,bytes) ∈ st.opened
  dirs : ∀ d, matchesDigest d = true → r.path d ∉ st.dirs

/-- A result without an error is the path of a complete copy. -/
def Good (r : Repo) (d : String) (res : Res) (st : Spool) : Prop :=
  ∀ path, res = .ok path → path = r.path d ∧ Copied st d path

def Knows (r : Repo) (d : String) : FetchPc → Spool → Prop
  | .creating, _ => True
  | .opening n i, st => st.files.entry (r.tempFilePath d n) = some (i,[])
  | .copying n i blob pos, st =>
    st.files.entry (r.tempFilePath d n) = some (i,blob.take pos) ∧ pos ≤ blob.length ∧ (d,blob) ∈ st.opened
  | .moving n i, st => ∃ blob, st.files.entry (r.tempFilePath d n) = some (i,blob) ∧ (d,blob) ∈ st.opened
  | .removing _ res, st => Good r d res st

/-- What `fetch` for `d` can do to the spool: its own files, and a complete copy under the
path of the result. -/
structure Touches (r : Repo) (d : String) (st st' : Spool) : Prop where
  opened : st.opened ⊆ st'.opened
  dirs : st'.dirs = st.dirs
  distinct : st'.files.Distinct
  files : ∀ path, (∀ n, path ≠ r.tempFilePath d n) →
    st'.files.entry path = st.files.entry path ∨ (path = r.path d ∧ Copied st' d path)

section Fetch
variable {r : Repo} {d e : String} {st st' : Spool} {pc : FetchPc} {ev : Event} {x : FetchPc ⊕ Res}

theorem read_of_entry {files : Files String UInt8} {path : String} : files.read path = (files.entry path).map Prod.snd := by
  rw [Files.read, Files.entry, Option.map_map]
  rfl

theorem writeAt_end (file bytes : List UInt8) : writeAt file file.length bytes = file ++ bytes := by
  simp [writeAt]

theorem touches_refl (hdis : st.files.Distinct) : Touches r d st st :=
  ⟨List.Subset.refl _,rfl,hdis,fun _ _ => Or.inl rfl⟩

theorem touches_temp {files : Files String UInt8} (hdis : files.Distinct)
    (h : ∀ path, (∀ n, path ≠ r.tempFilePath d n) → files.entry path = st.files.entry path) :
    Touches r d st { st with files := files } :=
  ⟨List.Subset.refl _,rfl,hdis,fun path hn => Or.inl (h path hn)⟩

theorem fetchNext_touches (hdis : st.files.Distinct) (hk : Knows r d pc st) (h : fetchNext r d st pc ev = some (st',x)) :
    Touches r d st st' := by
  unfold fetchNext at h
  split at h
  case h_1 => cases h; exact touches_refl hdis
  case h_2 n =>
    obtain ⟨-,h⟩ := Option.ite_none_left_eq_some.mp h
    obtain ⟨i,-,h⟩ := Option.map_eq_some_iff.mp h
    cases h
    exact touches_temp (hdis.create _) fun path hn => hdis.entry_create_of_ne (hn n)
  case h_3 => cases h; exact touches_refl hdis
  case h_4 => cases h; exact ⟨List.subset_append_left _ _,rfl,hdis,fun _ _ => Or.inl rfl⟩
  case h_5 n i blob pos k =>
    obtain ⟨-,h⟩ := Option.ite_none_right_eq_some.mp h
    cases h
    have hname := (Files.entry_eq_some.mp hk.1).1
    exact touches_temp hdis fun path hn => hdis.entry_write_of_ne hname (hn n) _
  case h_6 => cases h; exact touches_refl hdis
  case h_7 =>
    obtain ⟨-,h⟩ := Option.ite_none_right_eq_some.mp h
    cases h
    exact touches_refl hdis
  case h_8 => cases h; exact touches_refl hdis
  case h_9 n i =>
    obtain ⟨-,h⟩ := Option.ite_none_left_eq_some.mp h
    obtain ⟨blob,hentry,hopen⟩ := hk
    cases h
    refine ⟨List.Subset.refl _,rfl,hdis.move _ _,?_⟩
    intro path hn
    by_cases hp : path = r.path d
    · refine Or.inr ⟨hp,blob,?_,hopen⟩
      rw [hp, read_of_entry, Files.entry_move_self, hentry]
      rfl
    · exact Or.inl (Files.entry_move_of_ne (hn n) hp)
  case h_10 n res => cases h; exact touches_temp (hdis.remove _) fun path hn => Files.entry_remove_of_ne (hn n)
  case h_11 => cases h

section Digests
variable (hd : matchesDigest d = true) (he : matchesDigest e = true)
include hd he

theorem tempFilePath_ne_path (n : ℕ) : r.tempFilePath d n ≠ r.path e := by
  intro h
  obtain ⟨hplain,hup⟩ := plain_tempName hd n
  obtain ⟨hplain',hup'⟩ := plain_of_matches he
  exact tempName_ne hd he n (join_inj r.configured hplain hplain' hup hup' h)

theorem eq_of_tempFilePath {n m : ℕ} (h : r.tempFilePath d n = r.tempFilePath e m) : d = e := by
  obtain ⟨hplain,hup⟩ := plain_tempName hd n
  obtain ⟨hplain',hup'⟩ := plain_tempName he m
  exact eq_of_tempName hd he (join_inj r.configured hplain hplain' hup hup' h)

theorem eq_of_path (h : r.path d = r.path e) : d = e := by
  obtain ⟨hplain,hup⟩ := plain_of_matches hd
  obtain ⟨hplain',hup'⟩ := plain_of_matches he
  exact join_inj r.configured hplain hplain' hup hup' h

theorem Touches.copied (h : Touches r d st st') (hc : Copied st e (r.path e)) : Copied st' e (r.path e) := by
  obtain ⟨bytes,hb,hopen⟩ := hc
  rcases h.files (r.path e) (fun n => (tempFilePath_ne_path hd he n).symm) with hsame | ⟨hpath,hcopied⟩
  · refine ⟨bytes,?_,h.opened hopen⟩
    rw [read_of_entry, hsame, ← read_of_entry, hb]
  · cases eq_of_path he hd hpath
    exact hcopied

theorem Touches.good (h : Touches r d st st') {res : Res} (hg : Good r e res st) : Good r e res st' := by
  rintro path hp
  obtain ⟨rfl,hcopied⟩ := hg path hp
  exact ⟨rfl,h.copied hd he hcopied⟩

theorem Touches.temp (h : Touches r d st st') (hne : d ≠ e) (n : ℕ) :
    st'.files.entry (r.tempFilePath e n) = st.files.entry (r.tempFilePath e n) := by
  refine (h.files _ ?_).resolve_right ?_
  · exact fun m hm => hne (eq_of_tempFilePath he hd hm).symm
  · rintro ⟨hpath,-⟩
    exact tempFilePath_ne_path he hd n hpath

theorem Touches.knows (h : Touches r d st st') (hne : d ≠ e) (hk : Knows r e pc st) : Knows r e pc st' := by
  have htemp := h.temp hd he hne
  cases pc with
  | creating => trivial
  | opening n i => exact (htemp n).trans hk
  | copying n i blob pos => exact ⟨(htemp n).trans hk.1,hk.2.1,h.opened hk.2.2⟩
  | moving n i =>
    obtain ⟨blob,hentry,hopen⟩ := hk
    exact ⟨blob,(htemp n).trans hentry,h.opened hopen⟩
  | removing n res => exact h.good hd he hk

end Digests

theorem Touches.whole (hd : matchesDigest d = true) (h : Touches r d st st') (hw : Whole r st) : Whole r st' := by
  refine ⟨h.distinct,?_,fun e he => h.dirs ▸ hw.dirs e he⟩
  intro e bytes he hb
  rcases h.files (r.path e) (fun n => (tempFilePath_ne_path hd he n).symm) with hsame | ⟨hpath,bytes',hb',hopen⟩
  · rw [read_of_entry, hsame, ← read_of_entry] at hb
    exact h.opened (hw.files e bytes he hb)
  · cases eq_of_path he hd hpath
    cases hb'.symm.trans hb
    exact hopen

theorem fetchNext_knows (hd : matchesDigest d = true) (hdis : st.files.Distinct) (hk : Knows r d pc st)
    (h : fetchNext r d st pc ev = some (st',x)) :
    x.elim (fun pc' => Knows r d pc' st') (fun res => Good r d res st') := by
  have ht := fetchNext_touches hdis hk h
  unfold fetchNext at h
  split at h
  case h_1 => cases h; nofun
  case h_2 n =>
    obtain ⟨-,h⟩ := Option.ite_none_left_eq_some.mp h
    obtain ⟨i,hi,h⟩ := Option.map_eq_some_iff.mp h
    cases h
    obtain ⟨j,hj⟩ := st.files.entry_create_self (r.tempFilePath d n)
    cases Option.some.inj (hi.symm.trans (Files.entry_eq_some.mp hj).1)
    exact hj
  case h_3 => cases h; nofun
  case h_4 n i blob =>
    cases h
    exact ⟨hk,Nat.zero_le _,by simp⟩
  case h_5 n i blob pos k =>
    obtain ⟨hk1,h⟩ := Option.ite_none_right_eq_some.mp h
    obtain ⟨hentry,hpos,hopen⟩ := hk
    obtain ⟨hname,hfile⟩ := Files.entry_eq_some.mp hentry
    cases h
    refine ⟨?_,hk1.2,hopen⟩
    have hlen : (blob.take pos).length = pos := by simpa using hpos
    have hwrite : writeAt (st.files.file i) pos ((blob.drop pos).take k) = blob.take (pos + k) := by
      have happ := writeAt_end (blob.take pos) ((blob.drop pos).take k)
      rw [hlen] at happ
      rw [hfile, happ, List.take_add]
    rw [hwrite]
    exact Files.entry_write_self hname _
  case h_6 => cases h; nofun
  case h_7 n i blob pos =>
    obtain ⟨hpos,h⟩ := Option.ite_none_right_eq_some.mp h
    cases h
    obtain ⟨hentry,-,hopen⟩ := hk
    rw [hpos, List.take_length] at hentry
    exact ⟨blob,hentry,hopen⟩
  case h_8 => cases h; nofun
  case h_9 n i =>
    obtain ⟨-,h⟩ := Option.ite_none_left_eq_some.mp h
    obtain ⟨blob,hentry,hopen⟩ := hk
    cases h
    rintro path ⟨⟩
    refine ⟨rfl,blob,?_,hopen⟩
    rw [read_of_entry, Files.entry_move_self, hentry]
    rfl
  case h_10 n res =>
    cases h
    exact ht.good hd hd hk
  case h_11 => cases h

theorem getWork_sound (r : Repo) : Sound (getWork r) (fun d => matchesDigest d = true) (Whole r) (Knows r) (Good r) where
  look := by
    intro d st ev res hd hw h
    cases ev with
    | lstat err =>
      cases err with
      | some err => cases h; nofun
      | none =>
        simp only [getWork, lstat] at h
        split at h
        case isTrue hmem =>
          cases h
          rintro path ⟨⟩
          obtain ⟨i,hi⟩ := Option.isSome_iff_exists.mp (hmem.resolve_left (hw.dirs d hd))
          have hread : st.files.read (r.path d) = some (st.files.file i) := by
            rw [Files.read, hi, Option.map_some]
          exact ⟨rfl,_,hread,hw.files d _ hd hread⟩
        case isFalse => cases h
    | _ => cases h
  start _ _ _ _ := trivial
  next _ _ _ _ _ _ hd hw hk h := ⟨(fetchNext_touches hw.distinct hk h).whole hd hw,fetchNext_knows hd hw.distinct hk h⟩
  others _ _ _ _ _ _ hd hw hk h _ _ he hne := (fetchNext_touches hw.distinct hk h).knows hd he hne
  results _ _ _ _ _ _ hd hw hk h _ _ he := (fetchNext_touches hw.distinct hk h).good hd he

end Fetch

/-- Along every run of calls of `Get`; and the files are complete copies if they are so at
the beginning and the digests that are asked for are well formed. -/
theorem get_served (r : Repo) (spool : Spool) (as : List (Label String Event)) (t : State String Spool FetchPc Res)
    (h : Runs (step (getWork r)) (initial spool) as t) :
    Served (getWork r) t ∧
      (Whole r spool → (∀ d, .call d ∈ as → matchesDigest d = true) →
        ∀ c ∈ t.callers, ∀ path, c.pc = .returned (some (.ok path)) → path = r.path c.key ∧ Copied t.store c.key path) := by
  refine ⟨(runs_inv h).served (getWork r),?_⟩
  intro hw hdigests c hc path hp
  exact runs_results (getWork_sound r) hw hdigests h c hc (.ok path) hp path rfl

def Repo.empty (r : Repo) : Spool := ⟨.empty,[clean r.spoolPath],[]⟩

theorem whole_empty (r : Repo) : Whole r r.empty := by
  refine ⟨nofun,nofun,fun d hd hmem => ?_⟩
  obtain ⟨hplain,hup⟩ := plain_of_matches hd
  have hpath : clean (r.spoolPath ++ "/" ++ d) = clean r.spoolPath := by
    rw [← join_of_ne r.configured]
    exact List.mem_singleton.mp hmem
  rw [clean_eq_iff (rooted_slash r.configured d), kept_slash_plain r.configured hplain hup] at hpath
  exact List.cons_ne_self d _ hpath

/-- Two calls share a download, and a third finds the file. -/
theorem get_served_shared :
    let r : Repo := ⟨"/spool",by decide⟩
    let d := "sha256:ab"
    let as : List (Label String Event) := [.call d,.look 0 (.lstat none),.call d,.look 1 (.lstat none),.register 0,
      .work 0 (.create 5 none),.work 0 (.openBlob (.ok [1,2,3])),.work 0 (.copy 2),.register 1,.work 0 (.copy 1),
      .work 0 .eof,.work 0 (.rename none),.work 0 .remove,.lock 0,.send,.send,.finish,.receive 0,.cancel 1,.call d,
      .look 2 (.lstat none)]
    ∃ t, run (step (getWork r)) (initial r.empty) as = some t ∧ Served (getWork r) t ∧
      t.callers.map (·.pc) = [.returned (some (.ok "/spool/sha256:ab")),.returned none,
        .returned (some (.ok "/spool/sha256:ab"))] ∧
      ∀ c ∈ t.callers, ∀ path, c.pc = .returned (some (.ok path)) → Copied t.store c.key path := by
  intro r d as
  have hrun : (run (step (getWork r)) (initial r.empty) as).map (fun t => t.callers.map (·.pc)) =
      some [.returned (some (.ok "/spool/sha256:ab")),.returned none,.returned (some (.ok "/spool/sha256:ab"))] := by
    decide +kernel
  obtain ⟨t,ht,hpc⟩ := Option.map_eq_some_iff.mp hrun
  obtain ⟨hserved,hcopied⟩ := get_served r r.empty as t (.of_run ht)
  refine ⟨t,ht,hserved,hpc,fun c hc path hp => (hcopied (whole_empty r) ?_ c hc path hp).2⟩
  intro k hk
  have hkd : k = d := by simpa [as] using hk
  rw [hkd]
  decide

/-- The empty digest has the path of the directory: `Get` finds that and returns it. -/
theorem get_empty_digest :
    let r : Repo := ⟨"/spool",by decide⟩
    Whole r r.empty ∧
      (run (step (getWork r)) (initial r.empty) [.call "",.look 0 (.lstat none)]).map (fun t => t.callers.map (·.pc)) =
        some [.returned (some (.ok "/spool"))] ∧
      ¬∀ as t, Runs (step (getWork r)) (initial r.empty) as t →
        ∀ c ∈ t.callers, ∀ path, c.pc = .returned (some (.ok path)) → Copied t.store c.key path := by
  intro r
  have hrun : (run (step (getWork r)) (initial r.empty) [.call "",.look 0 (.lstat none)]).map (fun t => t.callers.map (·.pc)) =
      some [.returned (some (.ok "/spool"))] := by decide +kernel
  refine ⟨whole_empty r,hrun,fun h => ?_⟩
  obtain ⟨t,ht,hpc⟩ := Option.map_eq_some_iff.mp hrun
  have hstore : (run (step (getWork r)) (initial r.empty) [.call "",.look 0 (.lstat none)]).map
      (fun t => t.store.opened) = some [] := by decide +kernel
  rw [ht, Option.map_some, Option.some.injEq] at hstore
  obtain ⟨c,hc,hp⟩ : ∃ c ∈ t.callers, c.pc = .returned (some (.ok "/spool")) := by
    have hmem : CallerPc.returned (some (.ok "/spool")) ∈ t.callers.map (·.pc) := hpc ▸ List.mem_singleton_self _
    simpa using hmem
  obtain ⟨bytes,-,hopen⟩ := h _ t (.of_run ht) c hc "/spool" hp
  rw [hstore] at hopen
  cases hopen

end Stout.Porto.BlobRepo
