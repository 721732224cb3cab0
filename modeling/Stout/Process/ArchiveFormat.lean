import Stout.Library.Compression
import Stout.Library.JsonText
import Stout.Process.ArchiveContents

/-! # Which format an archive is taken for

`unpackArchive` of `process/archive.go` tries gzip, zlib and the plain archive, and stays
with the first reader that can be made. gzip and zlib are told by their headers; a plain
archive has none and begins with the name of its first entry.
-/
namespace Stout.Process.Archive.Contents
open Prog FileTree Compression

inductive Format where
  | gzip
  | zlib
  | plain
deriving DecidableEq, Repr

def Format.reader (f : Formats) : Format → List UInt8 → Except String Stream
  | .gzip => f.gzipReader
  | .zlib => f.zlibReader
  | .plain => fallbackTarReader

/-- The constructor that the loop stops at. -/
def selected (f : Formats) (data : List UInt8) : Format :=
  if (f.gzipReader data).isOk then .gzip else if (f.zlibReader data).isOk then .zlib else .plain

theorem archiveReader_selected (f : Formats) (data : List UInt8) :
    archiveReader data (constructors f) = ((selected f data).reader f data).toOption := by
  unfold selected constructors
  cases hg : f.gzipReader data with
  | ok s => simp [archiveReader, hg, Except.isOk, Except.toBool, Format.reader, Except.toOption]
  | error e =>
    cases hz : f.zlibReader data with
    | ok s => simp [archiveReader, hg, hz, Except.isOk, Except.toBool, Format.reader, Except.toOption]
    | error e' => simp [archiveReader, hg, hz, Except.isOk, Except.toBool, Format.reader, Except.toOption, fallbackTarReader]

/-- The readers are made for the headers of their formats. -/
structure Standard (r : Readers) : Prop where
  gzip : ∀ data, (r.gzipReader data).isOk = (gzipBody data).isSome
  zlib : ∀ data, (r.zlibReader data).isOk = (zlibBody data).isSome

/-- The archive, its gzip streams and its zlib streams are taken for what they are, and are
unpacked alike. -/
structure Detected (r : Readers) (t : List UInt8) : Prop where
  plain : selected r.formats t = .plain
  gzip : ∀ g, r.gzipReader g = .ok ⟨t,none⟩ → selected r.formats g = .gzip
  zlib : ∀ z, r.zlibReader z = .ok ⟨t,none⟩ → selected r.formats z = .zlib
  same : ∀ data, r.gzipReader data = .ok ⟨t,none⟩ ∨ r.zlibReader data = .ok ⟨t,none⟩ →
    ∀ o target, unpackArchive r o data target = unpackArchive r o t target

section Detection
variable {r : Readers} {t data : List UInt8}

theorem selected_gzip {s : Stream} (h : r.gzipReader data = .ok s) : selected r.formats data = .gzip := by
  simp [selected, Readers.formats, h, Except.isOk, Except.toBool]

theorem selected_zlib (hr : Standard r) {s : Stream} (h : r.zlibReader data = .ok s) : selected r.formats data = .zlib := by
  have hbody : (zlibBody data).isSome = true := by
    rw [← hr.zlib, h]
    rfl
  have hgzip : (r.gzipReader data).isOk = false := by
    rw [hr.gzip, gzipBody_of_zlib hbody]
    rfl
  have hzlib : (r.zlibReader data).isOk = true := by
    rw [h]
    rfl
  simp only [selected, Readers.formats, hgzip, hzlib, Bool.false_eq_true, if_true, if_false]

theorem selected_plain_iff (hr : Standard r) (t : List UInt8) :
    selected r.formats t = .plain ↔ gzipBody t = none ∧ zlibBody t = none := by
  unfold selected Readers.formats
  rw [hr.gzip, hr.zlib]
  cases gzipBody t with
  | some b => simp
  | none =>
    cases zlibBody t with
    | some b => simp
    | none => simp

theorem unpackArchive_selected {s : Stream} (h : (selected r.formats data).reader r.formats data = .ok s) (o : Outside)
    (target : String) : unpackArchive r o data target = (do renew o target; unpackStream r o target s) := by
  unfold unpackArchive
  rw [archiveReader_selected, h]
  rfl

end Detection

/-- Whatever archive the bytes are, it is told from its compressed streams exactly if it
begins neither with a gzip header nor with a zlib header. -/
theorem detected_iff {r : Readers} (hr : Standard r) (t : List UInt8) :
    Detected r t ↔ gzipBody t = none ∧ zlibBody t = none := by
  rw [← selected_plain_iff hr]
  constructor
  · exact Detected.plain
  intro hplain
  refine ⟨hplain,fun g hg => selected_gzip hg,fun z hz => selected_zlib hr hz,fun data hdata o target => ?_⟩
  have ht : (selected r.formats t).reader r.formats t = .ok ⟨t,none⟩ := by
    rw [hplain]
    rfl
  have hsame : (selected r.formats data).reader r.formats data = .ok ⟨t,none⟩ := by
    rcases hdata with hg | hz
    · rw [selected_gzip hg]
      exact hg
    · rw [selected_zlib hr hz]
      exact hz
  rw [unpackArchive_selected ht, unpackArchive_selected hsame]

/-! ## Readers -/

def field (block : Bytes) (start len : ℕ) : Bytes := (block.drop start).take len

def octal (bs : Bytes) : ℕ := (bs.filter fun b => 0x30 ≤ b ∧ b ≤ 0x37).foldl (fun n b => 8 * n + (b.toNat - 0x30)) 0

/-- The sum of the bytes of a block, with blanks for its own field. -/
def blockSum (block : Bytes) : ℕ :=
  ((block.take 148 ++ List.replicate 8 0x20 ++ block.drop 156).map UInt8.toNat).sum

/-- The header and the size of a file or a directory. -/
def ustarHeader (block : Bytes) : Option (Header × ℕ) :=
  if octal (field block 148 8) = blockSum block then
    some (⟨Json.utf8Text ((field block 0 100).takeWhile (· ≠ 0)),decide (field block 156 1 = [0x35]),octal (field block 100 8)⟩,
      octal (field block 124 12))
  else none

/-- Archives of files and directories with short names. -/
def ustar : ℕ → Stream → List Entry × Option String
  | 0, s => ([],s.error)
  | fuel + 1, s =>
    if s.bytes = [] then ([],s.error)
    else match readFull 512 s.bytes with
      | none => ([],some (s.error.getD "unexpected EOF"))
      | some (block,rest) =>
        if block.all (· = 0) then
          if rest = [] then ([],s.error)
          else match readFull 512 rest with
            | none => ([],some (s.error.getD "unexpected EOF"))
            | some (block,_) =>
              if block.all (· = 0) then ([],none) else ([],some "archive/tar: invalid tar header")
        else match ustarHeader block with
          | none => ([],some "archive/tar: invalid tar header")
          | some (header,size) =>
            match readFull size rest with
            | none => ([⟨header,⟨rest,some (s.error.getD "unexpected EOF")⟩⟩],some (s.error.getD "unexpected EOF"))
            | some (body,_) =>
              let r := ustar fuel ⟨rest.drop (512 * ((size + 511) / 512)),s.error⟩
              (⟨header,⟨body,none⟩⟩ :: r.1,r.2)

/-- A reader for a format, with the error for what has not its header. -/
def readerOf (read : Bytes → Option (Bytes × Option String)) (e : String) (data : Bytes) : Except String Stream :=
  match read data with
  | some (bytes,error) => .ok ⟨bytes,error⟩
  | none => .error e

/-- Readers for stored blocks. -/
def storedReaders : Readers :=
  ⟨readerOf gunzip "gzip: invalid header",readerOf unzlib "zlib: invalid header",fun s => ustar s.bytes.length s⟩

theorem isOk_readerOf (read : Bytes → Option (Bytes × Option String)) (e : String) (data : Bytes) :
    (readerOf read e data).isOk = (read data).isSome := by
  unfold readerOf
  cases read data <;> rfl

theorem standard_storedReaders : Standard storedReaders := by
  constructor
  · intro data
    exact (isOk_readerOf gunzip _ data).trans (Option.isSome_map ..)
  · intro data
    exact (isOk_readerOf unzlib _ data).trans (Option.isSome_map ..)

theorem gzipReader_stored {t : Bytes} (h : t.length < 65536) : storedReaders.gzipReader (gzipStored t) = .ok ⟨t,none⟩ := by
  simp [storedReaders, readerOf, gunzip_stored h]

theorem zlibReader_stored {t : Bytes} (h : t.length < 65536) : storedReaders.zlibReader (zlibStored t) = .ok ⟨t,none⟩ := by
  simp [storedReaders, readerOf, unzlib_stored h]

def padded (len : ℕ) (text : String) : Bytes := (text.toUTF8.toList ++ List.replicate len 0).take len

/-- An archive of one empty file, with the checksum of its only block. -/
def emptyFile (name checksum : String) : Bytes :=
  padded 100 name ++ padded 8 "0000644" ++ padded 8 "0000000" ++ padded 8 "0000000" ++ padded 12 "00000000000" ++
    padded 12 "00000000000" ++ padded 8 checksum ++ padded 1 "0" ++ padded 100 "" ++ padded 6 "ustar" ++ padded 249 "00"

theorem detected_iff_stored :
    let t := emptyFile "app" "006436"
    (storedReaders.tarReader ⟨t,none⟩).1.map Entry.header = [⟨"app",false,0o644⟩] ∧ (storedReaders.tarReader ⟨t,none⟩).2 = none ∧
      ∀ o target, unpackArchive storedReaders o (gzipStored t) target = unpackArchive storedReaders o t target ∧
        unpackArchive storedReaders o (zlibStored t) target = unpackArchive storedReaders o t target := by
  intro t
  have hlen : t.length < 65536 := by decide +kernel
  have hd := (detected_iff standard_storedReaders t).mpr (by decide +kernel)
  refine ⟨by decide +kernel,by decide +kernel,fun o target => ⟨?_,?_⟩⟩
  · exact hd.same _ (Or.inl (gzipReader_stored hlen)) o target
  · exact hd.same _ (Or.inr (zlibReader_stored hlen)) o target

/-- The name `hCaptcha` begins like a zlib header: the archive of this file is not unpacked,
its gzip stream is. -/
theorem hCaptcha_taken_for_zlib :
    let t := emptyFile "hCaptcha" "007371"
    let s : Files := ⟨⟨above [],[]⟩,fun _ => []⟩
    (storedReaders.tarReader ⟨t,none⟩).1.map Entry.header = [⟨"hCaptcha",false,0o644⟩] ∧
      (storedReaders.tarReader ⟨t,none⟩).2 = none ∧ selected storedReaders.formats t = .zlib ∧
      (unpackArchive storedReaders (free []) t "/app" s).1 = .error (.other "flate: corrupt input before offset 5") ∧
      (unpackArchive storedReaders (free []) (gzipStored t) "/app" s).1 = .ok () ∧ ¬Detected storedReaders t := by
  intro t s
  have hselected : selected storedReaders.formats t = .zlib := by decide +kernel
  have hgzip := gzipReader_stored (show t.length < 65536 by decide +kernel)
  have hunpacked : unpackArchive storedReaders (free []) (gzipStored t) "/app" =
      (do renew (free []) "/app"; unpackStream storedReaders (free []) "/app" ⟨t,none⟩) := by
    refine unpackArchive_selected ?_ (free []) "/app"
    rw [selected_gzip hgzip]
    exact hgzip
  refine ⟨by decide +kernel,by decide +kernel,hselected,by decide +kernel,?_,fun hd => ?_⟩
  · rw [hunpacked]
    decide +kernel
  · rw [hd.plain] at hselected
    cases hselected

end Stout.Process.Archive.Contents
