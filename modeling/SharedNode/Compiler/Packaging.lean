import Mathlib.Data.List.Sort
import SharedNode.Compiler.Types
import SharedNode.Text.Utf16

/-!
# Packages

Model of the archive format of `compiler/src/reviewed-builder.mjs`: the files of an output, the
policy for their paths, the deterministic tar with one raw Zstandard frame around it, and the reader
the builder checks its own archives with. A path is a JavaScript string; what is written of it are
the bytes of `encode`.

`toLowerCase` is a parameter: it is the engine's Unicode mapping, and the policy only rejects more
or less with it.

* `Files` is a `Map` from paths to files. It keeps the order of insertion and has no path twice.
* `mem_unpackDeterministicTarZst`: the reader only returns paths without surrogates alone and
  without NUL.
-/

namespace SharedNode.Compiler

open Text

/-- A `CompilerFailure`; a rejected file of the installer is named, with the reason. -/
structure Failure where
  code : String
  reason : Option String := none
  path : Option JsString := none
  deriving DecidableEq

theorem bind_eq_ok {ε α β : Type} {x : Except ε α} {f : α → Except ε β} {r : β}
    (h : (x >>= f) = .ok r) : ∃ a, x = .ok a ∧ f a = .ok r := by
  cases x with
  | error e => cases h
  | ok a => exact ⟨a, rfl, h⟩

theorem of_guard {α : Type} {c : Prop} [Decidable c] {failure : Failure}
    {k : PUnit → Except Failure α} {a : α}
    (h : (if c then (throw failure >>= k) else k ⟨⟩) = .ok a) : ¬ c ∧ k ⟨⟩ = .ok a := by
  split at h
  · cases h
  next hc => exact ⟨hc, h⟩

/-! ## Limits -/

def maxOutputFiles : Nat := 16384

def maxFileBytes : Int := 256 * 1024 * 1024

def maxSandboxBytes : Int := 320 * 1024 * 1024

def maxPackageInputBytes : Int := 384 * 1024 * 1024

def maxPackageTarBytes : Nat := 400 * 1024 * 1024

def maxPackageArchiveBytes : Nat := 401 * 1024 * 1024

/-- `outputSizeWithinLimit`, the loop. -/
def sizesWithin (maximum : Int) : List Int → Int → Bool
  | [], _ => true
  | size :: rest, total =>
    isSafeInteger size && 0 ≤ size && size ≤ maxFileBytes && isSafeInteger (total + size) &&
      total + size ≤ maximum && sizesWithin maximum rest (total + size)

def outputSizeWithinLimit (sizes : List Int) (maximum : Int) : Bool :=
  isSafeInteger maximum && 1 ≤ maximum && sizesWithin maximum sizes 0

/-! ## Files -/

/-- A file of the output. -/
structure OutputFile where
  bytes : Bytes
  mode : Int
  deriving DecidableEq

/-- A `Map` from paths to files, in the order of insertion. -/
structure Files where
  entries : List (JsString × OutputFile)
  nodup : (entries.map Prod.fst).Nodup
  deriving DecidableEq

namespace Files

def empty : Files := ⟨[], List.nodup_nil⟩

def paths (files : Files) : List JsString := files.entries.map Prod.fst

def has (files : Files) (path : JsString) : Bool := files.paths.contains path

def get (files : Files) (path : JsString) : Option OutputFile :=
  (files.entries.find? fun entry => entry.1 = path).map Prod.snd

/-- `files.set`: a path that is there keeps its place. -/
def set (files : Files) (path : JsString) (file : OutputFile) : Files where
  entries :=
    if path ∈ files.entries.map Prod.fst then
      files.entries.map fun entry => if entry.1 = path then (path, file) else entry
    else files.entries ++ [(path, file)]
  nodup := by
    split
    · have hkeys : (files.entries.map fun entry => if entry.1 =
        path then (path, file) else entry).map
          Prod.fst = files.entries.map Prod.fst := by
        rw [List.map_map]
        refine List.map_congr_left fun entry _ => ?_
        simp only [Function.comp]
        split
        next h => exact h.symm
        · rfl
      rw [hkeys]
      exact files.nodup
    next h =>
      rw [List.map_append, List.nodup_append]
      refine ⟨files.nodup, by simp, fun a ha b hb => ?_⟩
      obtain rfl : b = path := by simpa using hb
      rintro rfl
      exact h ha

/-- The entries in the order of `comparePath`. -/
def sorted (files : Files) : List (JsString × OutputFile) :=
  files.entries.insertionSort fun left right => left.1 ≤ right.1

theorem set_entries {files : Files} {path : JsString} (h : files.has path = false)
    (file : OutputFile) : (files.set path file).entries = files.entries ++ [(path, file)] := by
  have hnot : path ∉ files.entries.map Prod.fst := by simpa [has, paths] using h
  simp only [set, if_neg hnot]

theorem sorted_perm (files : Files) : files.sorted.Perm files.entries :=
  List.perm_insertionSort _ _

end Files

/-! ## Paths -/

def startsWith (s start : JsString) : Bool := start.isPrefixOf s

def endsWith (s ending : JsString) : Bool := ending.isSuffixOf s

def isAsciiLetter (u : UInt16) : Bool := (0x41 ≤ u && u ≤ 0x5a) || (0x61 ≤ u && u ≤ 0x7a)

/-- The expression `/^[A-Za-z]:/`. -/
def hasDrive : JsString → Bool
  | u :: v :: _ => isAsciiLetter u && v = 0x3a
  | _ => false

def safeOutputPath (path : JsString) : Bool :=
  0 < path.length && path.length ≤ 255 && !path.contains 0x5c && !startsWith path (js "/") &&
    !hasDrive path &&
    (splitSlash path).all fun part => part ≠ [] && part ≠ js "." && part ≠ js ".."

/-- The unit as a case-insensitive expression sees it. -/
def foldUnit (u : UInt16) : UInt16 := if 0x41 ≤ u && u ≤ 0x5a then u + 0x20 else u

/-- The expression `/^neoforge_installer\d+$/`, for one part of a path. -/
def isInstallerDir (part : JsString) : Bool :=
  let start := js "neoforge_installer"
  let digits := part.drop start.length
  startsWith part start && digits ≠ [] && digits.all fun u => 0x30 ≤ u && u ≤ 0x39

/-- `forbiddenOutputPath`: the expressions one after the other. -/
def forbiddenOutputPath (toLowerCase : JsString → JsString) (path : JsString) : Bool :=
  let parts := splitSlash (toLowerCase path)
  (parts.getLast?.any fun part =>
      ["eula.txt", "java", "javaw", "java.exe", "javaw.exe"].any fun name => part = js name) ||
    (parts.any fun part => part = js "jre" || part = js "jdk") ||
    parts.head?.any isInstallerDir ||
    [".sh", ".bat", ".cmd", ".ps1", ".exe"].any fun ending =>
      endsWith (path.map foldUnit) (js ending)

def validOutputMode (mode : Int) : Bool := mode = 0o644 || mode = 0o755

/-! ## Writing -/

def invalidOutput : Failure := ⟨"invalid_builder_output", none, none⟩

/-- `writeTarText`: a field of the header with these bytes. -/
def writeTarText (length : Nat) (bytes : Bytes) : Except Failure Bytes :=
  if length < bytes.length then .error invalidOutput
  else .ok (bytes ++ List.replicate (length - bytes.length) 0)

/-- `toString(8)`. -/
def formatOctal (n : Int) : Bytes :=
  let digits := (Nat.toDigits 8 n.natAbs).map fun c => c.toNat.toUInt8
  if n < 0 then lit "-" ++ digits else digits

/-- `padStart` with zeros. -/
def padStart (width : Nat) (text : Bytes) : Bytes :=
  List.replicate (width - text.length) 0x30 ++ text

def writeTarOctal (length : Nat) (value : Int) : Except Failure Bytes :=
  let text := padStart (length - 1) (formatOctal value)
  if text.length ≠ length - 1 then .error invalidOutput else writeTarText length text

def writeTarChecksum (value : Nat) : Except Failure Bytes :=
  let text := padStart 6 (formatOctal value)
  if text.length ≠ 6 then .error invalidOutput else .ok (text ++ [0, 0x20])

def joinSlash (parts : List JsString) : JsString := [0x2f].intercalate parts

/-- `splitTarPath`: the name and the directory before it. -/
def splitTarPath (path : JsString) : Except Failure (JsString × JsString) :=
  if (encode path).length ≤ 100 then .ok (path, [])
  else
    let parts := splitSlash path
    let splits := (List.range' 1 (parts.length - 1)).map fun index =>
      (joinSlash (parts.drop index), joinSlash (parts.take index))
    match splits.find? fun split =>
        (encode split.2).length ≤ 155 && (encode split.1).length ≤ 100 with
    | some split => .ok split
    | none => .error invalidOutput

/-- `packageTar`, the header of a file. -/
def tarHeader (path : JsString) (file : OutputFile) : Except Failure Bytes := do
  let (name, dir) ← splitTarPath path
  let nameField ← writeTarText 100 (encode name)
  let mode ← writeTarOctal 8 file.mode
  let owner ← writeTarOctal 8 0
  let size ← writeTarOctal 12 file.bytes.length
  let modified ← writeTarOctal 12 0
  let magic ← writeTarText 6 (lit "ustar")
  let root ← writeTarText 32 (lit "root")
  let dirField ← writeTarText 155 (encode dir)
  let front := nameField ++ mode ++ owner ++ owner ++ size ++ modified
  -- The type flag, no link name, and no device numbers between the owners and the directory.
  let back := [0x30] ++ List.replicate 100 0 ++ magic ++ lit "00" ++ root ++ root ++
    List.replicate 16 0 ++ dirField ++ List.replicate 12 0
  -- The checksum is taken with blanks in its own place.
  let sum := ((front ++ List.replicate 8 0x20 ++ back).map UInt8.toNat).sum
  let checksum ← writeTarChecksum sum
  return front ++ checksum ++ back

/-- The bytes that fill the last block of a file. -/
def tarPadding (size : Nat) : Nat := (512 - size % 512) % 512

/-- `packageTar`, the loop; `total` is what is written so far. -/
def packageEntries : List (JsString × OutputFile) → Nat → Except Failure Bytes
  | [], total =>
    if maxPackageTarBytes < total + 1024 then .error invalidOutput else .ok (List.replicate 1024 0)
  | (path, file) :: rest, total => do
    let header ← tarHeader path file
    let padding := tarPadding file.bytes.length
    let total := total + 512 + file.bytes.length + padding
    if maxPackageTarBytes < total then throw invalidOutput
    let tar ← packageEntries rest total
    return header ++ (file.bytes ++ (List.replicate padding 0 ++ tar))

def packageTar (files : Files) : Except Failure Bytes := packageEntries files.sorted 0

def rawZstdBlockBytes : Nat := 128 * 1024

/-- The low `n` bytes of a number, the lowest first. -/
def littleEndian : Nat → Nat → Bytes
  | 0, _ => []
  | n + 1, value => UInt8.ofNat value :: littleEndian n (value / 256)

/-- `rawZstd`, the loop over the blocks, at most `n` of them. -/
def rawBlocks : Nat → Bytes → Bytes
  | 0, _ => []
  | n + 1, input =>
    if input.isEmpty then []
    else
      let size := min rawZstdBlockBytes input.length
      let last := if size = input.length then 1 else 0
      littleEndian 3 (size * 8 + last) ++ input.take size ++ rawBlocks n (input.drop size)

/-- `rawZstd`: a frame of stored blocks with its size. -/
def rawZstd (input : Bytes) : Except Failure Bytes := do
  if maxPackageTarBytes < input.length then throw invalidOutput
  let archive := [0x28, 0xb5, 0x2f, 0xfd, 0xa0] ++ littleEndian 4 input.length ++
    rawBlocks input.length input
  if maxPackageArchiveBytes < archive.length then throw invalidOutput
  return archive

def packageDeterministicTarZst (files : Files) : Except Failure Bytes := do
  let tar ← packageTar files
  rawZstd tar

/-! ## Reading -/

/-- `unpackDeterministicTarZst`, the loop over the blocks, at most `n` of them: the last one ends
the archive. -/
def readBlocks : Nat → Bytes → Option Bytes
  | n + 1, a :: b :: c :: rest =>
    let header := a.toNat + b.toNat * 0x100 + c.toNat * 0x10000
    let size := header / 8
    if header / 2 % 4 ≠ 0 || rawZstdBlockBytes < size || rest.length < size then none
    else if header % 2 = 1 then if (rest.drop size).isEmpty then some rest else none
    else (readBlocks n (rest.drop size)).map (rest.take size ++ ·)
  | _, _ => none

/-- `tarText`: a field up to its first NUL. -/
def tarText (header : Bytes) (offset length : Nat) : Option JsString :=
  decode (((header.drop offset).take length).takeWhile (· ≠ 0))

/-- A unit that `trim` leaves out. -/
def isJsSpace (u : UInt16) : Bool :=
  (9 ≤ u && u ≤ 13) || (0x2000 ≤ u && u ≤ 0x200a) ||
    [0x20, 0xa0, 0x1680, 0x2028, 0x2029, 0x202f, 0x205f, 0x3000, 0xfeff].contains u

def trim (s : JsString) : JsString :=
  ((s.dropWhile isJsSpace).reverse.dropWhile isJsSpace).reverse

def parseTarOctal (header : Bytes) (offset length : Nat) : Option Nat := do
  let text ← (tarText header offset length).map trim
  if text.isEmpty || !text.all fun u => 0x30 ≤ u && u ≤ 0x37 then none
  else
    let value : Nat := text.foldl (fun n u => n * 8 + (u.toNat - 0x30)) 0
    if isSafeInteger value then some value else none

def tarPath (header : Bytes) : Option JsString := do
  let name ← tarText header 0 100
  let dir ← tarText header 345 155
  return if dir.isEmpty then name else dir ++ js "/" ++ name

/-- `unpackTar`, the loop over at most `n` headers; `tar` is what is still to be read. -/
def unpackEntries : Nat → Bytes → Files → Option Files
  | 0, _, _ => none
  | n + 1, tar, files =>
    let header := tar.take 512
    let rest := tar.drop 512
    if tar.length < 512 then none
    else if header.all (· = 0) then
      if rest.length = 512 && rest.all (· = 0) then some files else none
    else if tarText header 257 6 ≠ some (js "ustar") ||
        header.getD 156 0 ≠ 0 && header.getD 156 0 ≠ 0x30 then none
    else
      match tarPath header, parseTarOctal header 124 12, parseTarOctal header 100 8 with
      | some path, some sizeBytes, some mode =>
        if !safeOutputPath path || files.has path || rest.length < sizeBytes ||
            !validOutputMode mode then none
        else unpackEntries n (rest.drop (sizeBytes + tarPadding sizeBytes))
          (files.set path ⟨rest.take sizeBytes, mode⟩)
      | _, _, _ => none

def unpackTar (tar : Bytes) : Option Files := unpackEntries tar.length tar .empty

def unpackDeterministicTarZst (archive : Bytes) : Option Files :=
  if archive.length < 12 || maxPackageArchiveBytes < archive.length ||
      archive.take 5 ≠ [0x28, 0xb5, 0x2f, 0xfd, 0xa0] then none
  else
    match readBlocks archive.length (archive.drop 9) with
    | some tar => if littleEndian 4 tar.length =
        (archive.drop 5).take 4 then unpackTar tar else none
    | none => none

/-! ## What the reader returns -/

theorem isText_slash : IsText (js "/") := ⟨['/'], rfl⟩

theorem isText_of_tarText {header : Bytes} {offset length : Nat} {s : JsString}
    (h : tarText header offset length = some s) : IsText s ∧ 0 ∉ s := by
  refine ⟨isText_of_decode h, zero_not_mem_of_decode (fun hmem => ?_) h⟩
  have hne := List.all_eq_true.mp List.all_takeWhile 0 hmem
  simp at hne

theorem isText_of_tarPath {header : Bytes} {path : JsString} (h : tarPath header = some path) :
    IsText path ∧ 0 ∉ path := by
  simp only [tarPath, Option.bind_eq_bind, Option.bind_eq_some_iff, pure, Option.some.injEq] at h
  obtain ⟨name, hname, dir, hdir, rfl⟩ := h
  have hn := isText_of_tarText hname
  have hd := isText_of_tarText hdir
  split
  · exact hn
  · refine ⟨isText_append (isText_append hd.1 isText_slash) hn.1, ?_⟩
    have hslash : (0 : UInt16) ∉ js "/" := by decide
    simp only [List.mem_append, not_or]
    exact ⟨⟨hd.2, hslash⟩, hn.2⟩

/-- Every path of the loop's result was there before, or is the text of a header. -/
theorem mem_unpackEntries {n : Nat} {tar : Bytes} {files result : Files}
    (h : unpackEntries n tar files = some result)
    (hfiles : ∀ path ∈ files.paths, IsText path ∧ 0 ∉ path) :
    ∀ path ∈ result.paths, IsText path ∧ 0 ∉ path := by
  induction n generalizing tar files with
  | zero => simp [unpackEntries] at h
  | succ n ih =>
    simp only [unpackEntries] at h
    split at h
    · cases h
    split at h
    · split at h
      · cases h
        exact hfiles
      · cases h
    split at h
    · cases h
    split at h
    next path sizeBytes mode hpath _ _ =>
      split at h
      · cases h
      next hok =>
        refine ih h ?_
        have hnew : files.has path = false := by
          simp only [Bool.or_eq_true, not_or] at hok
          simpa using hok.1.1.2
        intro other hother
        rw [Files.paths, Files.set_entries hnew, List.map_append, List.mem_append] at hother
        rcases hother with hother | hother
        · exact hfiles other hother
        · obtain rfl : other = path := by simpa using hother
          exact isText_of_tarPath hpath
    · cases h

theorem mem_unpackDeterministicTarZst {archive : Bytes} {files : Files}
    (h : unpackDeterministicTarZst archive = some files) :
    ∀ path ∈ files.paths, IsText path ∧ 0 ∉ path := by
  unfold unpackDeterministicTarZst at h
  split at h
  · cases h
  split at h
  · split at h
    · exact mem_unpackEntries h (by simp [Files.paths, Files.empty])
    · cases h
  · cases h

end SharedNode.Compiler
