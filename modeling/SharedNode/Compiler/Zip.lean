import Mathlib.Algebra.BigOperators.Ring.Finset
import SharedNode.Compiler.Bundle

/-!
# Reading a zip archive

Model of `readZip` (`compiler/src/bundle.mjs`) on the bytes of an archive: the search for the end
record, the loop over the central directory, and the data of each entry. A read outside of the
archive is an error of its own (`outOfRange`), which the source would throw as a `RangeError`.
`inflateRawSync` is a parameter that returns bytes or fails.
-/

namespace SharedNode.Compiler.Zip

open Text

/-! ## Reads -/

/-- A failure with its code, or a read outside of the archive. -/
inductive ZipError where
  | failure (code : String)
  | outOfRange
  deriving DecidableEq, Repr

abbrev Reading (α : Type) := Except ZipError α

def invalid {α : Type} : Reading α := .error (.failure "invalid_bundle")

def u16 (view : Bytes) (offset : Nat) : Reading Nat :=
  match view.drop offset with
  | a :: b :: _ => .ok (a.toNat + 2 ^ 8 * b.toNat)
  | _ => .error .outOfRange

def u32 (view : Bytes) (offset : Nat) : Reading Nat :=
  match view.drop offset with
  | a :: b :: c :: d :: _ =>
    .ok (a.toNat + 2 ^ 8 * b.toNat + 2 ^ 16 * c.toNat + 2 ^ 24 * d.toNat)
  | _ => .error .outOfRange

def crcBit (crc : UInt32) : UInt32 :=
  if crc &&& 1 = 1 then (0xedb88320 : UInt32) ^^^ (crc >>> 1) else crc >>> 1

def crc32 (bytes : Bytes) : UInt32 :=
  (bytes.foldl (fun crc byte =>
    crcBit (crcBit (crcBit (crcBit (crcBit (crcBit (crcBit (crcBit (crc ^^^ byte.toUInt32)))))))))
    0xffffffff) ^^^ 0xffffffff

example : crc32 (lit "123456789") = 0xcbf43926 := by decide +kernel

/-! ## The directory -/

/-- The fields of a record of the central directory. -/
structure Central where
  flags : Nat
  method : Nat
  expectedCrc : Nat
  compressedSize : Nat
  size : Nat
  nameLength : Nat
  extraLength : Nat
  commentLength : Nat
  localOffset : Nat
  deriving DecidableEq, Repr

def Central.length (r : Central) : Nat := 46 + r.nameLength + r.extraLength + r.commentLength

def readCentral (archive : Bytes) (cursor : Nat) : Reading Central :=
  if archive.length < cursor + 46 then invalid
  else do
    let signature ← u32 archive cursor
    if signature ≠ 0x02014b50 then invalid
    else do
      let flags ← u16 archive (cursor + 8)
      let method ← u16 archive (cursor + 10)
      let expectedCrc ← u32 archive (cursor + 16)
      let compressedSize ← u32 archive (cursor + 20)
      let size ← u32 archive (cursor + 24)
      let nameLength ← u16 archive (cursor + 28)
      let extraLength ← u16 archive (cursor + 30)
      let commentLength ← u16 archive (cursor + 32)
      let localOffset ← u32 archive (cursor + 42)
      return ⟨flags, method, expectedCrc, compressedSize, size, nameLength, extraLength,
        commentLength, localOffset⟩

/-- The limits of a record: no encryption, no method but storing and deflating, and no size that is
out of proportion. -/
def admissible (archive : Bytes) (cursor : Nat) (r : Central) (logicalBytes : Nat) : Bool :=
  cursor + r.length ≤ archive.length && r.flags % 2 = 0 && (r.method = 0 || r.method = 8) &&
    r.size ≤ maxEntryBytes && (logicalBytes : Int) ≤ maxPackageInputBytes &&
    (r.size = 0 || r.compressedSize ≠ 0 && r.size ≤ 100 * r.compressedSize)

def nameOf (archive : Bytes) (cursor : Nat) (r : Central) : Option JsString :=
  decode ((archive.drop (cursor + 46)).take r.nameLength)

/-- The data of an entry, which lies between its local header and the central directory. -/
def readData (inflate : Bytes → Option Bytes) (archive : Bytes) (centralOffset : Nat)
    (r : Central) : Reading Bytes :=
  if centralOffset < r.localOffset + 30 then invalid
  else do
    let signature ← u32 archive r.localOffset
    if signature ≠ 0x04034b50 then invalid
    else do
      let localNameLength ← u16 archive (r.localOffset + 26)
      let localExtraLength ← u16 archive (r.localOffset + 28)
      let dataOffset := r.localOffset + 30 + localNameLength + localExtraLength
      if centralOffset < dataOffset + r.compressedSize then invalid
      else
        let compressed := (archive.drop dataOffset).take r.compressedSize
        match if r.method = 0 then some compressed else inflate compressed with
        | none => invalid
        | some bytes =>
          if bytes.length ≠ r.size || (crc32 bytes).toNat ≠ r.expectedCrc then invalid
          else .ok bytes

/-- The loop over the records: how many are left, where the next one starts, the sizes and the
entries so far. -/
def readEntries (inflate : Bytes → Option Bytes) (archive : Bytes) (centralOffset : Nat) :
    Nat → Nat → Nat → List (JsString × Bytes) → Reading (List (JsString × Bytes) × Nat)
  | 0, cursor, _, entries => .ok (entries, cursor)
  | n + 1, cursor, logicalBytes, entries => do
    let r ← readCentral archive cursor
    if !admissible archive cursor r (logicalBytes + r.size) then invalid
    else
      match nameOf archive cursor r with
      | none => invalid
      | some path =>
        if !safeZipPath path || (entries.map Prod.fst).contains path then invalid
        else do
          let bytes ← readData inflate archive centralOffset r
          readEntries inflate archive centralOffset n (cursor + r.length) (logicalBytes + r.size)
            (entries ++ [(path, bytes)])

/-- The search for the end record, from `lowest + n` down to `lowest`. -/
def findEocd (archive : Bytes) (lowest : Nat) : Nat → Reading (Option Nat)
  | 0 => do
    let signature ← u32 archive lowest
    if signature = 0x06054b50 then return some lowest else return none
  | n + 1 => do
    let signature ← u32 archive (lowest + (n + 1))
    if signature = 0x06054b50 then return some (lowest + (n + 1)) else findEocd archive lowest n

/-- `readZip`: the entries in the order of the central directory. -/
def readZip (inflate : Bytes → Option Bytes) (archive : Bytes) :
    Reading (List (JsString × Bytes)) :=
  if archive.length < 22 then invalid
  else do
    let lowest := archive.length - 65557
    match ← findEocd archive lowest (archive.length - 22 - lowest) with
    | none => invalid
    | some eocd =>
      let disk ← u16 archive (eocd + 4)
      let centralDisk ← u16 archive (eocd + 6)
      if disk ≠ 0 || centralDisk ≠ 0 then invalid
      else do
        let count ← u16 archive (eocd + 10)
        let centralSize ← u32 archive (eocd + 12)
        let centralOffset ← u32 archive (eocd + 16)
        if maxBundleEntries < count || eocd < centralOffset + centralSize then invalid
        else do
          let (entries, cursor) ← readEntries inflate archive centralOffset count centralOffset 0 []
          if cursor ≠ centralOffset + centralSize then invalid else .ok entries

/-! ## Range -/

section Range

variable {α β : Type}

/-- A computation whose only error is the failure of a check: it makes no read out of range. -/
def Ranged (x : Reading α) : Prop := ∀ err, x = .error err → err = .failure "invalid_bundle"

theorem ranged_ok (a : α) : Ranged (.ok a : Reading α) := nofun

theorem ranged_invalid : Ranged (invalid : Reading α) :=
  fun _ h => (Except.error.inj h).symm

theorem Ranged.bind {x : Reading α} {f : α → Reading β} (hx : Ranged x)
    (hf : ∀ a, x = .ok a → Ranged (f a)) : Ranged (x >>= f) := by
  cases x with
  | error err =>
    intro err' h
    exact hx err' (congrArg Except.error (Except.error.inj h))
  | ok a => exact hf a rfl

theorem Ranged.ite {c : Prop} [Decidable c] {x y : Reading α} (hx : c → Ranged x)
    (hy : ¬ c → Ranged y) : Ranged (if c then x else y) := by
  split
  next h => exact hx h
  next h => exact hy h

theorem not_of_ite_invalid {c : Prop} [Decidable c] {x : Reading α} {a : α}
    (h : (if c then invalid else x) = .ok a) : ¬ c ∧ x = .ok a := by
  split at h
  next => cases h
  next hc => exact ⟨hc, h⟩

theorem ranged_u16 {view : Bytes} {offset : Nat} (h : offset + 2 ≤ view.length) :
    Ranged (u16 view offset) := by
  have hlen : 2 ≤ (view.drop offset).length := by rw [List.length_drop]; omega
  unfold u16
  match view.drop offset, hlen with
  | a :: b :: _, _ => exact ranged_ok _

theorem ranged_u32 {view : Bytes} {offset : Nat} (h : offset + 4 ≤ view.length) :
    Ranged (u32 view offset) := by
  have hlen : 4 ≤ (view.drop offset).length := by rw [List.length_drop]; omega
  unfold u32
  match view.drop offset, hlen with
  | a :: b :: c :: d :: _, _ => exact ranged_ok _

end Range

variable {inflate : Bytes → Option Bytes} {archive : Bytes} {centralOffset cursor : Nat}

theorem ranged_readCentral : Ranged (readCentral archive cursor) := by
  refine Ranged.ite (fun _ => ranged_invalid) fun h => ?_
  refine (ranged_u32 (by omega)).bind fun signature _ => ?_
  refine Ranged.ite (fun _ => ranged_invalid) fun _ => ?_
  refine (ranged_u16 (by omega)).bind fun _ _ => (ranged_u16 (by omega)).bind fun _ _ => ?_
  refine (ranged_u32 (by omega)).bind fun _ _ => (ranged_u32 (by omega)).bind fun _ _ => ?_
  refine (ranged_u32 (by omega)).bind fun _ _ => (ranged_u16 (by omega)).bind fun _ _ => ?_
  refine (ranged_u16 (by omega)).bind fun _ _ => (ranged_u16 (by omega)).bind fun _ _ => ?_
  exact (ranged_u32 (by omega)).bind fun _ _ => ranged_ok _

variable {r : Central} {n logicalBytes stop : Nat} {entries : List (JsString × Bytes)}

/-- A local header that ends before the central directory is in the archive. -/
theorem ranged_readData (h : centralOffset ≤ archive.length) :
    Ranged (readData inflate archive centralOffset r) := by
  refine Ranged.ite (fun _ => ranged_invalid) fun hlocal => ?_
  refine (ranged_u32 (by omega)).bind fun signature _ => ?_
  refine Ranged.ite (fun _ => ranged_invalid) fun _ => ?_
  refine (ranged_u16 (by omega)).bind fun _ _ => (ranged_u16 (by omega)).bind fun _ _ => ?_
  refine Ranged.ite (fun _ => ranged_invalid) fun _ => ?_
  dsimp only
  split
  · exact ranged_invalid
  · exact Ranged.ite (fun _ => ranged_invalid) fun _ => ranged_ok _

theorem ranged_readEntries (h : centralOffset ≤ archive.length) :
    Ranged (readEntries inflate archive centralOffset n cursor logicalBytes entries) := by
  induction n generalizing cursor logicalBytes entries with
  | zero => exact ranged_ok _
  | succ n ih =>
    refine ranged_readCentral.bind fun r _ => ?_
    refine Ranged.ite (fun _ => ranged_invalid) fun _ => ?_
    split
    · exact ranged_invalid
    · refine Ranged.ite (fun _ => ranged_invalid) fun _ => ?_
      exact (ranged_readData h).bind fun _ _ => ih

theorem ranged_findEocd {lowest : Nat} (h : lowest + n + 4 ≤ archive.length) :
    Ranged (findEocd archive lowest n) := by
  induction n with
  | zero =>
    refine (ranged_u32 (by omega)).bind fun _ _ => ?_
    exact Ranged.ite (fun _ => ranged_ok _) fun _ => ranged_ok _
  | succ n ih =>
    refine (ranged_u32 (by omega)).bind fun _ _ => ?_
    exact Ranged.ite (fun _ => ranged_ok _) fun _ => ih (by omega)

theorem findEocd_some {lowest eocd : Nat} (h : findEocd archive lowest n = .ok (some eocd)) :
    u32 archive eocd = .ok 0x06054b50 ∧ eocd ≤ lowest + n := by
  induction n with
  | zero =>
    obtain ⟨signature, hread, h⟩ := bind_eq_ok h
    split at h
    next hsig =>
      obtain rfl : lowest = eocd := Option.some.inj (Except.ok.inj h)
      exact ⟨hsig ▸ hread, by omega⟩
    next => cases h
  | succ n ih =>
    obtain ⟨signature, hread, h⟩ := bind_eq_ok h
    split at h
    next hsig =>
      obtain rfl : lowest + (n + 1) = eocd := Option.some.inj (Except.ok.inj h)
      exact ⟨hsig ▸ hread, le_rfl⟩
    next =>
      obtain ⟨hat, hle⟩ := ih h
      exact ⟨hat, by omega⟩

theorem ranged_readZip : Ranged (readZip inflate archive) := by
  refine Ranged.ite (fun _ => ranged_invalid) fun hlen => ?_
  refine (ranged_findEocd (by omega)).bind fun found hfound => ?_
  cases found with
  | none => exact ranged_invalid
  | some eocd =>
    have heocd := (findEocd_some hfound).2
    refine (ranged_u16 (by omega)).bind fun _ _ => (ranged_u16 (by omega)).bind fun _ _ => ?_
    refine Ranged.ite (fun _ => ranged_invalid) fun _ => ?_
    refine (ranged_u16 (by omega)).bind fun count _ => ?_
    refine (ranged_u32 (by omega)).bind fun centralSize _ => ?_
    refine (ranged_u32 (by omega)).bind fun centralOffset _ => ?_
    refine Ranged.ite (fun _ => ranged_invalid) fun hcentral => ?_
    simp only [Bool.or_eq_true, decide_eq_true_eq, not_or] at hcentral
    refine (ranged_readEntries (by omega)).bind fun result _ => ?_
    exact Ranged.ite (fun _ => ranged_invalid) fun _ => ranged_ok _

/-! ## Layout -/

structure RecordAt (archive : Bytes) (cursor : Nat) (r : Central) : Prop where
  signature : u32 archive cursor = .ok 0x02014b50
  flags : u16 archive (cursor + 8) = .ok r.flags
  method : u16 archive (cursor + 10) = .ok r.method
  expectedCrc : u32 archive (cursor + 16) = .ok r.expectedCrc
  compressedSize : u32 archive (cursor + 20) = .ok r.compressedSize
  size : u32 archive (cursor + 24) = .ok r.size
  nameLength : u16 archive (cursor + 28) = .ok r.nameLength
  extraLength : u16 archive (cursor + 30) = .ok r.extraLength
  commentLength : u16 archive (cursor + 32) = .ok r.commentLength
  localOffset : u32 archive (cursor + 42) = .ok r.localOffset

/-- The data of an entry: it lies after the local header and before the central directory, and has
the size and the checksum of the record. -/
structure DataAt (inflate : Bytes → Option Bytes) (archive : Bytes) (centralOffset : Nat)
    (r : Central) (dataOffset : Nat) (bytes : Bytes) : Prop where
  signature : u32 archive r.localOffset = .ok 0x04034b50
  offset : ∃ localNameLength localExtraLength,
    u16 archive (r.localOffset + 26) = .ok localNameLength ∧
      u16 archive (r.localOffset + 28) = .ok localExtraLength ∧
      dataOffset = r.localOffset + 30 + localNameLength + localExtraLength
  before : dataOffset + r.compressedSize ≤ centralOffset
  content : let compressed := (archive.drop dataOffset).take r.compressedSize
    r.method = 0 ∧ bytes = compressed ∨ r.method = 8 ∧ inflate compressed = some bytes
  size : bytes.length = r.size
  crc : (crc32 bytes).toNat = r.expectedCrc

structure EntryAt (inflate : Bytes → Option Bytes) (archive : Bytes) (centralOffset cursor : Nat)
    (r : Central) (entry : JsString × Bytes) : Prop where
  record : RecordAt archive cursor r
  name : nameOf archive cursor r = some entry.1
  safe : safeZipPath entry.1
  size : r.size ≤ maxEntryBytes
  data : ∃ dataOffset, DataAt inflate archive centralOffset r dataOffset entry.2

/-- Records that follow each other from a cursor up to `stop`, with their entries. -/
inductive Tiles (inflate : Bytes → Option Bytes) (archive : Bytes) (centralOffset stop : Nat) :
    Nat → List Central → List (JsString × Bytes) → Prop where
  | nil : Tiles inflate archive centralOffset stop stop [] []
  | cons {cursor : Nat} {r : Central} {entry : JsString × Bytes} {records : List Central}
      {entries : List (JsString × Bytes)}
      (head : EntryAt inflate archive centralOffset cursor r entry)
      (tail : Tiles inflate archive centralOffset stop (cursor + r.length) records entries) :
      Tiles inflate archive centralOffset stop cursor (r :: records) (entry :: entries)

/-- The fields of the end record. -/
structure Directory where
  eocd : Nat
  count : Nat
  centralSize : Nat
  centralOffset : Nat

/-- The end record that stands in the archive. -/
structure DirectoryAt (archive : Bytes) (d : Directory) : Prop where
  signature : u32 archive d.eocd = .ok 0x06054b50
  count : u16 archive (d.eocd + 10) = .ok d.count
  centralSize : u32 archive (d.eocd + 12) = .ok d.centralSize
  centralOffset : u32 archive (d.eocd + 16) = .ok d.centralOffset
  before : d.centralOffset + d.centralSize ≤ d.eocd

/-- The layout of an archive: the records tile the central directory that the end record declares,
one for each entry, under distinct names and within the limits. -/
structure Layout (inflate : Bytes → Option Bytes) (archive : Bytes) (d : Directory)
    (records : List Central) (entries : List (JsString × Bytes)) : Prop where
  directory : DirectoryAt archive d
  count : records.length = d.count ∧ d.count ≤ maxBundleEntries
  tiles : Tiles inflate archive d.centralOffset (d.centralOffset + d.centralSize) d.centralOffset
    records entries
  nodup : (entries.map Prod.fst).Nodup
  total : ((entries.map fun entry => entry.2.length).sum : Nat) ≤ maxPackageInputBytes

theorem recordAt_of_readCentral (h : readCentral archive cursor = .ok r) :
    RecordAt archive cursor r := by
  obtain ⟨-, h⟩ := not_of_ite_invalid h
  obtain ⟨signature, hsignature, h⟩ := bind_eq_ok h
  obtain ⟨hmagic, h⟩ := not_of_ite_invalid h
  obtain ⟨flags, hflags, h⟩ := bind_eq_ok h
  obtain ⟨method, hmethod, h⟩ := bind_eq_ok h
  obtain ⟨expectedCrc, hcrc, h⟩ := bind_eq_ok h
  obtain ⟨compressedSize, hcompressed, h⟩ := bind_eq_ok h
  obtain ⟨size, hsize, h⟩ := bind_eq_ok h
  obtain ⟨nameLength, hname, h⟩ := bind_eq_ok h
  obtain ⟨extraLength, hextra, h⟩ := bind_eq_ok h
  obtain ⟨commentLength, hcomment, h⟩ := bind_eq_ok h
  obtain ⟨localOffset, hlocal, h⟩ := bind_eq_ok h
  cases h
  rw [not_not.mp hmagic] at hsignature
  exact ⟨hsignature, hflags, hmethod, hcrc, hcompressed, hsize, hname, hextra, hcomment, hlocal⟩

theorem dataAt_of_readData {bytes : Bytes} (hmethod : r.method = 0 ∨ r.method = 8)
    (h : readData inflate archive centralOffset r = .ok bytes) :
    ∃ dataOffset, DataAt inflate archive centralOffset r dataOffset bytes := by
  obtain ⟨-, h⟩ := not_of_ite_invalid h
  obtain ⟨signature, hsignature, h⟩ := bind_eq_ok h
  obtain ⟨hmagic, h⟩ := not_of_ite_invalid h
  obtain ⟨localNameLength, hname, h⟩ := bind_eq_ok h
  obtain ⟨localExtraLength, hextra, h⟩ := bind_eq_ok h
  obtain ⟨hbefore, h⟩ := not_of_ite_invalid h
  rw [not_not.mp hmagic] at hsignature
  dsimp only at h
  split at h
  next => cases h
  next content hcontent =>
    obtain ⟨hchecks, h⟩ := not_of_ite_invalid h
    cases h
    simp only [ne_eq, Bool.or_eq_true, decide_eq_true_eq, not_or, not_not] at hchecks
    refine ⟨_, hsignature, ⟨_, _, hname, hextra, rfl⟩, by omega, ?_, hchecks.1, hchecks.2⟩
    rcases hmethod with hstored | hdeflated
    · rw [if_pos hstored] at hcontent
      exact .inl ⟨hstored, (Option.some.inj hcontent).symm⟩
    · rw [if_neg (by omega)] at hcontent
      exact .inr ⟨hdeflated, hcontent⟩

theorem readEntries_succ {all : List (JsString × Bytes)}
    (h : readEntries inflate archive centralOffset (n + 1) cursor logicalBytes entries =
      .ok (all, stop)) :
    ∃ r entry, EntryAt inflate archive centralOffset cursor r entry ∧
      entry.1 ∉ entries.map Prod.fst ∧
      ((logicalBytes + r.size : Nat) : Int) ≤ maxPackageInputBytes ∧
      readEntries inflate archive centralOffset n (cursor + r.length) (logicalBytes + r.size)
        (entries ++ [entry]) = .ok (all, stop) := by
  obtain ⟨r, hrecord, h⟩ := bind_eq_ok h
  obtain ⟨hadmissible, h⟩ := not_of_ite_invalid h
  split at h
  next => cases h
  next path hname =>
    obtain ⟨hpath, h⟩ := not_of_ite_invalid h
    obtain ⟨bytes, hdata, h⟩ := bind_eq_ok h
    simp only [admissible, Bool.not_eq_true', Bool.not_eq_false, Bool.and_eq_true, Bool.or_eq_true,
      decide_eq_true_eq] at hadmissible
    simp only [Bool.or_eq_true, Bool.not_eq_true', not_or, Bool.not_eq_false,
      List.contains_iff_mem] at hpath
    obtain ⟨⟨⟨⟨-, hmethod⟩, hsize⟩, htotal⟩, -⟩ := hadmissible
    exact ⟨r, (path, bytes), ⟨recordAt_of_readCentral hrecord, hname, hpath.1, hsize,
      dataAt_of_readData hmethod hdata⟩, hpath.2, htotal, h⟩

/-- The loop by induction on the number of records that are left: what it adds to the entries it
started from tiles the directory from its cursor on, and the names and the sizes stay in bounds. -/
theorem readEntries_tiles {all : List (JsString × Bytes)} (hnodup : (entries.map Prod.fst).Nodup)
    (hbytes : (entries.map fun entry => entry.2.length).sum = logicalBytes)
    (htotal : (logicalBytes : Int) ≤ maxPackageInputBytes)
    (h : readEntries inflate archive centralOffset n cursor logicalBytes entries =
      .ok (all, stop)) :
    ∃ records added, all = entries ++ added ∧ records.length = n ∧
      Tiles inflate archive centralOffset stop cursor records added ∧
      (all.map Prod.fst).Nodup ∧
      ((all.map fun entry => entry.2.length).sum : Nat) ≤ maxPackageInputBytes := by
  induction n generalizing cursor logicalBytes entries with
  | zero =>
    cases h
    exact ⟨[], [], (List.append_nil _).symm, rfl, .nil, hnodup, by rw [hbytes]; exact htotal⟩
  | succ n ih =>
    obtain ⟨r, entry, hentry, hnew, hsum, hrest⟩ := readEntries_succ h
    have hnodup' : ((entries ++ [entry]).map Prod.fst).Nodup := by
      rw [List.map_append, List.map_singleton]
      exact hnodup.append (List.nodup_singleton _) (by simpa using hnew)
    have hlength : entry.2.length = r.size := by
      obtain ⟨dataOffset, hdata⟩ := hentry.data
      exact hdata.size
    have hbytes' : ((entries ++ [entry]).map fun entry => entry.2.length).sum =
        logicalBytes + r.size := by
      rw [List.map_append, List.sum_append, hbytes, List.map_singleton, List.sum_singleton, hlength]
    obtain ⟨records, added, rfl, hcount, htiles, hnames, hsizes⟩ := ih hnodup' hbytes' hsum hrest
    refine ⟨r :: records, entry :: added, by simp, by rw [List.length_cons, hcount],
      .cons hentry htiles, hnames, hsizes⟩

theorem layout_of_readZip (h : readZip inflate archive = .ok entries) :
    ∃ directory records, Layout inflate archive directory records entries := by
  obtain ⟨-, h⟩ := not_of_ite_invalid h
  obtain ⟨found, hfound, h⟩ := bind_eq_ok h
  cases found with
  | none => cases h
  | some eocd =>
    obtain ⟨disk, -, h⟩ := bind_eq_ok h
    obtain ⟨centralDisk, -, h⟩ := bind_eq_ok h
    obtain ⟨-, h⟩ := not_of_ite_invalid h
    obtain ⟨count, hcount, h⟩ := bind_eq_ok h
    obtain ⟨centralSize, hsize, h⟩ := bind_eq_ok h
    obtain ⟨centralOffset, hoffset, h⟩ := bind_eq_ok h
    obtain ⟨hlimits, h⟩ := not_of_ite_invalid h
    obtain ⟨⟨all, stop⟩, hentries, h⟩ := bind_eq_ok h
    obtain ⟨hstop, h⟩ := not_of_ite_invalid h
    obtain rfl := Except.ok.inj h
    obtain rfl := not_not.mp hstop
    simp only [Bool.or_eq_true, decide_eq_true_eq, not_or, not_lt] at hlimits
    have hstart : ((0 : Nat) : Int) ≤ maxPackageInputBytes := by decide
    obtain ⟨records, added, hall, hlength, htiles, hnodup, htotal⟩ :=
      readEntries_tiles (show (([] : List (JsString × Bytes)).map Prod.fst).Nodup from
        List.nodup_nil) rfl hstart hentries
    obtain rfl : all = added := hall
    exact ⟨⟨eocd, count, centralSize, centralOffset⟩, records,
      ⟨(findEocd_some hfound).1, hcount, hsize, hoffset, hlimits.2⟩, ⟨hlength, hlimits.1⟩, htiles,
      hnodup, htotal⟩

/-- On every archive, `readZip` returns the entries of its layout or fails: no read is out of
range. -/
theorem readZip_layout (inflate : Bytes → Option Bytes) (archive : Bytes) :
    match readZip inflate archive with
    | .ok entries => ∃ directory records, Layout inflate archive directory records entries
    | .error err => err = .failure "invalid_bundle" := by
  cases hread : readZip inflate archive with
  | ok entries => exact layout_of_readZip hread
  | error err => exact ranged_readZip err hread

namespace Sample

/-- One stored entry, `a` with the content `b`: the local header, the record and the end record. -/
def stored : Bytes :=
  [0x50, 0x4b, 3, 4, 20, 0, 0, 0, 0, 0, 0, 0, 0, 0, 0xf9, 0xef, 0xbe, 0x71, 1, 0, 0, 0, 1, 0, 0, 0,
    1, 0, 0, 0, 0x61, 0x62] ++
  [0x50, 0x4b, 1, 2, 20, 0, 20, 0, 0, 0, 0, 0, 0, 0, 0, 0, 0xf9, 0xef, 0xbe, 0x71, 1, 0, 0, 0,
    1, 0, 0, 0, 1, 0, 0, 0, 0, 0, 0, 0, 0, 0, 0, 0, 0, 0, 0, 0, 0, 0, 0x61] ++
  [0x50, 0x4b, 5, 6, 0, 0, 0, 0, 1, 0, 1, 0, 47, 0, 0, 0, 32, 0, 0, 0, 0, 0]

end Sample

example : readZip (fun _ => none) Sample.stored = .ok [(js "a", lit "b")] := by
  decide +kernel

theorem readZip_layout_sample : ∃ directory records,
    Layout (fun _ => none) Sample.stored directory records [(js "a", lit "b")] := by
  have h := readZip_layout (fun _ => none) Sample.stored
  exact h

end SharedNode.Compiler.Zip
