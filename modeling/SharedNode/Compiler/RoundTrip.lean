import SharedNode.Compiler.Builder

/-!
# Packages read back

What `packageDeterministicTarZst` writes, `unpackDeterministicTarZst` reads
(`compiler/src/reviewed-builder.mjs`): the blocks of the frame, the fields of the headers, and the
files one after the other. A name is written in two fields, as a directory and the rest, and each is
decoded on its own; a decoder drops a byte order mark, and a NUL ends a field. `PlainPath` says that
a path has neither.
-/

namespace SharedNode.Compiler

open Text

/-! ## Blocks -/

theorem rawBlocks_nil (n : Nat) : rawBlocks n [] = [] := by
  cases n <;> rfl

variable {n : Nat} {tar header : Bytes} {path : JsString} {files : Files}

theorem rawBlocks_succ {input : Bytes} (h : input ≠ []) : rawBlocks (n + 1) input =
      littleEndian 3 (min rawZstdBlockBytes input.length * 8 +
        if min rawZstdBlockBytes input.length = input.length then 1 else 0) ++
      (input.take (min rawZstdBlockBytes input.length) ++
        rawBlocks n (input.drop (min rawZstdBlockBytes input.length))) := by
  have hempty : input.isEmpty = false := by simpa using h
  simp only [rawBlocks, hempty, Bool.false_eq_true, if_false, List.append_assoc]

theorem readBlocks_block {m size last : Nat} {rest : Bytes} (hsize : size ≤ rawZstdBlockBytes)
    (hlast : last ≤ 1) (hrest : size ≤ rest.length) :
    readBlocks (m + 1) (littleEndian 3 (size * 8 + last) ++ rest) =
      if last = 1 then if (rest.drop size).isEmpty then some rest else none
      else (readBlocks m (rest.drop size)).map (rest.take size ++ ·) := by
  have hbound : size ≤ 2 ^ 17 := hsize
  obtain ⟨a, b, c, hbytes, hvalue⟩ : ∃ a b c, littleEndian 3 (size * 8 + last) = [a, b, c] ∧
      a.toNat + b.toNat * 0x100 + c.toNat * 0x10000 = size * 8 + last := by
    refine ⟨_, _, _, rfl, ?_⟩
    simp only [UInt8.toNat_ofNat']
    omega
  have hkind : (size * 8 + last) / 2 % 4 = 0 := by omega
  have hcount : (size * 8 + last) / 8 = size := by omega
  have hflag : (size * 8 + last) % 2 = last := by omega
  rw [hbytes]
  simp only [List.cons_append, List.nil_append, readBlocks, hvalue, hkind, hcount, hflag, ne_eq,
    not_true_eq_false, decide_false, Nat.not_lt.mpr hsize, Nat.not_lt.mpr hrest, Bool.or_self,
    Bool.false_eq_true, if_false]

theorem readBlocks_rawBlocks {m : Nat} {input : Bytes} (hne : input ≠ []) (hn : input.length ≤ n)
    (hm : (rawBlocks n input).length ≤ m) : readBlocks m (rawBlocks n input) = some input := by
  induction n generalizing m input with
  | zero => exact absurd (List.length_eq_zero_iff.mp (Nat.le_zero.mp hn)) hne
  | succ n ih =>
    have hblock : 0 < rawZstdBlockBytes := by decide
    rw [rawBlocks_succ hne] at hm ⊢
    generalize hsize : min rawZstdBlockBytes input.length = size at hm ⊢
    have hle : size ≤ input.length := hsize ▸ Nat.min_le_right _ _
    have hlength : (input.take size).length = size := List.length_take_of_le hle
    simp only [List.length_append, show ∀ v, (littleEndian 3 v).length = 3 from fun _ => rfl] at hm
    obtain ⟨m, rfl⟩ : ∃ m', m = m' + 1 := ⟨m - 1, by omega⟩
    rw [readBlocks_block (hsize ▸ Nat.min_le_left _ _) (by split <;> omega)
      (by rw [List.length_append]; omega)]
    by_cases hend : size = input.length
    · have hrest : input.drop size = [] := List.drop_eq_nil_of_le (by omega)
      rw [if_pos hend, if_pos rfl, hrest, rawBlocks_nil, List.append_nil,
        List.take_of_length_le (by omega), List.drop_eq_nil_of_le (by omega)]
      rfl
    · have hne' : input.drop size ≠ [] := by
        rw [ne_eq, List.drop_eq_nil_iff]
        omega
      rw [if_neg hend, if_neg (by decide), List.drop_left' hlength, List.take_left' hlength,
        ih hne' (by rw [List.length_drop]; omega) (by omega), Option.map_some,
        List.take_append_drop]

theorem unpack_of_rawZstd {archive : Bytes} (hne : tar ≠ []) (h : rawZstd tar = .ok archive) :
    unpackDeterministicTarZst archive = unpackTar tar := by
  simp only [rawZstd] at h
  split at h
  · cases h
  split at h
  · cases h
  next hbound =>
    cases h
    have hpos : 0 < tar.length := List.length_pos_iff.mpr hne
    have hthree : 3 ≤ (rawBlocks tar.length tar).length := by
      obtain ⟨n, hn⟩ : ∃ n, tar.length = n + 1 := ⟨tar.length - 1, by omega⟩
      rw [hn, rawBlocks_succ hne, List.length_append,
        show ∀ v, (littleEndian 3 v).length = 3 from fun _ => rfl]
      omega
    have hblocks : ∀ m, (rawBlocks tar.length tar).length ≤ m →
        readBlocks m (rawBlocks tar.length tar) = some tar := fun m hm =>
      readBlocks_rawBlocks hne le_rfl hm
    unfold unpackDeterministicTarZst
    generalize rawBlocks tar.length tar = blocks at *
    have hlength : ([0x28, 0xb5, 0x2f, 0xfd, 0xa0] ++ littleEndian 4 tar.length ++ blocks).length =
        9 + blocks.length := by
      rw [List.length_append]
      rfl
    have hdrop : ([0x28, 0xb5, 0x2f, 0xfd, 0xa0] ++ littleEndian 4 tar.length ++ blocks).drop 9 =
        blocks := rfl
    have hfields : (([0x28, 0xb5, 0x2f, 0xfd, 0xa0] ++ littleEndian 4 tar.length ++
        blocks).drop 5).take 4 = littleEndian 4 tar.length := rfl
    have hmagic : ([0x28, 0xb5, 0x2f, 0xfd, 0xa0] ++ littleEndian 4 tar.length ++ blocks).take 5 =
        [0x28, 0xb5, 0x2f, 0xfd, 0xa0] := rfl
    rw [hdrop, hfields, hmagic, hblocks _ (by omega)]
    rw [if_neg (by
      simp only [ne_eq, not_true_eq_false, decide_false, Bool.or_false, Bool.or_eq_true,
        decide_eq_true_eq, not_or]
      exact ⟨by omega, hbound⟩)]
    simp

/-! ## Fields of a header -/

section Fields

variable {length : Nat} {field : Bytes}

def FieldAt (header : Bytes) (offset : Nat) (field : Bytes) : Prop :=
  ∃ before after, header = before ++ (field ++ after) ∧ before.length = offset

theorem fieldAt_flatten {fields : List Bytes} {lengths : List Nat}
    (hlengths : fields.map List.length = lengths) (i : Nat) (hi : fields[i]? = some field) :
    FieldAt fields.flatten (lengths.take i).sum field := by
  obtain ⟨hlt, hget⟩ := List.getElem?_eq_some_iff.mp hi
  refine ⟨(fields.take i).flatten, (fields.drop (i + 1)).flatten, ?_, ?_⟩
  · conv_lhs => rw [← List.take_append_drop i fields]
    rw [List.flatten_append, List.drop_eq_getElem_cons hlt, hget, List.flatten_cons]
  · rw [List.length_flatten, List.map_take, hlengths]

theorem FieldAt.tarText {header : Bytes} {offset : Nat} (h : FieldAt header offset field)
    (hlength : field.length = length) :
    tarText header offset length = decode (field.takeWhile (· ≠ 0)) := by
  obtain ⟨before, after, rfl, hoffset⟩ := h
  rw [Compiler.tarText, List.drop_left' hoffset, List.take_left' hlength]

theorem field_of_writeTarText {bytes : Bytes} (hnul : 0 ∉ bytes)
    (h : writeTarText length bytes = .ok field) :
    field.length = length ∧ field.takeWhile (· ≠ 0) = bytes := by
  unfold writeTarText at h
  split at h
  · cases h
  next hle =>
    cases h
    refine ⟨by rw [List.length_append, List.length_replicate]; omega, ?_⟩
    have hall : ∀ b ∈ bytes, decide (b ≠ 0) = true := fun b hb =>
      decide_eq_true fun heq => hnul (heq ▸ hb)
    rw [List.takeWhile_append_of_pos hall]
    cases length - bytes.length with
    | zero => simp
    | succ k => simp [List.replicate_succ]

theorem octalDigit_of_mem {n : Nat} {c : Char} (h : c ∈ Nat.toDigits 8 n) :
    48 ≤ c.toNat ∧ c.toNat ≤ 55 := by
  have hdigit : ∀ d < 8, 48 ≤ (Nat.digitChar d).toNat ∧ (Nat.digitChar d).toNat ≤ 55 := by decide
  induction n using Nat.strongRecOn with
  | ind n ih =>
    rcases Nat.lt_or_ge n 8 with hn | hn
    · rw [Nat.toDigits_of_lt_base hn, List.mem_singleton] at h
      exact h ▸ hdigit n hn
    · rw [Nat.toDigits_of_base_le (by decide) hn, List.mem_append, List.mem_singleton] at h
      rcases h with h | h
      · exact ih (n / 8) (by omega) h
      · exact h ▸ hdigit (n % 8) (Nat.mod_lt _ (by decide))

structure Octal (digits : Bytes) (value : Nat) : Prop where
  nonempty : digits ≠ []
  range : ∀ b ∈ digits, 0x30 ≤ b ∧ b ≤ 0x37
  value : digits.foldl (fun n b => n * 8 + (b.toNat - 0x30)) 0 = value

theorem octal_padStart (width value : Nat) : Octal (padStart width (formatOctal value)) value := by
  have hformat : formatOctal value = (Nat.toDigits 8 value).map fun c => c.toNat.toUInt8 := by
    unfold formatOctal
    rfl
  have hcode : ∀ c ∈ Nat.toDigits 8 value, c.toNat.toUInt8.toNat = c.toNat := fun c hc => by
    have := octalDigit_of_mem hc
    simp
    omega
  have hzeros : ∀ k : Nat, (List.replicate k (0x30 : UInt8)).foldl
      (fun n b => n * 8 + (b.toNat - 0x30)) 0 = 0 := by
    intro k
    induction k with
    | zero => rfl
    | succ k ih => rw [List.replicate_succ, List.foldl_cons]; exact ih
  unfold padStart
  rw [hformat]
  refine ⟨?_, ?_, ?_⟩
  · simp [Nat.toDigits_ne_nil]
  · intro b hb
    rcases List.mem_append.mp hb with hzero | hdigit
    · rw [List.eq_of_mem_replicate hzero]
      decide
    · obtain ⟨c, hc, rfl⟩ := List.mem_map.mp hdigit
      have hrange := octalDigit_of_mem hc
      rw [UInt8.le_iff_toNat_le, UInt8.le_iff_toNat_le, hcode c hc]
      exact hrange
  · rw [List.foldl_append, hzeros, foldl_digits 8 _ _ hcode,
      Nat.ofDigitChars_toDigits (by decide) (by decide)]

theorem octal_of_writeTarOctal {value : Nat} (h : writeTarOctal length (value : Int) = .ok field) :
    field.length = length ∧ Octal (field.takeWhile (· ≠ 0)) value := by
  have hoctal := octal_padStart (length - 1) value
  unfold writeTarOctal at h
  simp only at h
  split at h
  · cases h
  · have hnul : (0 : UInt8) ∉ padStart (length - 1) (formatOctal value) := fun hmem =>
      absurd (hoctal.range 0 hmem).1 (by decide)
    obtain ⟨hlength, htext⟩ := field_of_writeTarText hnul h
    exact ⟨hlength, htext ▸ hoctal⟩

theorem trim_of_digits {s : JsString} (h : ∀ u ∈ s, 0x30 ≤ u ∧ u ≤ 0x37) : trim s = s := by
  have hspace : ∀ u : UInt16, 0x30 ≤ u → u ≤ 0x37 → isJsSpace u = false := by
    intro u hlow hhigh
    obtain ⟨d, hd, rfl⟩ : ∃ d < 8, u = UInt16.ofNat (0x30 + d) := by
      refine ⟨u.toNat - 0x30, by change u.toNat ≤ 55 at hhigh; omega, UInt16.toNat_inj.mp ?_⟩
      change 48 ≤ u.toNat at hlow
      change u.toNat ≤ 55 at hhigh
      rw [UInt16.toNat_ofNat']
      omega
    have : ∀ d < 8, isJsSpace (UInt16.ofNat (0x30 + d)) = false := by decide
    exact this d hd
  have hdrop : ∀ l : JsString, (∀ u ∈ l, 0x30 ≤ u ∧ u ≤ 0x37) → l.dropWhile isJsSpace = l := by
    intro l hl
    cases l with
    | nil => rfl
    | cons u rest =>
      have hu := hl u List.mem_cons_self
      rw [List.dropWhile_cons_of_neg (by simp [hspace u hu.1 hu.2])]
  rw [trim, hdrop s h, hdrop s.reverse fun u hu => h u (List.mem_reverse.mp hu),
    List.reverse_reverse]

theorem FieldAt.parseTarOctal {header : Bytes} {offset value : Nat}
    (hat : FieldAt header offset field)
    (hsafe : isSafeInteger value) (h : writeTarOctal length (value : Int) = .ok field) :
    parseTarOctal header offset length = some value := by
  obtain ⟨hlength, hoctal⟩ := octal_of_writeTarOctal h
  generalize hdigits : field.takeWhile (· ≠ 0) = digits at hoctal
  have hascii : ∀ b ∈ digits, b < 0x80 := fun b hb =>
    UInt8.lt_of_le_of_lt (hoctal.range b hb).2 (by decide)
  have hunits : ∀ u ∈ digits.map UInt8.toUInt16, 0x30 ≤ u ∧ u ≤ 0x37 := by
    intro u hu
    obtain ⟨b, hb, rfl⟩ := List.mem_map.mp hu
    have hrange := hoctal.range b hb
    exact hrange
  have hall : (digits.map UInt8.toUInt16).all (fun u => 0x30 ≤ u && u ≤ 0x37) = true :=
    List.all_eq_true.mpr fun u hu => by simpa using hunits u hu
  have hempty : (digits.map UInt8.toUInt16).isEmpty = false := by
    simpa using hoctal.nonempty
  have hvalue : (digits.map UInt8.toUInt16).foldl (fun n u => n * 8 + (u.toNat - 0x30)) 0 =
      value := by
    rw [List.foldl_map]
    simpa only [UInt8.toNat_toUInt16] using hoctal.value
  unfold Compiler.parseTarOctal
  rw [hat.tarText hlength, hdigits, decode_ascii hascii]
  simp only [Option.map_some, Option.bind_eq_bind, Option.bind_some, trim_of_digits hunits,
    hempty, hall, hvalue, hsafe, Bool.not_true, Bool.or_self, Bool.false_eq_true, if_false, if_true]

end Fields

/-! ## Paths -/

/-- A path whose parts are texts that a decoder leaves alone. -/
structure PlainPath (path : JsString) : Prop where
  text : IsText path
  nul : 0 ∉ path
  mark : ∀ part ∈ splitSlash path, part.head? ≠ some 0xfeff

theorem joinSlash_splitSlash (path : JsString) : joinSlash (splitSlash path) = path :=
  List.intercalate_splitOn 0x2f

theorem joinSlash_append {front back : List JsString} (hfront : front ≠ []) (hback : back ≠ []) :
    joinSlash (front ++ back) = joinSlash front ++ 0x2f :: joinSlash back := by
  unfold joinSlash
  induction front with
  | nil => exact absurd rfl hfront
  | cons part rest ih =>
    by_cases hrest : rest = []
    · subst hrest
      rw [List.singleton_append, List.intercalate_cons_of_ne_nil hback, List.intercalate_singleton,
        List.append_assoc, List.singleton_append]
    · rw [List.cons_append, List.intercalate_cons_of_ne_nil (by simp [hrest]), ih hrest,
        List.intercalate_cons_of_ne_nil hrest]
      simp only [List.append_assoc]

theorem head?_joinSlash {part : JsString} {rest : List JsString} (h : part ≠ []) :
    (joinSlash (part :: rest)).head? = part.head? := by
  unfold joinSlash
  by_cases hrest : rest = []
  · rw [hrest, List.intercalate_singleton]
  · rw [List.intercalate_cons_of_ne_nil hrest, List.append_assoc, List.head?_append_of_ne_nil _ h]

/-- A text of a header: it is decoded to itself. -/
structure FieldText (s : JsString) : Prop where
  text : IsText s
  nul : 0 ∉ s
  mark : s.head? ≠ some 0xfeff

theorem FieldText.nul_encode {s : JsString} (h : FieldText s) : 0 ∉ encode s :=
  fun hmem => h.nul ((mem_encode (by decide) s).mp hmem)

theorem FieldText.decode {s : JsString} (h : FieldText s) : decode (encode s) = some s :=
  decode_encode h.text h.mark

theorem split_of_splitTarPath {name dir : JsString} (hplain : PlainPath path)
    (hsafe : safeOutputPath path) (h : splitTarPath path = .ok (name, dir)) :
    FieldText name ∧ FieldText dir ∧
      (if dir.isEmpty then name else dir ++ js "/" ++ name) = path := by
  have hparts : ∀ part ∈ splitSlash path, part ≠ [] := by
    simp only [safeOutputPath, Bool.and_eq_true, List.all_eq_true, decide_eq_true_eq] at hsafe
    exact fun part hpart => (hsafe.2 part hpart).1.1
  have hnil : FieldText [] := ⟨⟨[], rfl⟩, by simp, by simp⟩
  have hfirst : ∀ {parts}, parts ≠ [] → parts ⊆ splitSlash path →
      (joinSlash parts).head? ≠ some 0xfeff ∧ joinSlash parts ≠ [] := by
    intro parts hne hsub
    cases parts with
    | nil => exact absurd rfl hne
    | cons part rest =>
      have hmem : part ∈ splitSlash path := hsub List.mem_cons_self
      have hhead : (joinSlash (part :: rest)).head? = part.head? :=
        head?_joinSlash (hparts part hmem)
      refine ⟨hhead ▸ hplain.mark part hmem, fun heq => ?_⟩
      rw [heq] at hhead
      exact hparts part hmem (List.head?_eq_none_iff.mp hhead.symm)
  unfold splitTarPath at h
  split at h
  · obtain ⟨rfl, rfl⟩ := Prod.mk.inj (Except.ok.inj h)
    have hne : splitSlash path ≠ [] := List.splitOn_ne_nil _ _
    have hmark := (hfirst hne (List.Subset.refl _)).1
    rw [joinSlash_splitSlash] at hmark
    exact ⟨⟨hplain.text, hplain.nul, hmark⟩, hnil, rfl⟩
  · simp only at h
    split at h
    next split hfind =>
      cases h
      obtain ⟨index, hindex, hsplit⟩ := List.mem_map.mp (List.mem_of_find?_eq_some hfind)
      obtain ⟨rfl, rfl⟩ := Prod.mk.inj hsplit
      rw [List.mem_range'_1] at hindex
      have hfront : (splitSlash path).take index ≠ [] := by
        rw [ne_eq, List.take_eq_nil_iff, not_or]
        exact ⟨by omega, List.splitOn_ne_nil _ _⟩
      have hback : (splitSlash path).drop index ≠ [] := by
        rw [ne_eq, List.drop_eq_nil_iff]
        omega
      have hpath : path = joinSlash ((splitSlash path).take index) ++
          0x2f :: joinSlash ((splitSlash path).drop index) := by
        rw [← joinSlash_append hfront hback, List.take_append_drop, joinSlash_splitSlash]
      have htexts := isText_of_append_cons (u := 0x2f) (by decide) (hpath ▸ hplain.text)
      have hnul := hpath ▸ hplain.nul
      rw [List.mem_append, List.mem_cons, not_or, not_or] at hnul
      have hfrontMark := hfirst hfront (List.take_subset _ _)
      have hbackMark := hfirst hback (List.drop_subset _ _)
      refine ⟨⟨htexts.2, hnul.2.2, hbackMark.1⟩, ⟨htexts.1, hnul.1, hfrontMark.1⟩, ?_⟩
      rw [if_neg (by simpa using hfrontMark.2), List.append_assoc]
      exact hpath.symm
    · cases h

/-! ## Headers -/

structure HeaderReads (header : Bytes) (path : JsString) (file : OutputFile) : Prop where
  length : header.length = 512
  magic : tarText header 257 6 = some (js "ustar")
  flag : header.getD 156 0 = 0x30
  path : tarPath header = some path
  size : parseTarOctal header 124 12 = some file.bytes.length
  mode : ∃ mode : Nat, parseTarOctal header 100 8 = some mode ∧ (mode : Int) = file.mode

theorem fields_of_tarHeader {file : OutputFile} (h : tarHeader path file = .ok header) :
    ∃ name dir nameField modeField owner sizeField modified magic root dirField checksum,
      splitTarPath path = .ok (name, dir) ∧ writeTarText 100 (encode name) = .ok nameField ∧
      writeTarOctal 8 file.mode = .ok modeField ∧ writeTarOctal 8 0 = .ok owner ∧
      writeTarOctal 12 file.bytes.length = .ok sizeField ∧ writeTarOctal 12 0 = .ok modified ∧
      writeTarText 6 (lit "ustar") = .ok magic ∧ writeTarText 32 (lit "root") = .ok root ∧
      writeTarText 155 (encode dir) = .ok dirField ∧ checksum.length = 8 ∧
      header = [nameField, modeField, owner, owner, sizeField, modified, checksum, [0x30],
        List.replicate 100 0, magic, lit "00", root, root, List.replicate 16 0, dirField,
        List.replicate 12 0].flatten := by
  obtain ⟨⟨name, dir⟩, hsplit, h⟩ := bind_eq_ok h
  obtain ⟨nameField, hname, h⟩ := bind_eq_ok h
  obtain ⟨modeField, hmodeField, h⟩ := bind_eq_ok h
  obtain ⟨owner, howner, h⟩ := bind_eq_ok h
  obtain ⟨sizeField, hsizeField, h⟩ := bind_eq_ok h
  obtain ⟨modified, hmodified, h⟩ := bind_eq_ok h
  obtain ⟨magic, hmagic, h⟩ := bind_eq_ok h
  obtain ⟨root, hroot, h⟩ := bind_eq_ok h
  obtain ⟨dirField, hdir, h⟩ := bind_eq_ok h
  obtain ⟨checksum, hchecksum, h⟩ := bind_eq_ok h
  have hlength : checksum.length = 8 := by
    unfold writeTarChecksum at hchecksum
    simp only at hchecksum
    split at hchecksum
    · cases hchecksum
    next hsix =>
      cases hchecksum
      rw [List.length_append, not_not.mp hsix]
      rfl
  refine ⟨name, dir, nameField, modeField, owner, sizeField, modified, magic, root, dirField,
    checksum, hsplit, hname, hmodeField, howner, hsizeField, hmodified, hmagic, hroot,
      hdir, hlength, ?_⟩
  rw [← Except.ok.inj h]
  simp only [List.flatten_cons, List.flatten_nil, List.append_nil, List.append_assoc]

theorem headerReads_of_tarHeader {file : OutputFile}
    (hplain : PlainPath path) (hsafe : safeOutputPath path)
    (hmode : validOutputMode file.mode) (hsize : isSafeInteger (file.bytes.length : Int))
    (h : tarHeader path file = .ok header) : HeaderReads header path file := by
  obtain ⟨name, dir, nameField, modeField, owner, sizeField, modified, magic, root, dirField,
    checksum, hsplit, hname, hmodeField, howner, hsizeField, hmodified, hmagic, hroot, hdir,
    hchecksum, rfl⟩ := fields_of_tarHeader h
  obtain ⟨hnameText, hdirText, hpath⟩ := split_of_splitTarPath hplain hsafe hsplit
  obtain ⟨mode, hmodeNat, hmodeSafe⟩ :
      ∃ mode : Nat, (mode : Int) = file.mode ∧ isSafeInteger (mode : Int) := by
    simp only [validOutputMode, Bool.or_eq_true, decide_eq_true_eq] at hmode
    rcases hmode with hmode | hmode
    · exact ⟨0o644, by rw [hmode]; rfl, by decide⟩
    · exact ⟨0o755, by rw [hmode]; rfl, by decide⟩
  rw [← hmodeNat] at hmodeField
  obtain ⟨hnameLength, hnameBytes⟩ := field_of_writeTarText hnameText.nul_encode hname
  obtain ⟨hdirLength, hdirBytes⟩ := field_of_writeTarText hdirText.nul_encode hdir
  obtain ⟨hmagicLength, hmagicBytes⟩ := field_of_writeTarText (by decide) hmagic
  have hrootLength := (field_of_writeTarText (by decide) hroot).1
  have hmodeLength := (octal_of_writeTarOctal hmodeField).1
  have hownerLength := (octal_of_writeTarOctal (show writeTarOctal 8 ((0 : Nat) : Int) = _ from
    howner)).1
  have hsizeLength := (octal_of_writeTarOctal hsizeField).1
  have hmodifiedLength := (octal_of_writeTarOctal (show writeTarOctal 12 ((0 : Nat) : Int) = _ from
    hmodified)).1
  have hlengths : [nameField, modeField, owner, owner, sizeField, modified, checksum, [0x30],
      List.replicate 100 0, magic, lit "00", root, root, List.replicate 16 0, dirField,
      List.replicate 12 0].map List.length =
        [100, 8, 8, 8, 12, 12, 8, 1, 100, 6, 2, 32, 32, 16, 155, 12] := by
    simp only [List.map_cons, List.map_nil, List.length_replicate, hnameLength, hmodeLength,
      hownerLength, hsizeLength, hmodifiedLength, hchecksum, hmagicLength, hrootLength, hdirLength]
    rfl
  have hnameAt : FieldAt _ 0 nameField := fieldAt_flatten hlengths 0 rfl
  have hmodeAt : FieldAt _ 100 modeField := fieldAt_flatten hlengths 1 rfl
  have hsizeAt : FieldAt _ 124 sizeField := fieldAt_flatten hlengths 4 rfl
  have hflagAt : FieldAt _ 156 [0x30] := fieldAt_flatten hlengths 7 rfl
  have hmagicAt : FieldAt _ 257 magic := fieldAt_flatten hlengths 9 rfl
  have hdirAt : FieldAt _ 345 dirField := fieldAt_flatten hlengths 14 rfl
  refine ⟨?_, ?_, ?_, ?_, hsizeAt.parseTarOctal hsize hsizeField, mode,
    hmodeAt.parseTarOctal hmodeSafe hmodeField, hmodeNat⟩
  · rw [List.length_flatten, hlengths]
    rfl
  · have hascii : (lit "ustar").all (· < 0x80) = true := by decide
    rw [hmagicAt.tarText hmagicLength, hmagicBytes,
      decode_ascii fun b hb => of_decide_eq_true (List.all_eq_true.mp hascii b hb)]
    decide
  · obtain ⟨before, after, hheader, hoffset⟩ := hflagAt
    rw [hheader, List.getD_eq_getElem?_getD, List.getElem?_append_right hoffset.le, hoffset]
    rfl
  · unfold tarPath
    rw [hnameAt.tarText hnameLength, hnameBytes, hnameText.decode, hdirAt.tarText hdirLength,
      hdirBytes, hdirText.decode]
    exact congrArg some hpath

/-! ## The archive -/

theorem plain_runtimePath : PlainPath runtimePath :=
  ⟨⟨".xmcl/runtime.json".toList, rfl⟩, by decide, by decide⟩

theorem plain_launchPath : PlainPath launchPath :=
  ⟨⟨".xmcl/launch.sh".toList, rfl⟩, by decide, by decide⟩

structure Packable (entry : JsString × OutputFile) : Prop where
  plain : PlainPath entry.1
  safe : safeOutputPath entry.1
  mode : validOutputMode entry.2.mode
  size : isSafeInteger (entry.2.bytes.length : Int)

theorem unpackEntries_file {entry : JsString × OutputFile} (hpackable : Packable entry)
    (hheader : HeaderReads header entry.1 entry.2) (hnew : files.has entry.1 = false) :
    unpackEntries (n + 1) (header ++ (entry.2.bytes ++
        (List.replicate (tarPadding entry.2.bytes.length) 0 ++ tar))) files =
      unpackEntries n tar (files.set entry.1 entry.2) := by
  obtain ⟨mode, hmode, hmodeEq⟩ := hheader.mode
  have hnonzero : ¬ header.all (fun b => decide (b = 0)) = true := by
    intro hall
    have hflag := hheader.flag
    rw [List.getD_eq_getElem?_getD] at hflag
    cases hget : header[156]? with
    | none =>
      rw [hget] at hflag
      exact absurd hflag (by decide)
    | some b =>
      have hb := List.all_eq_true.mp hall b (List.mem_of_getElem? hget)
      rw [hget, of_decide_eq_true hb] at hflag
      exact absurd hflag (by decide)
  have hlength : ¬ (header ++ (entry.2.bytes ++
      (List.replicate (tarPadding entry.2.bytes.length) 0 ++ tar))).length < 512 := by
    rw [List.length_append, hheader.length]
    omega
  have hpadding : (entry.2.bytes ++
    (List.replicate (tarPadding entry.2.bytes.length) 0 ++ tar)).drop
      (entry.2.bytes.length + tarPadding entry.2.bytes.length) = tar := by
    rw [← List.append_assoc, List.drop_left' (by simp)]
  have hfile : (⟨entry.2.bytes, mode⟩ : OutputFile) = entry.2 := by
    rw [hmodeEq]
  have hvalid : validOutputMode (mode : Int) = true := by
    rw [hmodeEq]
    exact hpackable.mode
  have hrest : ¬ (entry.2.bytes ++ (List.replicate (tarPadding entry.2.bytes.length) 0 ++
      tar)).length < entry.2.bytes.length := by
    rw [List.length_append]
    omega
  rw [unpackEntries]
  simp only [List.take_left' hheader.length, List.drop_left' hheader.length]
  rw [if_neg hlength, if_neg hnonzero,
    if_neg (by rw [hheader.magic, hheader.flag]; decide)]
  simp only [hheader.path, hheader.size, hmode, hpackable.safe, hnew, hvalid, hrest, hpadding,
    List.take_left, hfile, Bool.not_true, decide_false, Bool.or_self, Bool.false_eq_true, if_false]

/-- The reader of the files that are left: what it adds to those it has is what was packaged. -/
theorem unpackEntries_packageEntries {entries : List (JsString × OutputFile)} {total : Nat}
    (hpackable : ∀ entry ∈ entries, Packable entry)
    (hnodup : (files.paths ++ entries.map Prod.fst).Nodup) (hn : entries.length < n)
    (h : packageEntries entries total = .ok tar) :
    ∃ unpacked, unpackEntries n tar files = some unpacked ∧
      unpacked.entries = files.entries ++ entries := by
  induction entries generalizing n total tar files with
  | nil =>
    obtain ⟨n, rfl⟩ : ∃ n', n = n' + 1 := Nat.exists_eq_add_one.mpr (Nat.zero_lt_of_lt hn)
    unfold packageEntries at h
    split at h
    · cases h
    · cases h
      refine ⟨files, ?_, (List.append_nil _).symm⟩
      simp only [unpackEntries, List.take_replicate, List.drop_replicate, List.length_replicate,
        List.all_replicate]
      rfl
  | cons entry rest ih =>
    obtain ⟨n, rfl⟩ : ∃ n', n = n' + 1 := Nat.exists_eq_add_one.mpr (Nat.zero_lt_of_lt hn)
    obtain ⟨path, file⟩ := entry
    have hentry := hpackable (path, file) List.mem_cons_self
    obtain ⟨header, hheader, h⟩ := bind_eq_ok h
    simp only at h
    split at h
    · cases h
    obtain ⟨tar', htar, h⟩ := bind_eq_ok h
    cases h
    have hnew : files.has path = false := Files.has_eq_false fun hmem =>
      (List.nodup_append.mp hnodup).2.2 path hmem path (by simp) rfl
    have hreads := headerReads_of_tarHeader hentry.plain hentry.safe hentry.mode hentry.size hheader
    have hlist : (files.set path file).paths ++ rest.map Prod.fst =
        files.paths ++ ((path, file) :: rest).map Prod.fst := by
      rw [Files.set_paths hnew, List.append_assoc]
      rfl
    rw [← hlist] at hnodup
    obtain ⟨unpacked, hunpacked, hentries⟩ := ih
      (List.forall_mem_cons.mp hpackable).2 hnodup (Nat.lt_of_succ_lt_succ hn) htar
    refine ⟨unpacked, ?_, ?_⟩
    · rw [unpackEntries_file hentry hreads hnew]
      exact hunpacked
    · rw [hentries, Files.set_entries hnew, List.append_assoc]
      rfl

theorem length_of_packageEntries {entries : List (JsString × OutputFile)} {total : Nat}
    (h : packageEntries entries total = .ok tar) : entries.length + 1024 ≤ tar.length := by
  induction entries generalizing total tar with
  | nil =>
    unfold packageEntries at h
    split at h
    · cases h
    · cases h
      rw [List.length_replicate]
      exact le_rfl
  | cons entry rest ih =>
    obtain ⟨header, hheader, h⟩ := bind_eq_ok h
    simp only at h
    split at h
    · cases h
    obtain ⟨tar', htar, h⟩ := bind_eq_ok h
    cases h
    have hpos : 0 < header.length := by
      obtain ⟨_, _, _, _, _, _, _, _, _, _, _, -, -, -, -, -, -, -, -, -, -, rfl⟩ :=
        fields_of_tarHeader hheader
      simp only [List.flatten_cons, List.length_append, List.length_replicate]
      omega
    have := ih htar
    simp only [List.length_cons, List.length_append]
    omega

theorem exists_of_isOk {α : Type} {x : Except Failure α} (h : x.isOk = true) : ∃ a, x = .ok a := by
  cases x with
  | error failure => cases h
  | ok a => exact ⟨a, rfl⟩

theorem packable_of_validateOutputFiles {toLowerCase : JsString → JsString}
    {entries : List ContentEntry} (hplain : ∀ path ∈ files.paths, PlainPath path)
    (h : validateOutputFiles toLowerCase files = .ok entries) :
    entries = files.sorted.map contentEntry ∧ ∀ entry ∈ files.sorted, Packable entry := by
  unfold validateOutputFiles at h
  split at h
  · cases h
  next hok =>
    simp only [Bool.or_eq_true, not_or, Bool.not_eq_true, Bool.not_eq_false', List.all_eq_true,
      Bool.and_eq_true, allowedOutputPath, outputSizeWithinLimit] at hok
    obtain ⟨⟨⟨⟨-, hall⟩, -⟩, -⟩, -, hsizes⟩ := hok
    refine ⟨(Except.ok.inj h).symm, fun entry hentry => ?_⟩
    obtain ⟨⟨hsafe, -⟩, hmode⟩ := hall entry hentry
    exact ⟨hplain _ (List.mem_map_of_mem (files.sorted_perm.mem_iff.mp hentry)), hsafe, hmode,
      isSafeInteger_of_sizesWithin hsizes _ (List.mem_map.mpr ⟨entry, hentry, rfl⟩)⟩

theorem readsBack_of_packable {archive : Bytes} (hpackable : ∀ entry ∈ files.sorted, Packable entry)
    (harchive : packageDeterministicTarZst files = .ok archive) :
    ∃ unpacked, ReadsBack files archive unpacked := by
  obtain ⟨tar, htar, hframe⟩ := bind_eq_ok harchive
  have hlength := length_of_packageEntries htar
  have hfuel : files.sorted.length < tar.length := by omega
  have hnodup : (Files.empty.paths ++ files.sorted.map Prod.fst).Nodup :=
    (files.sorted_perm.map Prod.fst).nodup_iff.mpr files.nodup
  obtain ⟨unpacked, hunpacked, hentries⟩ :=
    unpackEntries_packageEntries hpackable hnodup hfuel htar
  refine ⟨unpacked, harchive, ?_, hentries⟩
  rw [unpack_of_rawZstd (List.length_pos_iff.mp (by omega)) hframe]
  exact hunpacked

/-- **An archive reads back as the files it was made of**; they are the entries of its content, one
by one, and these pass their own check. -/
theorem unpack_package {toLowerCase : JsString → JsString} {files : Files}
    {entries : List ContentEntry} {archive : Bytes}
    (hvalid : validateOutputFiles toLowerCase files = .ok entries)
    (hplain : ∀ path ∈ files.paths, PlainPath path)
    (harchive : packageDeterministicTarZst files = .ok archive) :
    ∃ unpacked, unpackDeterministicTarZst archive = some unpacked ∧
      unpacked.entries.Perm files.entries ∧ unpacked.entries.map contentEntry = entries ∧
      validateEntryMetadata toLowerCase entries ∧ entries.all unpacked.agrees := by
  obtain ⟨rfl, hpackable⟩ := packable_of_validateOutputFiles hplain hvalid
  obtain ⟨unpacked, hback⟩ := readsBack_of_packable hpackable harchive
  refine ⟨unpacked, hback.read, ?_, ?_, ?_, ?_⟩
  · rw [hback.entries]
    exact files.sorted_perm
  · rw [hback.entries]
  · exact validateEntryMetadata_of_output (by rw [hvalid]; rfl)
  · rw [List.all_eq_true]
    intro entry hentry
    obtain ⟨e, he, rfl⟩ := List.mem_map.mp hentry
    simp [Files.agrees, contentEntry, get_of_entries hback.entries he, lowerHex_sha256]

namespace Sample

def generatedOutput : Files where
  entries := [(runtimePath, ⟨[1], 0o644⟩), (launchPath, ⟨[2], 0o755⟩)]
  nodup := by decide

theorem plain_generatedOutput : ∀ path ∈ generatedOutput.paths, PlainPath path :=
  List.forall_mem_cons.mpr ⟨plain_runtimePath, List.forall_mem_singleton.mpr plain_launchPath⟩

end Sample

theorem unpack_package_generated : ∃ entries archive unpacked,
    validateOutputFiles id Sample.generatedOutput = .ok entries ∧
      packageDeterministicTarZst Sample.generatedOutput = .ok archive ∧
      unpackDeterministicTarZst archive = some unpacked ∧
      unpacked.entries.Perm Sample.generatedOutput.entries := by
  obtain ⟨entries, hentries⟩ : ∃ entries, validateOutputFiles id Sample.generatedOutput =
      .ok entries :=
    exists_of_isOk (by decide +kernel)
  obtain ⟨archive, harchive⟩ : ∃ archive, packageDeterministicTarZst Sample.generatedOutput =
      .ok archive := exists_of_isOk (by decide +kernel)
  obtain ⟨unpacked, hread, hperm, -⟩ :=
    unpack_package hentries Sample.plain_generatedOutput harchive
  exact ⟨entries, archive, unpacked, hentries, harchive, hread, hperm⟩

end SharedNode.Compiler
