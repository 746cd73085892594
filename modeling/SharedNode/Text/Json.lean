import SharedNode.Text.Utf8

/-!
# JSON texts

Model of what `encoding/json` writes and reads. `quote` writes a string as `Marshal` does, with the
characters it escapes and `\ufffd` for an invalid byte. `parse` reads a text as `Unmarshal` does: a
value nested at most 10000 deep, with white space around its tokens.

The texts of a value are written with `renderArray` and `renderObject` from those of its parts. What
such a text denotes is stated with `Denotes`, which says what the reader makes of the text whatever
follows it:

* `denotes_quote`: a quoted string denotes the string with its invalid bytes replaced.
* `denotes_formatInt`: a decimal text denotes itself as a number literal.
* `denotes_array`, `denotes_object`: arrays and objects denote what their parts denote.
* `parse_of_denotes`: a text alone is read as what it denotes.
-/

namespace SharedNode.Text

/-- A JSON value. A number keeps its literal: what it means depends on the type it is read into. -/
inductive Json where
  | null
  | bool (b : Bool)
  | num (literal : Bytes)
  | str (s : Bytes)
  | arr (items : List Json)
  | obj (members : List (Bytes × Json))

/-- An object with these members. -/
def Json.object (members : List (String × Json)) : Json :=
  .obj (members.map fun m => (lit m.1, m.2))

/-! ## Writing -/

/-- The escape of a character below 0x10000. -/
def unicodeEscape (n : Nat) : Bytes :=
  [0x5c, 0x75, hexDigit (n / 4096 % 16), hexDigit (n / 256 % 16), hexDigit (n / 16 % 16),
    hexDigit (n % 16)]

/-- The characters `Marshal` writes as `\uxxxx`: control characters, `<`, `>`, `&` and the two line
separators. -/
def escapedByCode (c : Char) : Bool :=
  c.toNat < 0x20 || c == '<' || c == '>' || c == '&' || c.toNat == 0x2028 || c.toNat == 0x2029

/-- How `Marshal` writes one rune of a string. -/
def escape : Rune → Bytes
  | .invalid _ => unicodeEscape 0xfffd
  | .char c =>
    if c == '"' || c == '\\' then 0x5c :: encodeChar c
    else if c.toNat == 8 then [0x5c, 0x62]
    else if c.toNat == 12 then [0x5c, 0x66]
    else if c.toNat == 10 then [0x5c, 0x6e]
    else if c.toNat == 13 then [0x5c, 0x72]
    else if c.toNat == 9 then [0x5c, 0x74]
    else if escapedByCode c then unicodeEscape c.toNat
    else encodeChar c

def quoteBody (s : Bytes) : Bytes := (runes s).flatMap escape

/-- A string as `Marshal` writes it. -/
def quote (s : Bytes) : Bytes := 0x22 :: (quoteBody s ++ [0x22])

/-- The texts of several parts, with commas between them. -/
def commaSeparated : List Bytes → Bytes
  | [] => []
  | [a] => a
  | a :: rest => a ++ 0x2c :: commaSeparated rest

def renderArray (items : List Bytes) : Bytes := 0x5b :: (commaSeparated items ++ [0x5d])

/-- An object with the given names and texts. -/
def renderObject (members : List (Bytes × Bytes)) : Bytes :=
  0x7b :: (commaSeparated (members.map fun m => quote m.1 ++ 0x3a :: m.2) ++ [0x7d])

/-! ## Reading -/

def skipSpace : Bytes → Bytes
  | [] => []
  | b :: s => if b == 0x20 || b == 0x09 || b == 0x0a || b == 0x0d then skipSpace s else b :: s

def hexValue (b : UInt8) : Option Nat :=
  if 0x30 ≤ b && b ≤ 0x39 then some (b.toNat - 0x30)
  else if 0x61 ≤ b && b ≤ 0x66 then some (b.toNat - 0x57)
  else if 0x41 ≤ b && b ≤ 0x46 then some (b.toNat - 0x37)
  else none

/-- Four hexadecimal digits. -/
def readHex4 : Bytes → Option (Nat × Bytes)
  | a :: b :: c :: d :: s => do
    let a ← hexValue a
    let b ← hexValue b
    let c ← hexValue c
    let d ← hexValue d
    some (a * 4096 + b * 256 + c * 16 + d, s)
  | _ => none

/-- A code unit that is half of a surrogate pair. -/
def isSurrogate (n : Nat) : Bool := 0xd800 ≤ n && n < 0xe000

/-- The rest of a `\u` escape. A surrogate stands for a character only with the second half of its
pair after it. -/
def readUnicode (s : Bytes) : Option (Bytes × Bytes) := do
  let (n, rest) ← readHex4 s
  if isSurrogate n then
    match rest with
    | 0x5c :: 0x75 :: t =>
      match readHex4 t with
      | some (m, t) =>
        if n < 0xdc00 && 0xdc00 ≤ m && m < 0xe000 then
          some (encodeChar (Char.ofNat (0x10000 + (n - 0xd800) * 0x400 + (m - 0xdc00))), t)
        else some (encodeChar replacement, rest)
      | none => some (encodeChar replacement, rest)
    | _ => some (encodeChar replacement, rest)
  else some (encodeChar (Char.ofNat n), rest)

def readEscape : Bytes → Option (Bytes × Bytes)
  | 0x22 :: s => some ([0x22], s)
  | 0x5c :: s => some ([0x5c], s)
  | 0x2f :: s => some ([0x2f], s)
  | 0x62 :: s => some ([0x08], s)
  | 0x66 :: s => some ([0x0c], s)
  | 0x6e :: s => some ([0x0a], s)
  | 0x72 :: s => some ([0x0d], s)
  | 0x74 :: s => some ([0x09], s)
  | 0x75 :: s => readUnicode s
  | _ => none

/-- The rest of a string, after its opening quote, in at most `n` runes. -/
def readString : Nat → Bytes → Option (Bytes × Bytes)
  | 0, _ => none
  | n + 1, s =>
    match decodeRune s with
    | none => none
    | some (.invalid _, rest) =>
      (readString n rest).map fun p => (encodeChar replacement ++ p.1, p.2)
    | some (.char c, rest) =>
      if c == '"' then some ([], rest)
      else if c == '\\' then
        (readEscape rest).bind fun e => (readString n e.2).map fun p => (e.1 ++ p.1, p.2)
      else if c.toNat < 0x20 then none
      else (readString n rest).map fun p => (encodeChar c ++ p.1, p.2)

/-- The digits of an integer part: a zero alone, or digits that do not start with one. -/
def readInteger : Bytes → Option (Bytes × Bytes)
  | 0x30 :: s => some ([0x30], s)
  | b :: s => if isDigit b then some (b :: s.takeWhile isDigit, s.dropWhile isDigit) else none
  | [] => none

def readDigits (s : Bytes) : Option (Bytes × Bytes) :=
  if (s.takeWhile isDigit).isEmpty then none else some (s.takeWhile isDigit, s.dropWhile isDigit)

def readFraction : Bytes → Option (Bytes × Bytes)
  | 0x2e :: s => (readDigits s).map fun p => (0x2e :: p.1, p.2)
  | s => some ([], s)

def readSign : Bytes → Bytes × Bytes
  | b :: s => if b == 0x2b || b == 0x2d then ([b], s) else ([], b :: s)
  | [] => ([], [])

def readExponent : Bytes → Option (Bytes × Bytes)
  | [] => some ([], [])
  | b :: s =>
    if b == 0x65 || b == 0x45 then
      (readDigits (readSign s).2).map fun p => (b :: (readSign s).1 ++ p.1, p.2)
    else some ([], b :: s)

def readUnsigned (s : Bytes) : Option (Bytes × Bytes) := do
  let (whole, s) ← readInteger s
  let (fraction, s) ← readFraction s
  let (exponent, s) ← readExponent s
  some (whole ++ fraction ++ exponent, s)

def readNumber : Bytes → Option (Bytes × Bytes)
  | 0x2d :: s => (readUnsigned s).map fun p => (0x2d :: p.1, p.2)
  | s => readUnsigned s

/-- One or more items with commas between them, up to a closing byte; at most `n` of them. -/
def readItems {α : Type} (item : Bytes → Option (α × Bytes)) (close : UInt8) :
    Nat → Bytes → Option (List α × Bytes)
  | 0, _ => none
  | n + 1, s =>
    (item s).bind fun a =>
      match skipSpace a.2 with
      | b :: rest =>
        if b == 0x2c then (readItems item close n rest).map fun p => (a.1 :: p.1, p.2)
        else if b == close then some ([a.1], rest)
        else none
      | [] => none

def readList {α : Type} (item : Bytes → Option (α × Bytes)) (close : UInt8) (s : Bytes) :
    Option (List α × Bytes) :=
  match skipSpace s with
  | b :: rest => if b == close then some ([], rest) else readItems item close s.length s
  | [] => none

/-- A member of an object, its value read by `value`. -/
def readMember {α : Type} (value : Bytes → Option (α × Bytes)) (s : Bytes) :
    Option ((Bytes × α) × Bytes) :=
  match skipSpace s with
  | 0x22 :: s =>
    (readString s.length s).bind fun name =>
      match skipSpace name.2 with
      | 0x3a :: s => (value s).map fun v => ((name.1, v.1), v.2)
      | _ => none
  | _ => none

/-- A value nested less than `d` deep. -/
def readValue : Nat → Bytes → Option (Json × Bytes)
  | 0, _ => none
  | d + 1, s =>
    match skipSpace s with
    | 0x22 :: s => (readString s.length s).map fun p => (.str p.1, p.2)
    | 0x5b :: s => (readList (readValue d) 0x5d s).map fun p => (.arr p.1, p.2)
    | 0x7b :: s => (readList (readMember (readValue d)) 0x7d s).map fun p => (.obj p.1, p.2)
    | 0x6e :: 0x75 :: 0x6c :: 0x6c :: s => some (.null, s)
    | 0x74 :: 0x72 :: 0x75 :: 0x65 :: s => some (.bool true, s)
    | 0x66 :: 0x61 :: 0x6c :: 0x73 :: 0x65 :: s => some (.bool false, s)
    | s => (readNumber s).map fun p => (.num p.1, p.2)

/-- The depth at which `Unmarshal` gives up. -/
def maxNestingDepth : Nat := 10000

/-- The value of a text that holds nothing else. -/
def parse (s : Bytes) : Option Json :=
  match readValue (maxNestingDepth + 1) s with
  | some (v, rest) => if (skipSpace rest).isEmpty then some v else none
  | none => none

/-! ## Strings -/

variable {n d : Nat} {c : Char} {rest s text : Bytes} {b : UInt8}

theorem hexValue_hexDigit (h : n < 16) : hexValue (hexDigit n) = some n := by
  have : ∀ m : Fin 16, hexValue (hexDigit m) = some m.val := by decide
  exact this ⟨n, h⟩

theorem readHex4_unicodeEscape (h : n < 65536) (t : Bytes) :
    readHex4 ((unicodeEscape n).drop 2 ++ t) = some (n, t) := by
  simp only [unicodeEscape, List.drop_succ_cons, List.drop_zero, List.cons_append, List.nil_append,
    readHex4]
  rw [hexValue_hexDigit (by omega), hexValue_hexDigit (by omega), hexValue_hexDigit (by omega),
    hexValue_hexDigit (by omega)]
  simp only [Option.bind_eq_bind, Option.bind_some, Option.some.injEq, Prod.mk.injEq, and_true]
  omega

theorem readUnicode_unicodeEscape (h : c.toNat < 65536) (t : Bytes) :
    readUnicode ((unicodeEscape c.toNat).drop 2 ++ t) = some (encodeChar c, t) := by
  unfold readUnicode
  rw [readHex4_unicodeEscape h]
  have hs : isSurrogate c.toNat = false := by
    have := c.valid
    simp only [isSurrogate, Char.toNat, UInt32.isValidChar, Nat.isValidChar, Bool.and_eq_false_iff,
      decide_eq_false_iff_not] at this ⊢
    omega
  simp [hs]

theorem decodeRune_backslash (t : Bytes) : decodeRune (0x5c :: t) = some (.char '\\', t) :=
  decodeRune_encode '\\' t

theorem readString_backslash {t e : Bytes} (h : readEscape t = some (e, rest)) :
    readString (n + 1) (0x5c :: t) = (readString n rest).map fun p => (e ++ p.1, p.2) := by
  simp [readString, decodeRune_backslash, h]

theorem readString_unicodeEscape (h : c.toNat < 65536) (t : Bytes) :
    readString (n + 1) (unicodeEscape c.toNat ++ t) =
      (readString n t).map fun p => (encodeChar c ++ p.1, p.2) :=
  readString_backslash (readUnicode_unicodeEscape h t)

theorem eq_of_toNat (h : c.toNat = n) : c = Char.ofNat n := by
  rw [← h, Char.ofNat_toNat]

/-- **One rune.** What is written for a rune is read as its bytes. -/
theorem readString_escape (n : Nat) (r : Rune) (t : Bytes) :
    readString (n + 1) (escape r ++ t) = (readString n t).map fun p => (r.bytes ++ p.1, p.2) := by
  cases r with
  | invalid b => exact readString_unicodeEscape (c := replacement) (by decide) t
  | char c =>
    simp only [escape]
    split
    next h =>
      simp only [Bool.or_eq_true, beq_iff_eq] at h
      rcases h with rfl | rfl <;> exact readString_backslash rfl
    split
    next h => rw [eq_of_toNat (beq_iff_eq.mp h)]; exact readString_backslash rfl
    split
    next h => rw [eq_of_toNat (beq_iff_eq.mp h)]; exact readString_backslash rfl
    split
    next h => rw [eq_of_toNat (beq_iff_eq.mp h)]; exact readString_backslash rfl
    split
    next h => rw [eq_of_toNat (beq_iff_eq.mp h)]; exact readString_backslash rfl
    split
    next h => rw [eq_of_toNat (beq_iff_eq.mp h)]; exact readString_backslash rfl
    split
    next h =>
      refine readString_unicodeEscape ?_ t
      simp only [escapedByCode, Bool.or_eq_true, decide_eq_true_eq, beq_iff_eq] at h
      rcases h with ((((h | rfl) | rfl) | rfl) | h) | h <;> first | omega | decide
    next hq _ _ _ _ _ hc =>
      simp only [Bool.or_eq_true, beq_iff_eq, not_or] at hq
      simp only [escapedByCode, Bool.or_eq_true, decide_eq_true_eq, not_or] at hc
      simp only [readString, decodeRune_encode, beq_iff_eq, if_neg hq.1, if_neg hq.2,
        if_neg hc.1.1.1.1.1]
      rfl

theorem readString_quoteBody (h : (runes s).length < n) (rest : Bytes) :
    readString n (quoteBody s ++ 0x22 :: rest) = some (sanitize s, rest) := by
  unfold quoteBody sanitize
  generalize runes s = rs at h
  induction rs generalizing n with
  | nil =>
    obtain ⟨m, rfl⟩ : ∃ m, n = m + 1 := ⟨n - 1, by omega⟩
    have : decodeRune (0x22 :: rest) = some (.char '"', rest) := decodeRune_encode '"' rest
    simp [readString, this]
  | cons r rs ih =>
    obtain ⟨m, rfl⟩ : ∃ m, n = m + 1 := ⟨n - 1, by omega⟩
    rw [List.flatMap_cons, List.flatMap_cons, List.append_assoc, readString_escape,
      ih (by simpa using h)]
    rfl

theorem escape_ne_nil (r : Rune) : escape r ≠ [] := by
  cases r with
  | invalid b => simp [escape, unicodeEscape]
  | char c =>
    simp only [escape]
    repeat' split
    all_goals simp [unicodeEscape]

theorem length_runes_le (s : Bytes) : (runes s).length ≤ (quoteBody s).length := by
  unfold quoteBody
  induction runes s with
  | nil => simp
  | cons r rs ih =>
    have := List.length_pos_of_ne_nil (escape_ne_nil r)
    simp only [List.flatMap_cons, List.length_append, List.length_cons]
    omega

theorem readString_quote (s rest : Bytes) :
    readString (quoteBody s ++ 0x22 :: rest).length (quoteBody s ++ 0x22 :: rest) =
      some (sanitize s, rest) := by
  refine readString_quoteBody ?_ rest
  have := length_runes_le s
  simp only [List.length_append, List.length_cons]
  omega

/-! ## What a text denotes -/

/-- What follows a value: the end, a comma or a closing bracket. -/
def Delimited : Bytes → Prop
  | [] => True
  | b :: _ => b = 0x2c ∨ b = 0x5d ∨ b = 0x7d

/-- The reader of an item makes `a` of the text, whatever follows it. -/
def ReadsAs {α : Type} (item : Bytes → Option (α × Bytes)) (text : Bytes) (a : α) : Prop :=
  ∀ rest, Delimited rest → item (text ++ rest) = some (a, rest)

/-- The text starts with a byte that is neither white space nor a closing bracket. -/
def Starts (text : Bytes) : Prop :=
  ∃ b s, text = b :: s ∧ b ∉ [0x20, 0x09, 0x0a, 0x0d, 0x5d, 0x7d]

/-- The text of a value: the reader, at depth `d`, makes `v` of it. -/
structure Denotes (d : Nat) (text : Bytes) (v : Json) : Prop where
  starts : Starts text
  reads : ReadsAs (readValue d) text v

theorem skipSpace_cons (h : b ≠ 0x20 ∧ b ≠ 0x09 ∧ b ≠ 0x0a ∧ b ≠ 0x0d) (s : Bytes) :
    skipSpace (b :: s) = b :: s := by
  simp [skipSpace, h]

theorem skipSpace_starts (h : Starts text) (rest : Bytes) :
    skipSpace (text ++ rest) = text ++ rest := by
  obtain ⟨b, s, rfl, hb⟩ := h
  simp only [List.mem_cons, List.not_mem_nil, or_false, not_or] at hb
  exact skipSpace_cons ⟨hb.1, hb.2.1, hb.2.2.1, hb.2.2.2.1⟩ _

theorem skipSpace_delimited (h : Delimited s) : skipSpace s = s := by
  cases s with
  | nil => rfl
  | cons b s => rcases h with rfl | rfl | rfl <;> rfl

theorem quote_append (s rest : Bytes) : quote s ++ rest = 0x22 ::
    (quoteBody s ++ 0x22 :: rest) := by
  simp [quote]

theorem denotes_quote (d : Nat) (s : Bytes) : Denotes (d + 1) (quote s) (.str (sanitize s)) := by
  refine ⟨⟨0x22, _, rfl, by decide⟩, fun rest _ => ?_⟩
  rw [quote_append]
  simp only [readValue, skipSpace_cons (b := 0x22) (by decide)]
  rw [readString_quote]
  rfl

/-! ## Numbers -/

theorem toNat_digit (h : c ∈ Nat.toDigits 10 n) :
    c.toNat.toUInt8.toNat = c.toNat ∧ 48 ≤ c.toNat ∧ c.toNat ≤ 57 := by
  have hd := Nat.isDigit_of_mem_toDigits (by decide) (by decide) h
  simp only [Char.isDigit, Bool.and_eq_true, decide_eq_true_eq] at hd
  have h₁ : 48 ≤ c.toNat := hd.1
  have h₂ : c.toNat ≤ 57 := hd.2
  exact ⟨by simp; omega, h₁, h₂⟩

theorem isDigit_of_mem_formatNat (h : b ∈ formatNat n) : isDigit b := by
  obtain ⟨c, hc, rfl⟩ := List.mem_map.mp h
  obtain ⟨hn, h₁, h₂⟩ := toNat_digit hc
  simp only [isDigit, Bool.and_eq_true, decide_eq_true_eq, UInt8.le_iff_toNat_le, hn]
  exact ⟨h₁, h₂⟩

theorem formatNat_ne_nil (n : Nat) : formatNat n ≠ [] := by
  simp [formatNat, Nat.toDigits_ne_nil]

theorem toDigits_head (h : 0 < n) : ∃ c t, Nat.toDigits 10 n = c :: t ∧ c ≠ '0' := by
  induction n using Nat.strongRecOn with
  | ind n ih =>
    rcases Nat.lt_or_ge n 10 with hn | hn
    · refine ⟨n.digitChar, [], Nat.toDigits_of_lt_base hn, ?_⟩
      simp only [ne_eq, Nat.digitChar_eq_zero]
      omega
    · obtain ⟨c, t, ht, hc⟩ := ih (n / 10) (by omega) (by omega)
      exact ⟨c, t ++ [(n % 10).digitChar], by
        rw [Nat.toDigits_of_base_le (by decide) hn, ht, List.cons_append], hc⟩

theorem formatNat_head (h : formatNat n = 0x30 :: s) : s = [] := by
  rcases Nat.eq_zero_or_pos n with rfl | hn
  · exact (List.cons.inj h).2.symm
  · obtain ⟨c, t, ht, hc⟩ := toDigits_head hn
    obtain ⟨hcn, -, -⟩ := toNat_digit (n := n) (c := c) (by simp [ht])
    unfold formatNat at h
    rw [ht, List.map_cons] at h
    refine absurd (eq_of_toNat (n := 48) ?_) hc
    rw [← hcn, (List.cons.inj h).1]
    rfl

/-- The value of the bytes of digits, read by a loop. -/
theorem foldl_digits (base : Nat) (l : List Char) (m : Nat)
    (hl : ∀ c ∈ l, c.toNat.toUInt8.toNat = c.toNat) :
    (l.map fun c => c.toNat.toUInt8).foldl (fun n b => n * base + (b.toNat - 0x30)) m =
      Nat.ofDigitChars base l m := by
  induction l generalizing m with
  | nil => exact Nat.ofDigitChars_nil.symm
  | cons c l ih =>
    rw [List.map_cons, List.foldl_cons, Nat.ofDigitChars_cons, ih _ fun x hx => hl x (by simp [hx]),
      hl c (by simp), Nat.mul_comm m base]
    rfl

theorem parseDigits_formatNat (n : Nat) : parseDigits (formatNat n) = some n := by
  have hd : (formatNat n).all (fun b => 0x30 ≤ b && b ≤ 0x39) = true :=
    List.all_eq_true.mpr fun b hb => isDigit_of_mem_formatNat hb
  unfold parseDigits
  rw [if_pos ⟨formatNat_ne_nil n, hd⟩]
  rw [formatNat, foldl_digits 10 _ 0 fun c hc => (toNat_digit hc).1, Nat.ofDigitChars_ten_toDigits]

theorem formatNat_cons : ∃ b s, formatNat n = b :: s ∧ b ≠ 0x2d ∧ b ≠ 0x2b := by
  cases hf : formatNat n with
  | nil => exact absurd hf (formatNat_ne_nil n)
  | cons b s =>
    have hd : isDigit b := isDigit_of_mem_formatNat (n := n) (by simp [hf])
    refine ⟨b, s, rfl, ?_, ?_⟩ <;> rintro rfl <;> exact absurd hd (by decide)

/-- `strconv` reads the decimal text of a 64-bit integer as that integer, and no other. -/
theorem parseInt_formatInt (n : Int) :
    parseInt (formatInt n) = if -2 ^ 63 ≤ n ∧ n < 2 ^ 63 then some n else none := by
  unfold formatInt
  split
  next hn =>
    have : lit "-" ++ formatNat n.natAbs = 0x2d :: formatNat n.natAbs := rfl
    rw [this]
    simp only [parseInt, parseDigits_formatNat, Option.map_some]
    rw [show -((n.natAbs : Nat) : Int) = n by omega, Option.filter_some]
    by_cases h : -2 ^ 63 ≤ n
    · rw [if_pos (by simpa using h), if_pos ⟨h, by omega⟩]
    · rw [if_neg (by simpa using h), if_neg fun h' => h h'.1]
  next hn =>
    obtain ⟨b, s, hf, hb₁, hb₂⟩ := formatNat_cons (n := n.natAbs)
    have hp := parseDigits_formatNat n.natAbs
    rw [hf] at hp ⊢
    rw [parseInt.eq_3 _ (fun t ht => hb₁ (List.cons.inj ht).1)
      (fun t ht => hb₂ (List.cons.inj ht).1),
      hp, Option.map_some, show ((n.natAbs : Nat) : Int) = n by omega, Option.filter_some]
    by_cases h : n < 2 ^ 63
    · rw [if_pos (by simpa using h), if_pos ⟨by omega, h⟩]
    · rw [if_neg (by simpa using h), if_neg fun h' => h h'.2]

theorem delimited_not_digit (h : Delimited s) :
    s.takeWhile isDigit = [] ∧ s.dropWhile isDigit = s := by
  cases s with
  | nil => exact ⟨rfl, rfl⟩
  | cons b s => rcases h with rfl | rfl | rfl <;> exact ⟨rfl, rfl⟩

theorem readInteger_formatNat (n : Nat) (h : Delimited rest) :
    readInteger (formatNat n ++ rest) = some (formatNat n, rest) := by
  cases hf : formatNat n with
  | nil => exact absurd hf (formatNat_ne_nil n)
  | cons b s =>
    have hs : ∀ x ∈ s, isDigit x = true := fun x hx =>
      isDigit_of_mem_formatNat (by rw [hf]; exact List.mem_cons_of_mem b hx)
    by_cases hb : b = 0x30
    · subst hb
      obtain rfl := formatNat_head hf
      rfl
    · have hd : isDigit b := isDigit_of_mem_formatNat (n := n) (by simp [hf])
      rw [List.cons_append, readInteger.eq_2 _ _ (fun h => hb h), if_pos hd,
        List.takeWhile_append_of_pos hs, List.dropWhile_append_of_pos hs,
        (delimited_not_digit h).1, (delimited_not_digit h).2, List.append_nil]

theorem readUnsigned_formatNat (n : Nat) (h : Delimited rest) :
    readUnsigned (formatNat n ++ rest) = some (formatNat n, rest) := by
  have hfraction : readFraction rest = some ([], rest) := by
    cases rest with
    | nil => rfl
    | cons b s => rcases h with rfl | rfl | rfl <;> rfl
  have hexponent : readExponent rest = some ([], rest) := by
    cases rest with
    | nil => rfl
    | cons b s => rcases h with rfl | rfl | rfl <;> rfl
  simp [readUnsigned, readInteger_formatNat n h, hfraction, hexponent]

theorem readNumber_formatInt (n : Int) (h : Delimited rest) :
    readNumber (formatInt n ++ rest) = some (formatInt n, rest) := by
  unfold formatInt
  split
  · show readNumber (0x2d :: (formatNat n.natAbs ++ rest)) = _
    simp only [readNumber, readUnsigned_formatNat n.natAbs h, Option.map_some]
    rfl
  · obtain ⟨b, s, hf, hb, -⟩ := formatNat_cons (n := n.natAbs)
    have hr := readUnsigned_formatNat n.natAbs h
    rw [hf, List.cons_append] at hr ⊢
    rw [readNumber.eq_2 _ (fun t ht => hb (List.cons.inj ht).1), hr]

theorem formatNat_injective {m : Nat} (h : formatNat m = formatNat n) : m = n := by
  have hparse := parseDigits_formatNat m
  rw [h, parseDigits_formatNat] at hparse
  exact (Option.some.inj hparse).symm

theorem formatInt_injective {m n : Int} (h : formatInt m = formatInt n) : m = n := by
  have hsign : ∀ k l : Nat, lit "-" ++ formatNat k ≠ formatNat l := by
    intro k l heq
    obtain ⟨b, s, hf, hb, -⟩ := formatNat_cons (n := l)
    rw [hf] at heq
    exact hb (List.cons.inj heq).1.symm
  unfold formatInt at h
  split at h <;> split at h
  · have := formatNat_injective (List.append_cancel_left h)
    omega
  · exact absurd h (hsign _ _)
  · exact absurd h.symm (hsign _ _)
  · have := formatNat_injective h
    omega

theorem mem_formatInt {n : Int} (h : b ∈ formatInt n) : isDigit b ∨ b = 0x2d := by
  unfold formatInt at h
  split at h
  · rcases List.mem_cons.mp h with rfl | h
    · exact Or.inr rfl
    · exact Or.inl (isDigit_of_mem_formatNat h)
  · exact Or.inl (isDigit_of_mem_formatNat h)

theorem formatInt_cons (n : Int) : ∃ b s, formatInt n = b :: s ∧ (isDigit b ∨ b = 0x2d) := by
  cases hf : formatInt n with
  | nil =>
    unfold formatInt at hf
    split at hf
    · cases hf
    · exact absurd hf (formatNat_ne_nil _)
  | cons b s => exact ⟨b, s, rfl, mem_formatInt (hf ▸ List.mem_cons_self)⟩

theorem denotes_formatInt (d : Nat) (n : Int) :
    Denotes (d + 1) (formatInt n) (.num (formatInt n)) := by
  obtain ⟨b, s, hf, hb⟩ := formatInt_cons n
  have hne : ∀ x : UInt8, isDigit x = false → x ≠ 0x2d → b ≠ x := by
    rintro x hx₁ hx₂ rfl
    rcases hb with hb | hb
    · simp [hx₁] at hb
    · exact hx₂ hb
  have hstarts : Starts (formatInt n) := by
    refine ⟨b, s, hf, fun hmem => ?_⟩
    simp only [List.mem_cons, List.not_mem_nil, or_false] at hmem
    rcases hmem with rfl | rfl | rfl | rfl | rfl | rfl <;> exact hne _ (by decide) (by decide) rfl
  refine ⟨hstarts, fun rest hrest => ?_⟩
  have hr := readNumber_formatInt n hrest
  unfold readValue
  rw [skipSpace_starts hstarts]
  rw [hf, List.cons_append] at hr ⊢
  split
  -- a number starts neither a string nor an object, an array or a literal
  any_goals exact absurd (List.cons.inj ‹_›).1 (hne _ (by decide) (by decide))
  rw [hr]
  rfl

/-! ## Arrays and objects -/

section Items

variable {α γ : Type} {item : Bytes → Option (α × Bytes)} {close : UInt8} {text : γ → Bytes}
  {val : γ → α}

theorem commaSeparated_cons_cons (t u : Bytes) (ts : List Bytes) :
    commaSeparated (t :: u :: ts) = t ++ 0x2c :: commaSeparated (u :: ts) := rfl

theorem length_le_commaSeparated (ts : List Bytes) :
    ts.length ≤ (commaSeparated ts).length + 1 := by
  induction ts with
  | nil => simp
  | cons t ts ih =>
    cases ts with
    | nil => simp
    | cons u ts =>
      rw [commaSeparated_cons_cons]
      simp only [List.length_append, List.length_cons] at ih ⊢
      omega

theorem readItems_commaSeparated (hclose : close = 0x5d ∨ close = 0x7d) {l : List γ}
    (h : ∀ x ∈ l, ReadsAs item (text x) (val x)) (hne : l ≠ []) {n : Nat} (hn : l.length ≤ n)
    (rest : Bytes) :
    readItems item close n (commaSeparated (l.map text) ++ close :: rest) =
      some (l.map val, rest) := by
  have hdel : Delimited (close :: rest) := Or.inr hclose
  have hcomma : (close == 0x2c) = false := by rcases hclose with rfl | rfl <;> decide
  induction l generalizing n with
  | nil => exact absurd rfl hne
  | cons x xs ih =>
    obtain ⟨m, rfl⟩ : ∃ m, n = m + 1 := ⟨n - 1, by simp at hn; omega⟩
    have hx := h x (by simp)
    cases xs with
    | nil =>
      simp only [List.map_cons, List.map_nil, commaSeparated, readItems, hx _ hdel,
        Option.bind_some, skipSpace_delimited hdel, hcomma, beq_self_eq_true, if_true,
        Bool.false_eq_true, if_false]
    | cons y ys =>
      have hd : Delimited (0x2c :: (commaSeparated ((y :: ys).map text) ++ close :: rest)) :=
        Or.inl rfl
      have hrest := ih (fun z hz => h z (by simp [hz])) (by simp) (n := m) (by simpa using hn)
      rw [List.map_cons, List.map_cons, commaSeparated_cons_cons, ← List.map_cons,
        List.append_assoc, List.cons_append]
      simp only [readItems, hx _ hd, Option.bind_some, skipSpace_delimited hd, beq_self_eq_true,
        if_true, hrest]
      rfl

theorem readList_commaSeparated (hclose : close = 0x5d ∨ close = 0x7d) {l : List γ}
    (h : ∀ x ∈ l, ReadsAs item (text x) (val x)) (hs : ∀ x ∈ l, Starts (text x)) (rest : Bytes) :
    readList item close (commaSeparated (l.map text) ++ close :: rest) =
      some (l.map val, rest) := by
  have hdel : Delimited (close :: rest) := Or.inr hclose
  unfold readList
  cases hl : l with
  | nil =>
    simp only [List.map_nil, commaSeparated, List.nil_append, skipSpace_delimited hdel,
      beq_self_eq_true, if_true]
  | cons x xs =>
    rw [← hl]
    obtain ⟨b, u, hu⟩ : Starts (commaSeparated (l.map text)) := by
      obtain ⟨b, s, hb⟩ := hs x (by simp [hl])
      cases xs with
      | nil => exact ⟨b, s, by simp [hl, commaSeparated, hb.1], hb.2⟩
      | cons y ys =>
        rw [hl, List.map_cons, List.map_cons, commaSeparated_cons_cons, hb.1]
        exact ⟨b, _, rfl, hb.2⟩
    have hskip := skipSpace_starts ⟨b, u, hu⟩ (close :: rest)
    have hb : (b == close) = false := by
      rw [beq_eq_false_iff_ne]
      rintro rfl
      rcases hclose with rfl | rfl <;> exact hu.2 (by decide)
    have hitems := readItems_commaSeparated hclose h (by simp [hl])
      (n := (commaSeparated (l.map text) ++ close :: rest).length) (by
        have := length_le_commaSeparated (l.map text)
        simp only [List.length_map, List.length_append, List.length_cons] at this ⊢
        omega) rest
    rw [hskip]
    rw [hu.1, List.cons_append] at hitems ⊢
    simp only [hb, Bool.false_eq_true, if_false, hitems]

end Items

/-- **Arrays.** -/
theorem denotes_array {γ : Type} {l : List γ} {text : γ → Bytes} {val : γ → Json}
    (h : ∀ x ∈ l, Denotes d (text x) (val x)) :
    Denotes (d + 1) (renderArray (l.map text)) (.arr (l.map val)) := by
  refine ⟨⟨0x5b, _, rfl, by decide⟩, fun rest _ => ?_⟩
  have heq : renderArray (l.map text) ++ rest =
      0x5b :: (commaSeparated (l.map text) ++ 0x5d :: rest) := by simp [renderArray]
  rw [heq]
  simp only [readValue, skipSpace_cons (b := 0x5b) (by decide)]
  rw [readList_commaSeparated (Or.inl rfl) (fun x hx => (h x hx).reads) fun x hx => (h x hx).starts]
  rfl

theorem readMember_quote {name : Bytes} {v : Json} (h : Denotes d text v) :
    ReadsAs (readMember (readValue d)) (quote name ++ 0x3a :: text) (sanitize name, v) := by
  intro rest hrest
  have heq : (quote name ++ 0x3a :: text) ++ rest =
      0x22 :: (quoteBody name ++ 0x22 :: 0x3a :: (text ++ rest)) := by simp [quote]
  rw [heq]
  simp only [readMember, skipSpace_cons (b := 0x22) (by decide), readString_quote, Option.bind_some,
    skipSpace_cons (b := 0x3a) (by decide), h.reads rest hrest, Option.map_some]

theorem readValue_renderObject (members : List (Bytes × Bytes × Json))
    (h : ∀ m ∈ members, Denotes d m.2.1 m.2.2) (rest : Bytes) :
    readValue (d + 1) (renderObject (members.map fun m => (m.1, m.2.1)) ++ rest) =
      some (.obj (members.map fun m => (sanitize m.1, m.2.2)), rest) := by
  have heq : renderObject (members.map fun m => (m.1, m.2.1)) ++ rest =
      0x7b :: (commaSeparated (members.map fun m => quote m.1 ++ 0x3a :: m.2.1) ++ 0x7d ::
        rest) := by
    simp [renderObject, Function.comp_def]
  rw [heq]
  simp only [readValue, skipSpace_cons (b := 0x7b) (by decide)]
  rw [readList_commaSeparated (Or.inr rfl) (fun m hm => readMember_quote (h m hm))
    fun m _ => ⟨0x22, _, rfl, by decide⟩]
  rfl

/-- **Objects.** -/
theorem denotes_object (members : List (Bytes × Bytes × Json))
    (h : ∀ m ∈ members, Denotes d m.2.1 m.2.2) :
    Denotes (d + 1) (renderObject (members.map fun m => (m.1, m.2.1)))
      (.obj (members.map fun m => (sanitize m.1, m.2.2))) :=
  ⟨⟨0x7b, _, rfl, by decide⟩, fun rest _ => readValue_renderObject members h rest⟩

theorem denotes_literals (members : List (String × Bytes × Json))
    (h : ∀ m ∈ members, Denotes d m.2.1 m.2.2) :
    Denotes (d + 1) (renderObject (members.map fun m => (lit m.1, m.2.1)))
      (.object (members.map fun m => (m.1, m.2.2))) := by
  have hobj := denotes_object (members.map fun m => (lit m.1, m.2.1, m.2.2)) (by
    intro x hx
    obtain ⟨m, hm, rfl⟩ := List.mem_map.mp hx
    exact h m hm)
  simpa [Json.object, Function.comp_def, sanitize_of_valid (valid_lit _)] using hobj

/-- **A text alone is read as what it denotes.** -/
theorem parse_of_denotes {v : Json} (h : Denotes (maxNestingDepth + 1) text v) :
    parse text = some v := by
  have hr := h.reads [] trivial
  rw [List.append_nil] at hr
  simp [parse, hr, skipSpace]

/-! ## Texts are valid -/

theorem hexDigit_ascii (n : Nat) (h : n < 16) : hexDigit n < 0x80 := by
  have hall : ∀ m : Fin 16, hexDigit m < 0x80 := by decide
  exact hall ⟨n, h⟩

theorem valid_escape (r : Rune) : ValidUtf8 (escape r) := by
  have hcode : ∀ n, ValidUtf8 (unicodeEscape n) := by
    intro n
    refine valid_of_ascii fun b hb => ?_
    simp only [unicodeEscape, List.mem_cons, List.not_mem_nil, or_false] at hb
    rcases hb with rfl | rfl | rfl | rfl | rfl | rfl
    · decide
    · decide
    all_goals exact hexDigit_ascii _ (Nat.mod_lt _ (by decide))
  have hchar : ∀ c, ValidUtf8 (encodeChar c) := fun c => by
    simpa using valid_flatMap_encode [c]
  cases r with
  | invalid b => exact hcode _
  | char c =>
    simp only [escape]
    split
    · exact valid_append (valid_ascii (s := [0x5c]) (by decide)) (hchar c)
    iterate 5 (split; · exact valid_ascii (by decide))
    split
    · exact hcode _
    · exact hchar c

theorem valid_flatMap {α : Type} {f : α → Bytes} {l : List α} (h : ∀ a ∈ l, ValidUtf8 (f a)) :
    ValidUtf8 (l.flatMap f) := by
  induction l with
  | nil => exact valid_nil
  | cons a l ih =>
    exact valid_append (h a List.mem_cons_self) (ih (List.forall_mem_cons.mp h).2)

theorem valid_quote (s : Bytes) : ValidUtf8 (quote s) := by
  have hmark : ValidUtf8 [0x22] := valid_ascii (by decide)
  exact valid_append hmark (valid_append (valid_flatMap fun r _ => valid_escape r) hmark)

theorem valid_commaSeparated {texts : List Bytes} (h : ∀ t ∈ texts, ValidUtf8 t) :
    ValidUtf8 (commaSeparated texts) := by
  induction texts with
  | nil => exact valid_nil
  | cons t ts ih =>
    cases ts with
    | nil => exact h t List.mem_cons_self
    | cons u us =>
      refine valid_append (h t List.mem_cons_self) (valid_append (s := [0x2c]) ?_ ?_)
      · exact valid_ascii (by decide)
      · exact ih (List.forall_mem_cons.mp h).2

theorem valid_renderArray {items : List Bytes} (h : ∀ t ∈ items, ValidUtf8 t) :
    ValidUtf8 (renderArray items) :=
  valid_append (s := [0x5b]) (valid_ascii (by decide))
    (valid_append (valid_commaSeparated h) (valid_ascii (by decide)))

theorem valid_renderObject {members : List (Bytes × Bytes)} (h : ∀ m ∈ members, ValidUtf8 m.2) :
    ValidUtf8 (renderObject members) := by
  refine valid_append (s := [0x7b]) (valid_ascii (by decide))
    (valid_append (valid_commaSeparated fun t ht => ?_) (valid_ascii (by decide)))
  obtain ⟨m, hm, rfl⟩ := List.mem_map.mp ht
  exact valid_append (valid_quote m.1)
    (valid_append (s := [0x3a]) (valid_ascii (by decide)) (h m hm))

theorem ascii_formatInt {n : Int} (h : b ∈ formatInt n) : b < 0x80 := by
  rcases mem_formatInt h with hdigit | rfl
  · simp only [isDigit, Bool.and_eq_true, decide_eq_true_eq] at hdigit
    exact UInt8.lt_of_le_of_lt hdigit.2 (by decide)
  · decide

theorem valid_formatInt (n : Int) : ValidUtf8 (formatInt n) := valid_of_ascii fun _ =>
    ascii_formatInt

end SharedNode.Text
