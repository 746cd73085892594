import SharedNode.Text.Bytes

/-!
# UTF-8

A Go string holds any bytes; a JSON text holds characters. `decodeRune` is `utf8.DecodeRune`: the
character at the front of a string, or one byte that starts none. `sanitize` puts U+FFFD in the
place of such bytes.

* `runes_encode`, `runes_invalid`: the runes of a string, one at a time; `runeInduction` is the
  induction they give.
* `sanitize_of_valid`: a valid string is left as it is.
* `valid_of_length`: a string that keeps its length was valid, since U+FFFD takes three bytes.
* `valid_lit`: the bytes of a `String` are valid.
-/

namespace SharedNode.Text

abbrev encodeChar (c : Char) : Bytes := String.utf8EncodeChar c

def replacement : Char := Char.ofNat 0xfffd

/-- The character at the front of a string, if a valid encoding starts it. -/
def decodeChar (s : Bytes) : Option Char := s.toByteArray.utf8DecodeChar? 0

/-- One step of reading a string. -/
inductive Rune where
  | char (c : Char)
  | invalid (b : UInt8)
  deriving DecidableEq, Repr

/-- `utf8.DecodeRune`, with the rest of the string. -/
def decodeRune : Bytes → Option (Rune × Bytes)
  | [] => none
  | b :: s =>
    match decodeChar (b :: s) with
    | some c => some (.char c, (b :: s).drop c.utf8Size)
    | none => some (.invalid b, s)

/-- The runes of a string, at most `n` of them. -/
def takeRunes : Nat → Bytes → List Rune
  | 0, _ => []
  | n + 1, s =>
    match decodeRune s with
    | none => []
    | some (r, rest) => r :: takeRunes n rest

def runes (s : Bytes) : List Rune := takeRunes s.length s

/-- The bytes a rune stands for; an invalid byte is replaced. -/
def Rune.bytes : Rune → Bytes
  | .char c => encodeChar c
  | .invalid _ => encodeChar replacement

/-- The string with its invalid bytes replaced. -/
def sanitize (s : Bytes) : Bytes := (runes s).flatMap Rune.bytes

/-- The string has no invalid byte (`utf8.ValidString`). -/
def ValidUtf8 (s : Bytes) : Prop := ∀ r ∈ runes s, ∃ c, r = .char c

/-! ## Reading one rune -/

theorem encodeChar_ne_nil (c : Char) : encodeChar c ≠ [] := String.utf8EncodeChar_ne_nil

theorem decodeChar_encode (c : Char) (s : Bytes) : decodeChar (encodeChar c ++ s) = some c := by
  unfold decodeChar
  rw [List.toByteArray_append]
  exact ByteArray.utf8DecodeChar?_utf8EncodeChar_append

variable {s : Bytes} {b : UInt8}

theorem exists_of_decodeChar {c : Char} (h : decodeChar s = some c) :
    ∃ t, s = encodeChar c ++ t := by
  obtain ⟨l, hl⟩ := ByteArray.exists_of_utf8DecodeChar?_eq_some h
  have := congrArg (fun b => b.data.toList) hl
  exact ⟨l.data.toList, by simpa using this⟩

theorem decodeRune_encode (c : Char) (s : Bytes) :
    decodeRune (encodeChar c ++ s) = some (.char c, s) := by
  have hd := decodeChar_encode c s
  cases h : encodeChar c with
  | nil => exact absurd h (encodeChar_ne_nil c)
  | cons b t =>
    have hlen : (b :: t).length = c.utf8Size := by rw [← h, String.length_utf8EncodeChar]
    rw [h] at hd
    rw [List.cons_append] at hd ⊢
    simp only [decodeRune, hd]
    rw [← List.cons_append, ← hlen, List.drop_left]

theorem decodeRune_length {rest : Bytes} {r : Rune} (h : decodeRune s = some (r, rest)) :
    rest.length < s.length := by
  cases s with
  | nil => simp [decodeRune] at h
  | cons b s =>
    simp only [decodeRune] at h
    split at h
    next c _ =>
      cases h
      have := c.utf8Size_pos
      simp only [List.length_drop, List.length_cons]
      omega
    next => cases h; simp

/-! ## All runes -/

theorem takeRunes_of_length_le {n : Nat} (h : s.length ≤ n) : takeRunes n s = runes s := by
  induction n using Nat.strongRecOn generalizing s with
  | ind n ih =>
    unfold runes
    cases hr : decodeRune s with
    | none => cases n <;> cases hl : s.length <;> simp [takeRunes, hr]
    | some p =>
      have hlt := decodeRune_length hr
      obtain ⟨m, rfl⟩ : ∃ m, n = m + 1 := ⟨n - 1, by omega⟩
      obtain ⟨k, hk⟩ : ∃ k, s.length = k + 1 := ⟨s.length - 1, by omega⟩
      rw [hk]
      simp only [takeRunes, hr]
      rw [ih m (by omega) (by omega)]
      rcases Nat.lt_or_ge k (m + 1) with hkm | hkm
      · rw [ih k hkm (by omega)]
      · exact absurd h (by omega)

theorem runes_cons {rest : Bytes} {r : Rune} (h : decodeRune s = some (r, rest)) :
    runes s = r :: runes rest := by
  have hlt := decodeRune_length h
  obtain ⟨k, hk⟩ : ∃ k, s.length = k + 1 := ⟨s.length - 1, by omega⟩
  unfold runes
  rw [hk]
  simp only [takeRunes, h]
  rw [takeRunes_of_length_le (by omega)]
  rfl

@[simp] theorem runes_nil : runes [] = [] := rfl

@[simp] theorem runes_encode (c : Char) (s : Bytes) :
    runes (encodeChar c ++ s) = .char c :: runes s := runes_cons (decodeRune_encode c s)

theorem runes_invalid (h : decodeChar (b :: s) = none) :
    runes (b :: s) = .invalid b :: runes s := runes_cons (by simp [decodeRune, h])

/-- **Induction over the runes of a string.** -/
theorem runeInduction {P : Bytes → Prop} (nil : P []) (char : ∀ c s, P s → P (encodeChar c ++ s))
    (invalid : ∀ b s, decodeChar (b :: s) = none → P s → P (b :: s)) (s : Bytes) : P s := by
  induction hn : s.length using Nat.strongRecOn generalizing s with
  | ind n ih =>
    cases s with
    | nil => exact nil
    | cons b s =>
      cases hd : decodeChar (b :: s) with
      | none => exact invalid b s hd (ih s.length (by simp [← hn]) s rfl)
      | some c =>
        obtain ⟨t, ht⟩ := exists_of_decodeChar hd
        rw [ht]
        refine char c t (ih t.length ?_ t rfl)
        have hpos := List.length_pos_of_ne_nil (encodeChar_ne_nil c)
        rw [← hn, ht, List.length_append]
        omega

/-! ## Valid strings -/

@[simp] theorem valid_nil : ValidUtf8 [] := by simp [ValidUtf8]

@[simp] theorem valid_encode_append {c : Char} : ValidUtf8 (encodeChar c ++ s) ↔ ValidUtf8 s := by
  simp [ValidUtf8]

theorem not_valid_of_invalid (h : decodeChar (b :: s) = none) : ¬ ValidUtf8 (b :: s) := by
  intro hv
  obtain ⟨c, hc⟩ := hv (.invalid b) (by simp [runes_invalid h])
  cases hc

theorem sanitize_encode (c : Char) (s : Bytes) :
    sanitize (encodeChar c ++ s) = encodeChar c ++ sanitize s := by
  simp [sanitize, Rune.bytes]

theorem sanitize_invalid (h : decodeChar (b :: s) = none) :
    sanitize (b :: s) = encodeChar replacement ++ sanitize s := by
  simp [sanitize, runes_invalid h, Rune.bytes]

theorem sanitize_of_valid (h : ValidUtf8 s) : sanitize s = s := by
  induction s using runeInduction with
  | nil => rfl
  | char c s ih => rw [sanitize_encode, ih (valid_encode_append.mp h)]
  | invalid b s hb _ => exact absurd h (not_valid_of_invalid hb)

theorem length_le_sanitize (s : Bytes) : s.length ≤ (sanitize s).length := by
  induction s using runeInduction with
  | nil => simp [sanitize]
  | char c s ih => rw [sanitize_encode]; simpa using ih
  | invalid b s hb ih =>
    rw [sanitize_invalid hb, List.length_append]
    have : (encodeChar replacement).length = 3 := by decide
    simp only [List.length_cons]
    omega

theorem valid_of_length (h : (sanitize s).length = s.length) : ValidUtf8 s := by
  induction s using runeInduction with
  | nil => exact valid_nil
  | char c s ih =>
    rw [sanitize_encode] at h
    exact valid_encode_append.mpr (ih (by simpa using h))
  | invalid b s hb ih =>
    rw [sanitize_invalid hb, List.length_append] at h
    have h3 : (encodeChar replacement).length = 3 := by decide
    have := length_le_sanitize s
    simp only [List.length_cons] at h
    omega

theorem valid_append {t : Bytes} (hs : ValidUtf8 s) (ht : ValidUtf8 t) : ValidUtf8 (s ++ t) := by
  induction s using runeInduction with
  | nil => exact ht
  | char c s ih =>
    rw [List.append_assoc]
    exact valid_encode_append.mpr (ih (valid_encode_append.mp hs))
  | invalid b s hb _ => exact absurd hs (not_valid_of_invalid hb)

theorem valid_flatMap_encode (l : List Char) : ValidUtf8 (l.flatMap encodeChar) := by
  induction l with
  | nil => exact valid_nil
  | cons c l ih => simpa using ih

theorem valid_lit (s : String) : ValidUtf8 (lit s) := by
  obtain ⟨l, hl⟩ := s.isValidUTF8
  have : lit s = l.flatMap encodeChar := by
    show s.toByteArray.data.toList = _
    rw [hl]
    simp [List.utf8Encode]
  rw [this]
  exact valid_flatMap_encode l

theorem encodeChar_ascii (h : b < 0x80) : encodeChar (Char.ofNat b.toNat) = [b] := by
  have hb : b.toNat < 128 := h
  have hv : (Char.ofNat b.toNat).val.toNat = b.toNat := by
    rw [Char.ofNat, dif_pos (Or.inl (by omega))]
    rfl
  unfold String.utf8EncodeChar
  simp only [hv]
  rw [if_pos (by omega)]
  simp

theorem valid_of_ascii (h : ∀ b ∈ s, b < 0x80) : ValidUtf8 s := by
  induction s with
  | nil => exact valid_nil
  | cons b s ih =>
    have hv := ih fun x hx => h x (by simp [hx])
    rw [← List.singleton_append, ← encodeChar_ascii (h b (by simp))]
    exact valid_encode_append.mpr hv

theorem valid_ascii (h : s.all (· < 0x80)) : ValidUtf8 s :=
  valid_of_ascii (by simpa using h)

/-! ## White space -/

/-- `unicode.IsSpace`. -/
def isSpace (c : Char) : Bool :=
  let n := c.toNat
  (0x09 ≤ n && n ≤ 0x0d) || n == 0x20 || n == 0x85 || n == 0xa0 || n == 0x1680 ||
    (0x2000 ≤ n && n ≤ 0x200a) || n == 0x2028 || n == 0x2029 || n == 0x202f || n == 0x205f ||
    n == 0x3000

def Rune.raw : Rune → Bytes
  | .char c => encodeChar c
  | .invalid b => [b]

def Rune.isSpace : Rune → Bool
  | .char c => Text.isSpace c
  | .invalid _ => false

/-- `strings.TrimSpace`. -/
def trimSpace (s : Bytes) : Bytes :=
  (((runes s).dropWhile Rune.isSpace).reverse.dropWhile Rune.isSpace).reverse.flatMap Rune.raw

theorem runes_ascii (h : ∀ b ∈ s, b < 0x80) :
    runes s = s.map fun b => .char (Char.ofNat b.toNat) := by
  induction s with
  | nil => rfl
  | cons b s ih =>
    have hb : b < 0x80 := h b List.mem_cons_self
    have hdecode := decodeRune_encode (Char.ofNat b.toNat) s
    rw [encodeChar_ascii hb] at hdecode
    rw [List.map_cons, ← ih fun x hx => h x (List.mem_cons_of_mem b hx)]
    exact runes_cons hdecode

/-- A printable ASCII character that is no space. -/
def isGraphic (b : UInt8) : Bool := 0x21 ≤ b && b < 0x7f

theorem isSpace_graphic (h : isGraphic b = true) :
    Rune.isSpace (.char (Char.ofNat b.toNat)) = false := by
  rw [isGraphic, Bool.and_eq_true, decide_eq_true_eq, decide_eq_true_eq] at h
  have hlow : 0x21 ≤ b.toNat := h.1
  have hhigh : b.toNat < 0x7f := h.2
  have hchar : (Char.ofNat b.toNat).toNat = b.toNat := by
    rw [Char.ofNat, dif_pos (Or.inl (by omega))]
    rfl
  simp only [Rune.isSpace, Text.isSpace, hchar, Bool.or_eq_false_iff, Bool.and_eq_false_iff,
    decide_eq_false_iff_not, beq_eq_false_iff_ne]
  omega

theorem flatMap_raw_ascii (h : ∀ b ∈ s, b < 0x80) :
    (s.map fun b => Rune.char (Char.ofNat b.toNat)).flatMap Rune.raw = s := by
  induction s with
  | nil => rfl
  | cons b s ih =>
    rw [List.map_cons, List.flatMap_cons, ih fun x hx => h x (List.mem_cons_of_mem b hx)]
    exact congrArg (· ++ s) (encodeChar_ascii (h b List.mem_cons_self))

theorem trim_append {α : Type} {p : α → Bool} {l : List α} {x : α} (hl : ∀ a ∈ l, p a = false)
    (hx : p x = true) : (((l ++ [x]).dropWhile p).reverse.dropWhile p).reverse = l := by
  have hstays {l : List α} (hl : ∀ a ∈ l, p a = false) : l.dropWhile p = l := by
    cases l with
    | nil => rfl
    | cons a l => rw [List.dropWhile_cons_of_neg (by simp [hl a List.mem_cons_self])]
  cases l with
  | nil => simp [hx]
  | cons a l =>
    have hlast : ∀ b ∈ (a :: l).reverse, p b = false := fun b hb => hl b (List.mem_reverse.mp hb)
    rw [List.cons_append, List.dropWhile_cons_of_neg (by simp [hl a List.mem_cons_self]),
      ← List.cons_append, List.reverse_append, List.reverse_singleton, List.singleton_append,
      List.dropWhile_cons_of_pos hx, hstays hlast, List.reverse_reverse]

theorem trimSpace_line (h : s.all isGraphic = true) : trimSpace (s ++ [0x0a]) = s := by
  have hgraphic : ∀ b ∈ s, isGraphic b = true := List.all_eq_true.mp h
  have hascii : ∀ b ∈ s, b < 0x80 := fun b hb => by
    have hb := hgraphic b hb
    rw [isGraphic, Bool.and_eq_true, decide_eq_true_eq, decide_eq_true_eq] at hb
    exact UInt8.lt_trans hb.2 (by decide)
  have hrunes : runes (s ++ [0x0a]) =
      (s.map fun b => Rune.char (Char.ofNat b.toNat)) ++ [.char '\n'] := by
    rw [runes_ascii, List.map_append]
    · rfl
    · intro b hb
      rcases List.mem_append.mp hb with hb | hb
      · exact hascii b hb
      · rw [List.mem_singleton.mp hb]
        decide
  rw [trimSpace, hrunes, trim_append ?_ rfl, flatMap_raw_ascii hascii]
  intro a ha
  obtain ⟨b, hb, rfl⟩ := List.mem_map.mp ha
  exact isSpace_graphic (hgraphic b hb)

end SharedNode.Text
