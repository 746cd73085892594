import SharedNode.Text.Path
import SharedNode.Text.Utf8

/-!
# UTF-16

A JavaScript string is a sequence of 16-bit code units. A character above U+FFFF takes two of them,
a high and a low surrogate; a surrogate without its other half stands for no character. `encode` is
`TextEncoder`, which writes U+FFFD for such a unit, and `decode` a fatal `TextDecoder`, which drops
a byte order mark.

* `scalars_utf16_append`, `scalars_append`: the characters of a string, part by part.
* `unitInduction`: induction over the ASCII units and the other characters of a string.
* `mem_encode`, `eq_of_encode_ascii`, `components_encode`, `length_encode_le`: what the bytes of a
  string say about its units.
* `encode_injective`: strings without lone surrogates differ in their bytes.
* `isText_of_decode`, `zero_not_mem_of_decode`: what a decoder returns; `decode_encode`,
  `decode_ascii`: the strings it gives back.
-/

namespace SharedNode.Text

/-- A JavaScript string as the code units it holds. -/
abbrev JsString := List UInt16

/-- The code units of a character. -/
def utf16 (c : Char) : JsString :=
  if c.toNat < 0x10000 then [UInt16.ofNat c.toNat]
  else [UInt16.ofNat (0xd800 + (c.toNat - 0x10000) / 0x400),
    UInt16.ofNat (0xdc00 + (c.toNat - 0x10000) % 0x400)]

def js (s : String) : JsString := s.toList.flatMap utf16

def isHighSurrogate (u : UInt16) : Bool := 0xd800 ≤ u && u < 0xdc00

def isLowSurrogate (u : UInt16) : Bool := 0xdc00 ≤ u && u < 0xe000

/-- The character of a unit alone. -/
def scalar (u : UInt16) : Char :=
  if isHighSurrogate u || isLowSurrogate u then replacement else Char.ofNat u.toNat

def pairScalar (u v : UInt16) : Char :=
  Char.ofNat (0x10000 + (u.toNat - 0xd800) * 0x400 + (v.toNat - 0xdc00))

/-- The characters of a string, U+FFFD for a surrogate alone. -/
def scalars : JsString → List Char
  | [] => []
  | [u] => [scalar u]
  | u :: v :: rest =>
    if isHighSurrogate u && isLowSurrogate v then pairScalar u v :: scalars rest
    else scalar u :: scalars (v :: rest)

/-- `TextEncoder.encode`. -/
def encode (s : JsString) : Bytes := (scalars s).flatMap encodeChar

def Rune.toChar : Rune → Option Char
  | .char c => some c
  | .invalid _ => none

/-- `TextDecoder.decode` with `fatal`: a byte order mark at the front is dropped. -/
def decode (s : Bytes) : Option JsString :=
  match (runes s).mapM Rune.toChar with
  | none => none
  | some [] => some []
  | some (c :: rest) => some ((if c.toNat = 0xfeff then rest else c :: rest).flatMap utf16)

/-- The string has no surrogate alone. -/
def IsText (s : JsString) : Prop := ∃ cs : List Char, s = cs.flatMap utf16

def splitSlash (s : JsString) : List JsString := s.splitOn 0x2f

/-! ## The characters of a string -/

theorem toNat_char (c : Char) : c.toNat < 0xd800 ∨ 0xe000 ≤ c.toNat ∧ c.toNat < 0x110000 := by
  have := c.valid
  change c.toNat < _ ∨ _ < c.toNat ∧ c.toNat < _ at this
  omega

variable {u : UInt16} {s t : JsString} {c : Char} {b : UInt8}

theorem isHighSurrogate_iff : isHighSurrogate u = true ↔ 0xd800 ≤ u.toNat ∧ u.toNat < 0xdc00 := by
  simp [isHighSurrogate, UInt16.le_iff_toNat_le, UInt16.lt_iff_toNat_lt]

theorem isLowSurrogate_iff : isLowSurrogate u = true ↔ 0xdc00 ≤ u.toNat ∧ u.toNat < 0xe000 := by
  simp [isLowSurrogate, UInt16.le_iff_toNat_le, UInt16.lt_iff_toNat_lt]

theorem scalars_cons (h : isHighSurrogate u = false) :
    scalars (u :: s) = scalar u :: scalars s := by
  cases s with
  | nil => rfl
  | cons v rest => simp [scalars, h]

theorem scalars_cons_of_head
    (h : ∀ v ∈ s.head?, isLowSurrogate v = false) : scalars (u :: s) = scalar u :: scalars s := by
  cases s with
  | nil => rfl
  | cons v rest => simp [scalars, h v rfl]

/-- The two units of a character beyond the first plane. -/
theorem toNat_surrogates (c : Char) : (UInt16.ofNat (0xd800 + (c.toNat - 0x10000) / 0x400)).toNat =
        0xd800 + (c.toNat - 0x10000) / 0x400 ∧
      (UInt16.ofNat (0xdc00 + (c.toNat - 0x10000) % 0x400)).toNat =
        0xdc00 + (c.toNat - 0x10000) % 0x400 := by
  have hc := toNat_char c
  constructor <;> rw [UInt16.toNat_ofNat', Nat.mod_eq_of_lt (by omega)]

theorem scalars_utf16_append (c : Char) (s : JsString) : scalars (utf16 c ++ s) = c ::
    scalars s := by
  have hc := toNat_char c
  unfold utf16
  by_cases hlt : c.toNat < 0x10000
  · have hu : (UInt16.ofNat c.toNat).toNat = c.toNat := by
      rw [UInt16.toNat_ofNat', Nat.mod_eq_of_lt (by omega)]
    have hhigh : isHighSurrogate (UInt16.ofNat c.toNat) = false := by
      rw [Bool.eq_false_iff, ne_eq, isHighSurrogate_iff, hu]
      omega
    have hlow : isLowSurrogate (UInt16.ofNat c.toNat) = false := by
      rw [Bool.eq_false_iff, ne_eq, isLowSurrogate_iff, hu]
      omega
    rw [if_pos hlt, List.singleton_append, scalars_cons hhigh]
    simp [scalar, hhigh, hlow, Nat.mod_eq_of_lt hlt]
  · obtain ⟨hu, hv⟩ := toNat_surrogates c
    have hhigh := isHighSurrogate_iff.mpr
      (show 0xd800 ≤ (UInt16.ofNat (0xd800 + (c.toNat - 0x10000) / 0x400)).toNat ∧ _ by
        rw [hu]; omega)
    have hlow := isLowSurrogate_iff.mpr
      (show 0xdc00 ≤ (UInt16.ofNat (0xdc00 + (c.toNat - 0x10000) % 0x400)).toNat ∧ _ by
        rw [hv]; omega)
    rw [if_neg hlt, List.cons_append, List.singleton_append, scalars, hhigh, hlow]
    simp only [Bool.and_self, if_true, List.cons.injEq, and_true, pairScalar, hu, hv]
    rw [show 0x10000 + (0xd800 + (c.toNat - 0x10000) / 0x400 - 0xd800) * 0x400 +
      (0xdc00 + (c.toNat - 0x10000) % 0x400 - 0xdc00) = c.toNat by omega, Char.ofNat_toNat]

/-- A string and one that starts with no low surrogate have their characters apart. -/
theorem scalars_append (h : ∀ v ∈ t.head?, isLowSurrogate v = false) :
    scalars (s ++ t) = scalars s ++ scalars t := by
  fun_induction scalars s with
  | case1 => rfl
  | case2 u => exact scalars_cons_of_head h
  | case3 u v rest hpair ih =>
    rw [List.cons_append, List.cons_append, scalars, if_pos hpair, ih]
    rfl
  | case4 u v rest hpair ih =>
    rw [List.cons_append, List.cons_append, scalars, if_neg hpair, ← List.cons_append, ih]
    rfl

theorem scalars_flatMap_utf16 (cs : List Char) : scalars (cs.flatMap utf16) = cs := by
  induction cs with
  | nil => rfl
  | cons c cs ih => rw [List.flatMap_cons, scalars_utf16_append, ih]

theorem runes_encode_flatMap (cs : List Char) :
    runes (encode (cs.flatMap utf16)) = cs.map Rune.char := by
  rw [encode, scalars_flatMap_utf16]
  induction cs with
  | nil => rfl
  | cons c cs ih => rw [List.flatMap_cons, runes_encode, ih, List.map_cons]

theorem encode_injective (hs : IsText s) (ht : IsText t) (h : encode s = encode t) : s = t := by
  obtain ⟨cs, rfl⟩ := hs
  obtain ⟨ds, rfl⟩ := ht
  have hmap := congrArg runes h
  rw [runes_encode_flatMap, runes_encode_flatMap] at hmap
  rw [List.map_injective_iff.mpr (fun _ _ => Rune.char.inj) hmap]

/-! ## The bytes of a string -/

/-- The character takes at least two bytes, all of them 0x80 or more, and at most three for each of
its `n` units. -/
structure Wide (c : Char) (n : Nat) : Prop where
  high : ∀ b ∈ encodeChar c, 0x80 ≤ b
  short : (encodeChar c).length ≤ 3 * n

theorem wide_of_le {n : Nat} (hc : 0x80 ≤ c.toNat) (hn : 1 ≤ n)
    (hpair : 0x10000 ≤ c.toNat → 2 ≤ n) : Wide c n := by
  have hval : c.val.toNat = c.toNat := rfl
  have hhigh : ∀ k, 0x80 ≤ k → k < 256 → (0x80 : UInt8) ≤ UInt8.ofNat k := by
    intro k hk hlt
    rw [UInt8.le_iff_toNat_le, UInt8.toNat_ofNat', Nat.mod_eq_of_lt hlt]
    exact hk
  constructor
  · intro b hb
    simp only [encodeChar, String.utf8EncodeChar, hval] at hb
    rw [if_neg (by omega)] at hb
    split at hb
    · simp only [List.mem_cons, List.not_mem_nil, or_false] at hb
      rcases hb with rfl | rfl <;> exact hhigh _ (by omega) (by omega)
    split at hb
    · simp only [List.mem_cons, List.not_mem_nil, or_false] at hb
      rcases hb with rfl | rfl | rfl <;> exact hhigh _ (by omega) (by omega)
    · simp only [List.mem_cons, List.not_mem_nil, or_false] at hb
      rcases hb with rfl | rfl | rfl | rfl <;> exact hhigh _ (by omega) (by omega)
  · simp only [encodeChar, String.utf8EncodeChar, hval]
    rw [if_neg (by omega)]
    split
    · simp only [List.length_cons, List.length_nil]
      omega
    split
    · simp only [List.length_cons, List.length_nil]
      omega
    · simp only [List.length_cons, List.length_nil]
      omega

theorem encode_cons_ascii (h : u < 0x80) (s : JsString) :
    encode (u :: s) = u.toUInt8 :: encode s := by
  have hu : u.toNat < 128 := h
  have hhigh : isHighSurrogate u = false := by
    rw [Bool.eq_false_iff, ne_eq, isHighSurrogate_iff]
    omega
  have hlow : isLowSurrogate u = false := by
    rw [Bool.eq_false_iff, ne_eq, isLowSurrogate_iff]
    omega
  have hbyte : u.toUInt8.toNat = u.toNat := by
    rw [UInt16.toNat_toUInt8, Nat.mod_eq_of_lt (by omega)]
  have hchar := encodeChar_ascii (b := u.toUInt8) (by rw [UInt8.lt_iff_toNat_lt, hbyte]; exact hu)
  rw [hbyte] at hchar
  simp only [encode, scalars_cons hhigh, List.flatMap_cons, scalar, hhigh, hlow, Bool.or_self,
    Bool.false_eq_true, if_false, hchar, List.singleton_append]

/-- The character at the front of a string that does not start with an ASCII unit. -/
theorem exists_wide (h : 0x80 ≤ u) (s : JsString) :
    ∃ front rest c, u :: s = front ++ rest ∧ (∀ v ∈ front, (0x80 : UInt16) ≤ v) ∧
      encode (u :: s) = encodeChar c ++ encode rest ∧ Wide c front.length ∧
        rest.length < (u :: s).length := by
  have hu : 0x80 ≤ u.toNat := h
  have hscalar : Wide (scalar u) 1 := by
    unfold scalar
    split
    · exact wide_of_le (by decide) (Nat.le_refl 1) fun hr => absurd hr (by decide)
    next hs =>
      simp only [Bool.or_eq_true, isHighSurrogate_iff, isLowSurrogate_iff, not_or] at hs
      have hlt := u.toNat_lt
      have hval : (Char.ofNat u.toNat).toNat = u.toNat := by
        rw [Char.ofNat, dif_pos (by simp only [Nat.isValidChar]; omega)]
        rfl
      exact wide_of_le (by omega) (Nat.le_refl 1) fun hr => absurd hr (by omega)
  have hsingle : encode (u :: s) = encodeChar (scalar u) ++ encode s →
      ∃ front rest c, u :: s = front ++ rest ∧ (∀ v ∈ front, (0x80 : UInt16) ≤ v) ∧
        encode (u :: s) = encodeChar c ++ encode rest ∧ Wide c front.length ∧
          rest.length < (u :: s).length := fun heq =>
    ⟨[u], s, scalar u, rfl, by simpa using h, heq, hscalar, by simp⟩
  cases s with
  | nil => exact hsingle (by simp [encode, scalars])
  | cons v rest =>
    by_cases hpair : (isHighSurrogate u && isLowSurrogate v) = true
    · have hboth := hpair
      rw [Bool.and_eq_true, isHighSurrogate_iff, isLowSurrogate_iff] at hboth
      have hv : (0x80 : UInt16) ≤ v := by
        exact Nat.le_trans (by decide) hboth.2.1
      have hval : (pairScalar u v).toNat =
          0x10000 + (u.toNat - 0xd800) * 0x400 + (v.toNat - 0xdc00) := by
        rw [pairScalar, Char.ofNat, dif_pos (by simp only [Nat.isValidChar]; omega)]
        rfl
      refine ⟨[u, v], rest, pairScalar u v, rfl, ?_, ?_, ?_, Nat.lt_succ_of_lt (Nat.lt_succ_self _)⟩
      · simpa using ⟨h, hv⟩
      · simp [encode, scalars, hpair]
      · exact wide_of_le (by omega) (by simp) fun _ => by simp
    · refine hsingle ?_
      rw [encode, scalars, if_neg hpair]
      rfl

/-- **Induction over the characters of a string**: an ASCII unit, or the units of another
character. -/
theorem unitInduction {P : JsString → Prop} (nil : P [])
    (ascii : ∀ u s, u < 0x80 → P s → P (u :: s))
    (wide : ∀ front rest c, (∀ v ∈ front, (0x80 : UInt16) ≤ v) → Wide c front.length →
      encode (front ++ rest) = encodeChar c ++ encode rest → P rest → P (front ++ rest))
    (s : JsString) : P s := by
  induction hn : s.length using Nat.strongRecOn generalizing s with
  | ind n ih =>
    cases s with
    | nil => exact nil
    | cons u s =>
      by_cases hu : u < 0x80
      · exact ascii u s hu (ih s.length (by simp [← hn]) s rfl)
      · obtain ⟨front, rest, c, heq, hfront, hencode, hwide, hlt⟩ :=
          exists_wide (u := u)
            (by rw [UInt16.le_iff_toNat_le]; rw [UInt16.lt_iff_toNat_lt] at hu; omega) s
        rw [heq] at hencode ⊢
        exact wide front rest c hfront hwide hencode (ih rest.length (by omega) rest rfl)

/-- An ASCII byte is one of the bytes exactly if it is one of the units. -/
theorem mem_encode (hb : b < 0x80) (s : JsString) : b ∈ encode s ↔ b.toUInt16 ∈ s := by
  have hunit : b.toUInt16 < 0x80 := by
    exact hb
  induction s using unitInduction with
  | nil => simp [encode, scalars]
  | ascii u s hu ih =>
    rw [encode_cons_ascii hu, List.mem_cons, List.mem_cons]
    have hiff : b = u.toUInt8 ↔ b.toUInt16 = u := by
      rw [← UInt8.toNat_inj, ← UInt16.toNat_inj, UInt16.toNat_toUInt8, UInt8.toNat_toUInt16,
        Nat.mod_eq_of_lt (Nat.lt_trans (show u.toNat < 128 from hu) (by decide))]
    exact or_congr hiff ih
  | wide front rest c hfront hwide hencode ih =>
    rw [hencode, List.mem_append, List.mem_append]
    have hleft : b ∉ encodeChar c := fun hmem => by
      have := hwide.high b hmem
      rw [UInt8.le_iff_toNat_le] at this
      rw [UInt8.lt_iff_toNat_lt] at hb
      omega
    have hright : b.toUInt16 ∉ front := fun hmem => by
      have := hfront _ hmem
      rw [UInt16.le_iff_toNat_le] at this
      rw [UInt16.lt_iff_toNat_lt] at hunit
      omega
    exact or_congr (iff_of_false hleft hright) ih

theorem encode_eq_nil : encode s = [] ↔ s = [] := by
  induction s using unitInduction with
  | nil => simp [encode, scalars]
  | ascii u s hu ih => simp [encode_cons_ascii hu]
  | wide front rest c hfront hwide hencode ih =>
    rw [hencode]
    refine ⟨fun h => absurd (List.append_eq_nil_iff.mp h).1 (encodeChar_ne_nil c), fun h => ?_⟩
    have hlen := hwide.short
    rw [(List.append_eq_nil_iff.mp h).1] at hlen
    exact absurd (List.length_pos_of_ne_nil (encodeChar_ne_nil c)) (by simpa using hlen)

theorem eq_of_encode_ascii (h : ∀ b ∈ encode s, b < 0x80) : s = (encode s).map UInt8.toUInt16 := by
  induction s using unitInduction with
  | nil => rfl
  | ascii u s hu ih =>
    rw [encode_cons_ascii hu] at h ⊢
    rw [List.map_cons, ← ih (List.forall_mem_cons.mp h).2, List.cons.injEq]
    refine ⟨?_, rfl⟩
    rw [← UInt16.toNat_inj, UInt8.toNat_toUInt16, UInt16.toNat_toUInt8,
      Nat.mod_eq_of_lt (Nat.lt_trans (show u.toNat < 128 from hu) (by decide))]
  | wide front rest c hfront hwide hencode ih =>
    obtain ⟨b, hb⟩ := List.exists_mem_of_ne_nil _ (encodeChar_ne_nil c)
    have hlow := h b (by rw [hencode]; exact List.mem_append_left _ hb)
    have hhigh := hwide.high b hb
    rw [UInt8.le_iff_toNat_le] at hhigh
    rw [UInt8.lt_iff_toNat_lt] at hlow
    omega

theorem length_encode_le (s : JsString) : (encode s).length ≤ 3 * s.length := by
  induction s using unitInduction with
  | nil => simp [encode, scalars]
  | ascii u s hu ih =>
    rw [encode_cons_ascii hu, List.length_cons, List.length_cons]
    omega
  | wide front rest c hfront hwide hencode ih =>
    have := hwide.short
    rw [hencode, List.length_append, List.length_append]
    omega

theorem encode_append_slash (s t : JsString) :
    encode (s ++ 0x2f :: t) = encode s ++ slash :: encode t := by
  have hhead : ∀ v ∈ (0x2f :: t : JsString).head?, isLowSurrogate v = false := by
    intro v hv
    obtain rfl : (0x2f : UInt16) = v := by simpa using hv
    decide
  have hcons : encode (0x2f :: t) = slash :: encode t := encode_cons_ascii (by decide) t
  rw [encode, scalars_append hhead, List.flatMap_append]
  exact congrArg _ hcons

theorem components_encode (s : JsString) : components (encode s) = (splitSlash s).map encode := by
  induction hn : s.length using Nat.strongRecOn generalizing s with
  | ind n ih =>
    by_cases hs : (0x2f : UInt16) ∈ s
    · obtain ⟨dir, rest, rfl, hdir⟩ := List.eq_append_cons_of_mem hs
      have hbytes : slash ∉ encode dir := fun hmem => hdir ((mem_encode (by decide) dir).mp hmem)
      rw [encode_append_slash, components_append_slash hbytes, splitSlash,
        List.splitOn_append_cons_self_of_not_mem hdir, List.map_cons, ← splitSlash,
        ih rest.length (by rw [← hn, List.length_append, List.length_cons]; omega) rest rfl]
    · have hbytes : slash ∉ encode s := fun hmem => hs ((mem_encode (by decide) s).mp hmem)
      rw [components_of_not_mem hbytes, splitSlash, List.splitOn_eq_singleton hs,
        List.map_singleton]

/-! ## What a decoder returns -/

theorem isText_append (hs : IsText s) (ht : IsText t) : IsText (s ++ t) := by
  obtain ⟨cs, rfl⟩ := hs
  obtain ⟨ds, rfl⟩ := ht
  exact ⟨cs ++ ds, List.flatMap_append.symm⟩

theorem isText_of_decode {s : Bytes} (h : decode s = some t) : IsText t := by
  unfold decode at h
  split at h
  · cases h
  · cases h
    exact ⟨[], rfl⟩
  · exact ⟨_, (Option.some.inj h).symm⟩

theorem mem_of_mem_runes {s : Bytes} (h : .char c ∈ runes s) (hb : b ∈ encodeChar c) : b ∈ s := by
  induction s using runeInduction with
  | nil => cases h
  | char d s ih =>
    rw [runes_encode, List.mem_cons] at h
    rcases h with heq | h
    · obtain rfl := Rune.char.inj heq
      exact List.mem_append_left _ hb
    · exact List.mem_append_right _ (ih h)
  | invalid d s hd ih =>
    rw [runes_invalid hd, List.mem_cons] at h
    rcases h with heq | h
    · cases heq
    · exact List.mem_cons_of_mem _ (ih h)

theorem runes_of_mapM_toChar {rs : List Rune} {cs : List Char} (h : rs.mapM Rune.toChar = some cs) :
    rs = cs.map Rune.char := by
  induction rs generalizing cs with
  | nil =>
    obtain rfl : [] = cs := by simpa using h
    rfl
  | cons r rs ih =>
    rw [List.mapM_cons] at h
    cases r with
    | invalid b => simp [Rune.toChar] at h
    | char c =>
      simp only [Rune.toChar, Option.bind_eq_bind, Option.bind_some] at h
      obtain ⟨ds, hds, heq⟩ := Option.bind_eq_some_iff.mp h
      obtain rfl : c :: ds = cs := by simpa using heq
      rw [ih hds, List.map_cons]

theorem eq_nul_of_mem_utf16 (h : 0 ∈ utf16 c) : encodeChar c = [0] := by
  have hc := toNat_char c
  have hzero : ∀ n < 0x10000, (0 : UInt16) = UInt16.ofNat n → n = 0 := by
    intro n hn heq
    have := congrArg UInt16.toNat heq
    rw [UInt16.toNat_ofNat', Nat.mod_eq_of_lt hn] at this
    exact this.symm
  unfold utf16 at h
  split at h
  next hlt =>
    have hnul := hzero _ hlt (List.mem_singleton.mp h)
    rw [← Char.ofNat_toNat c, hnul]
    decide
  · simp only [List.mem_cons, List.not_mem_nil, or_false] at h
    rcases h with h | h
    · have := hzero _ (by omega) h
      omega
    · have := hzero _ (by omega) h
      omega

theorem zero_not_mem_of_decode {s : Bytes} (hs : 0 ∉ s) (h : decode s = some t) : 0 ∉ t := by
  have hchars : ∀ cs, (runes s).mapM Rune.toChar = some cs → ∀ c ∈ cs, (0 : UInt16) ∉ utf16 c := by
    intro cs hcs c hc hmem
    have hrune : .char c ∈ runes s := by
      rw [runes_of_mapM_toChar hcs]
      exact List.mem_map_of_mem hc
    exact hs (mem_of_mem_runes hrune (by simp [eq_nul_of_mem_utf16 hmem]))
  unfold decode at h
  split at h
  · cases h
  · cases h
    simp
  next c rest hcs =>
    cases h
    intro hmem
    obtain ⟨d, hd, hd0⟩ := List.mem_flatMap.mp hmem
    refine hchars _ hcs d ?_ hd0
    split at hd
    · exact List.mem_cons_of_mem _ hd
    · exact hd

theorem exists_decode {s : Bytes} (h : ValidUtf8 s) : ∃ t, decode s = some t := by
  have hchars : ∃ cs, (runes s).mapM Rune.toChar = some cs := by
    unfold ValidUtf8 at h
    generalize runes s = rs at h
    induction rs with
    | nil => exact ⟨[], rfl⟩
    | cons r rs ih =>
      obtain ⟨c, rfl⟩ := h r List.mem_cons_self
      obtain ⟨cs, hcs⟩ := ih (List.forall_mem_cons.mp h).2
      exact ⟨c :: cs, by simp [hcs, Rune.toChar]⟩
  obtain ⟨cs, hcs⟩ := hchars
  unfold decode
  rw [hcs]
  cases cs with
  | nil => exact ⟨_, rfl⟩
  | cons c rest => exact ⟨_, rfl⟩

/-- A text that starts with an ASCII byte is decoded to a string with the same bytes. -/
theorem encode_of_decode {s : Bytes} (hb : b < 0x80)
    (h : decode (b :: s) = some t) : encode t = b :: s := by
  have hfirst : runes (b :: s) = .char (Char.ofNat b.toNat) :: runes s := by
    have := runes_encode (Char.ofNat b.toNat) s
    rwa [encodeChar_ascii hb] at this
  have hall : ∀ cs, (runes (b :: s)).mapM Rune.toChar = some cs →
      cs.flatMap encodeChar = b :: s := by
    intro cs hcs
    have hruns := runes_of_mapM_toChar hcs
    have hvalid : ValidUtf8 (b :: s) := by
      intro r hr
      rw [hruns] at hr
      obtain ⟨c, -, rfl⟩ := List.mem_map.mp hr
      exact ⟨c, rfl⟩
    rw [← sanitize_of_valid hvalid, sanitize, hruns, List.flatMap_map]
    rfl
  unfold decode at h
  split at h
  · cases h
  next hcs => exact absurd (runes_of_mapM_toChar hcs) (by simp [hfirst])
  next c rest hcs =>
    have hbound : b.toNat < 128 := hb
    have hc : c = Char.ofNat b.toNat := by
      have := runes_of_mapM_toChar hcs
      rw [hfirst, List.map_cons] at this
      exact (Rune.char.inj (List.cons.inj this).1).symm
    have hnot : ¬ c.toNat = 0xfeff := by
      rw [hc, Char.ofNat, dif_pos (Or.inl (by omega))]
      change ¬ b.toNat = _
      omega
    rw [if_neg hnot] at h
    cases h
    rw [encode, scalars_flatMap_utf16]
    exact hall _ hcs

/-- A string without lone surrogates and without a byte order mark is what its bytes decode to. -/
theorem decode_encode (hs : IsText s) (hmark : s.head? ≠ some 0xfeff) :
    decode (encode s) = some s := by
  obtain ⟨cs, rfl⟩ := hs
  have hchars : (cs.map Rune.char).mapM Rune.toChar = some cs := by
    clear hmark
    induction cs with
    | nil => rfl
    | cons c rest ih => simp [ih, Rune.toChar]
  unfold decode
  rw [runes_encode_flatMap, hchars]
  cases cs with
  | nil => rfl
  | cons c rest =>
    have hfirst : c.toNat ≠ 0xfeff := by
      intro hc
      refine hmark ?_
      rw [List.flatMap_cons, utf16, if_pos (by omega), hc]
      rfl
    simp only [if_neg hfirst]

theorem isText_ascii {s : Bytes} (h : ∀ b ∈ s, b < 0x80) : IsText (s.map UInt8.toUInt16) := by
  refine ⟨s.map fun b => Char.ofNat b.toNat, ?_⟩
  rw [List.flatMap_map, List.map_eq_flatMap]
  refine List.flatMap_congr fun b hb => ?_
  have hlt : b.toNat < 128 := h b hb
  have hchar : (Char.ofNat b.toNat).toNat = b.toNat := by
    rw [Char.ofNat, dif_pos (Or.inl (by omega))]
    rfl
  have hunit : b.toUInt16 = UInt16.ofNat b.toNat := UInt16.toNat_inj.mp (by simp)
  rw [utf16, hchar, if_pos (by omega), hunit]

theorem encode_map_ascii {s : Bytes} (h : ∀ b ∈ s, b < 0x80) :
    encode (s.map UInt8.toUInt16) = s := by
  induction s with
  | nil => rfl
  | cons b s ih =>
    have hb : b.toUInt16 < 0x80 := by
      exact h b List.mem_cons_self
    rw [List.map_cons, encode_cons_ascii hb, ih (List.forall_mem_cons.mp h).2,
      UInt8.toUInt8_toUInt16]

theorem decode_ascii {s : Bytes} (h : ∀ b ∈ s, b < 0x80) :
    decode s = some (s.map UInt8.toUInt16) := by
  have hmark : (s.map UInt8.toUInt16).head? ≠ some 0xfeff := by
    intro hhead
    cases s with
    | nil => cases hhead
    | cons b rest =>
      have hb : b.toNat < 128 := h b List.mem_cons_self
      have heq := congrArg UInt16.toNat (Option.some.inj hhead)
      change b.toNat = 0xfeff at heq
      omega
  have := decode_encode (isText_ascii h) hmark
  rwa [encode_map_ascii h] at this

theorem isText_of_append_cons (hu : u < 0x80) (h : IsText (s ++ u :: t)) : IsText s ∧ IsText t := by
  obtain ⟨cs, hcs⟩ := h
  induction cs generalizing s with
  | nil => simp at hcs
  | cons c rest ih =>
    have hc := toNat_char c
    rw [List.flatMap_cons] at hcs
    unfold utf16 at hcs
    split at hcs
    next hbmp =>
      cases s with
      | nil =>
        exact ⟨⟨[], rfl⟩, rest, (List.cons.inj hcs).2⟩
      | cons v s =>
        obtain ⟨hv, hrest⟩ := List.cons.inj hcs
        obtain ⟨⟨cs', hcs'⟩, ht⟩ := ih hrest
        refine ⟨⟨c :: cs', ?_⟩, ht⟩
        rw [List.flatMap_cons, utf16, if_pos hbmp, List.singleton_append, hv, hcs']
    next hpair =>
      -- The two units of the character are surrogates, so that neither is the unit.
      obtain ⟨hhigh, hlow⟩ := toNat_surrogates c
      have hlt : u.toNat < 0x80 := hu
      match s, hcs with
      | [], hcs =>
        have heq := congrArg UInt16.toNat (List.cons.inj hcs).1
        omega
      | [v], hcs =>
        have heq := congrArg UInt16.toNat (List.cons.inj (List.cons.inj hcs).2).1
        omega
      | v :: w :: s, hcs =>
        obtain ⟨hv, hcs⟩ := List.cons.inj hcs
        obtain ⟨hw, hrest⟩ := List.cons.inj hcs
        obtain ⟨⟨cs', hcs'⟩, ht⟩ := ih hrest
        refine ⟨⟨c :: cs', ?_⟩, ht⟩
        rw [List.flatMap_cons, utf16, if_neg hpair, hv, hw, hcs']
        rfl

end SharedNode.Text
