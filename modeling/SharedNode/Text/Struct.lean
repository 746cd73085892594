import SharedNode.Text.Json

/-!
# Structs as JSON

How `encoding/json` reads a document into a struct and writes one. A member of an object belongs to
the field whose name it has up to case; `null` leaves a number or a string as it is. A struct is
given by the table of its fields (`Field`) with their names in the document, and each value by how
it is read and written (`Codec`).

* `parse_renderFields`: what is written of a struct is the document `jsonFields`.
* `readFields_jsonFields`: that document is read field by field, if the names of the fields differ.

Left out: embedded structs, maps and interfaces, which the documents here do not have.
-/

namespace SharedNode.Text

/-- The lower case of an ASCII letter. -/
def lowerByte (b : UInt8) : UInt8 := if 0x41 ≤ b && b ≤ 0x5a then b + 0x20 else b

/-- A name up to case. Beside the ASCII letters, U+017F and U+212A count as `s` and `k`. -/
def foldName : Bytes → Bytes
  | 0xc5 :: 0xbf :: s => 0x73 :: foldName s
  | 0xe2 :: 0x84 :: 0xaa :: s => 0x6b :: foldName s
  | b :: s => lowerByte b :: foldName s
  | [] => []

def names (member : Bytes) (field : String) : Bool := foldName member = foldName (lit field)

/-- Reads a 64-bit integer into a field. -/
def readInt (current : Int) : Json → Option Int
  | .null => some current
  | .num literal => parseInt literal
  | _ => none

def readText (current : Bytes) : Json → Option Bytes
  | .null => some current
  | .str s => some s
  | _ => none

/-- How a value is read from a document into a variable, and what is written of it. The text says
`json`, with at most `depth` levels. -/
structure Codec (T : Type) where
  /-- The value of a new variable. -/
  zero : T
  read : T → Json → Option T
  write : T → Bytes
  json : T → Json
  depth : Nat
  denotes : ∀ a d, Denotes (d + depth) (write a) (json a)

/-- A field of a struct, with its name in a document. -/
structure Field (S : Type) where
  {Value : Type}
  name : String
  get : S → Value
  set : S → Value → S
  codec : Codec Value
  /-- The values that are left out, as `omitempty` says. -/
  omitted : Value → Bool

section Fields

variable {S T : Type}

/-- A field that is always written. -/
def field (name : String) (get : S → T) (set : S → T → S) (codec : Codec T) : Field S :=
  ⟨name, get, set, codec, fun _ => false⟩

/-- A field with the tag `omitempty`. -/
def Field.omitEmpty (f : Field S) (omitted : f.Value → Bool) : Field S := { f with omitted }

/-- Reads the members of a document into a struct; `strict` as after `DisallowUnknownFields`. -/
def readFields (strict : Bool) (fields : List (Field S)) (s : S) : Json → Option S
  | .null => some s
  | .obj members => members.foldlM
      (fun s member =>
        match fields.find? fun f => names member.1 f.name with
        | some f => (f.codec.read (f.get s) member.2).map (f.set s)
        | none => if strict then none else some s) s
  | _ => none

/-- The fields of a struct that are written. -/
def writtenFields (fields : List (Field S)) (s : S) : List (Field S) :=
  fields.filter fun f => !f.omitted (f.get s)

/-- A struct as `json.Marshal` writes it. -/
def renderFields (fields : List (Field S)) (s : S) : Bytes :=
  renderObject ((writtenFields fields s).map fun f => (lit f.name, f.codec.write (f.get s)))

def jsonFields (fields : List (Field S)) (s : S) : Json :=
  .object ((writtenFields fields s).map fun f => (f.name, f.codec.json (f.get s)))

def fieldsDepth (fields : List (Field S)) : Nat := (fields.map fun f => f.codec.depth).foldr max 0

theorem depth_le_fieldsDepth {fields : List (Field S)} {f : Field S} (h : f ∈ fields) :
    f.codec.depth ≤ fieldsDepth fields := by
  induction fields with
  | nil => cases h
  | cons g fields ih =>
    rcases List.mem_cons.mp h with rfl | h
    · exact Nat.le_max_left _ _
    · exact (ih h).trans (Nat.le_max_right _ _)

/-- What is written of a struct says what is written of its fields. -/
theorem denotes_renderFields (fields : List (Field S)) (s : S) (d : Nat) :
    Denotes (d + (fieldsDepth fields + 1)) (renderFields fields s) (jsonFields fields s) := by
  have hobj := denotes_literals (d := d + fieldsDepth fields)
    ((writtenFields fields s).map fun f =>
      (f.name, f.codec.write (f.get s), f.codec.json (f.get s))) (by
      intro m hm
      obtain ⟨f, hf, rfl⟩ := List.mem_map.mp hm
      have hle := depth_le_fieldsDepth (List.mem_of_mem_filter hf)
      have hdenotes := f.codec.denotes (f.get s) (d + (fieldsDepth fields - f.codec.depth))
      rwa [Nat.add_assoc, Nat.sub_add_cancel hle] at hdenotes)
  rwa [List.map_map, List.map_map] at hobj

def text : Codec Bytes :=
  ⟨[], readText, quote, fun v => .str (sanitize v), 1, fun v d => denotes_quote d v⟩

def integer : Codec Int :=
  ⟨0, readInt, formatInt, fun v => .num (formatInt v), 1, fun v d => denotes_formatInt d v⟩

def struct (strict : Bool) (fields : List (Field S)) (zero : S) : Codec S :=
  ⟨zero, readFields strict fields, renderFields fields, jsonFields fields, fieldsDepth fields + 1,
    denotes_renderFields fields⟩

theorem denotes_null (d : Nat) : Denotes (d + 1) (lit "null") .null := by
  have htext : lit "null" = [0x6e, 0x75, 0x6c, 0x6c] := rfl
  refine ⟨⟨0x6e, _, htext, by decide⟩, fun rest _ => ?_⟩
  rfl

/-- A slice of which it does not matter whether it is nil. -/
def listOf (c : Codec T) : Codec (List T) where
  zero := []
  read _ v :=
    match v with
    | .null => some []
    | .arr items => items.mapM (c.read c.zero)
    | _ => none
  write items := renderArray (items.map c.write)
  json items := .arr (items.map c.json)
  depth := c.depth + 1
  denotes _ d := denotes_array fun a _ => c.denotes a d

/-- A slice, or a pointer to a value: nil is written `null`. -/
def nilable (c : Codec T) : Codec (Option T) where
  zero := none
  read current v :=
    match v with
    | .null => some none
    | v => (c.read (current.getD c.zero) v).map some
  write
    | none => lit "null"
    | some a => c.write a
  json
    | none => .null
    | some a => c.json a
  depth := c.depth + 1
  denotes
    | none, d => denotes_null (d + c.depth)
    | some a, d => by
      have hdenotes := c.denotes a (d + 1)
      rwa [Nat.add_assoc, Nat.add_comm 1] at hdenotes

end Fields

/-! ## Reading what was written -/

section ReadBack

variable {S : Type}

theorem find_field {fields : List (Field S)}
    (hnames : (fields.map fun f => foldName (lit f.name)).Nodup) {f : Field S} (hf : f ∈ fields) :
    (fields.find? fun g => names (lit f.name) g.name) = some f := by
  induction fields with
  | nil => cases hf
  | cons g fields ih =>
    obtain ⟨hfirst, hrest⟩ := List.nodup_cons.mp hnames
    rcases List.mem_cons.mp hf with rfl | hf
    · rw [List.find?_cons_of_pos]
      exact decide_eq_true rfl
    · rw [List.find?_cons_of_neg, ih hrest hf]
      intro hsame
      exact hfirst (List.mem_map.mpr ⟨f, hf, of_decide_eq_true hsame⟩)

/-- Reads what is written of a field of `s` into a struct. -/
def restoreField (s acc : S) (f : Field S) : Option S :=
  if f.omitted (f.get s) then some acc
  else (f.codec.read (f.get acc) (f.codec.json (f.get s))).map (f.set acc)

/-- A struct is read back field by field. -/
theorem readFields_jsonFields {table : List (Field S)}
    (hnames : (table.map fun f => foldName (lit f.name)).Nodup) (strict : Bool) (s acc : S) :
    readFields strict table acc (jsonFields table s) = table.foldlM (restoreField s) acc := by
  suffices h : ∀ fields ⊆ table, ∀ acc,
      readFields strict table acc (jsonFields fields s) = fields.foldlM (restoreField s) acc from
    h table (List.Subset.refl table) acc
  intro fields
  induction fields with
  | nil => exact fun _ acc => rfl
  | cons f fields ih =>
    intro hsub acc
    have hrest := ih fun g hg => hsub (List.mem_cons_of_mem f hg)
    rw [List.foldlM_cons]
    cases hf : f.omitted (f.get s) with
    | true =>
      have hwritten : writtenFields (f :: fields) s =
        writtenFields fields s := by simp [writtenFields, hf]
      rw [jsonFields, hwritten, restoreField, if_pos hf]
      exact hrest acc
    | false =>
      have hwritten : writtenFields (f :: fields) s = f ::
        writtenFields fields s := by simp [writtenFields, hf]
      have hfind := find_field hnames (hsub List.mem_cons_self)
      rw [jsonFields, hwritten, restoreField, if_neg (by simp [hf])]
      simp only [Json.object, readFields, List.map_cons, List.foldlM_cons, hfind]
      exact bind_congr fun acc => hrest acc

section Values

variable {T : Type} {name : String} {s acc : S}

theorem restore_text {get : S → Bytes} {set : S → Bytes → S} (h : ValidUtf8 (get s)) :
    restoreField s acc (field name get set text) = some (set acc (get s)) := by
  have hread : restoreField s acc (field name get set text) =
    some (set acc (sanitize (get s))) := rfl
  rw [hread, sanitize_of_valid h]

theorem restore_integer {get : S → Int} {set : S → Int → S} (h : -2 ^ 63 ≤ get s ∧ get s < 2 ^ 63) :
    restoreField s acc (field name get set integer) = some (set acc (get s)) := by
  have hread : restoreField s acc (field name get set integer) =
      (parseInt (formatInt (get s))).map (set acc) := rfl
  rw [hread, parseInt_formatInt, if_pos h]
  rfl

/-- A text that may be left out is read back into a struct in which it is empty. -/
theorem restore_optional {get : S → Bytes} {set : S → Bytes → S} (h : ValidUtf8 (get s))
    (hempty : set acc [] = acc) :
    restoreField s acc ((field name get set text).omitEmpty List.isEmpty) =
      some (set acc (get s)) := by
  have hread : restoreField s acc ((field name get set text).omitEmpty List.isEmpty) =
      if (get s).isEmpty then some acc else some (set acc (sanitize (get s))) := rfl
  rw [hread, sanitize_of_valid h]
  split
  · rename_i hnil
    rw [List.isEmpty_iff.mp hnil, hempty]
  · rfl

theorem mapM_readText {l : List Bytes} (h : ∀ a ∈ l, ValidUtf8 a) :
    (l.map text.json).mapM (text.read text.zero) = some l := by
  induction l with
  | nil => rfl
  | cons a l ih =>
    have hread : text.read text.zero (text.json a) = some a :=
      congrArg some (sanitize_of_valid (h a List.mem_cons_self))
    rw [List.map_cons, List.mapM_cons, hread, ih fun b hb => h b (List.mem_cons_of_mem a hb)]
    rfl

theorem restore_texts {get : S → Option (List Bytes)} {set : S → Option (List Bytes) → S}
    (h : ∀ l ∈ get s, ∀ a ∈ l, ValidUtf8 a) :
    restoreField s acc (field name get set (nilable (listOf text))) = some (set acc (get s)) := by
  have hread : restoreField s acc (field name get set (nilable (listOf text))) =
      ((nilable (listOf text)).read (get acc) ((nilable (listOf text)).json (get s))).map
        (set acc) := rfl
  rw [hread]
  cases hvalue : get s with
  | none => rfl
  | some l =>
    have hitems : (nilable (listOf text)).read (get acc) ((nilable (listOf text)).json (some l)) =
        ((l.map text.json).mapM (text.read text.zero)).map some := rfl
    rw [hitems, mapM_readText (h l hvalue)]
    rfl

theorem restore_struct {get : S → T} {set : S → T → S} {strict : Bool} {fields : List (Field T)}
    {zero : T} (h : readFields strict fields (get acc) (jsonFields fields (get s)) = some (get s)) :
    restoreField s acc (field name get set (struct strict fields zero)) = some (set acc (get s)) :=
  congrArg (Option.map (set acc)) h

end Values

theorem parse_renderFields {fields : List (Field S)} (hdepth : fieldsDepth fields ≤ maxNestingDepth)
    (s : S) : parse (renderFields fields s) = some (jsonFields fields s) := by
  have hdenotes := denotes_renderFields fields s (maxNestingDepth - fieldsDepth fields)
  rw [← Nat.add_assoc, Nat.sub_add_cancel hdepth] at hdenotes
  exact parse_of_denotes hdenotes

end ReadBack

/-! ## The length of a text -/

theorem length_takeRunes_le (n : Nat) (s : Bytes) : (takeRunes n s).length ≤ n := by
  induction n generalizing s with
  | zero => exact Nat.le_refl 0
  | succ n ih =>
    rw [takeRunes]
    split
    · exact Nat.zero_le _
    · exact Nat.succ_le_succ (ih _)

theorem length_escape_le (r : Rune) : (escape r).length ≤ 6 := by
  cases r with
  | invalid b => exact Nat.le_refl 6
  | char c =>
    have hsize : (encodeChar c).length ≤ 4 := by
      rw [String.length_utf8EncodeChar]
      exact c.utf8Size_le_four
    unfold escape
    dsimp only
    split
    · rw [List.length_cons]
      omega
    · repeat' split
      all_goals first
        | exact Nat.le_refl 6
        | omega
        | simp

/-- A string is written with at most six bytes for each of its own. -/
theorem length_quote_le (s : Bytes) : (quote s).length ≤ 6 * s.length + 2 := by
  have hbody : ∀ l : List Rune, (l.flatMap escape).length ≤ 6 * l.length := by
    intro l
    induction l with
    | nil => exact Nat.le_refl 0
    | cons r l ih =>
      have := length_escape_le r
      rw [List.flatMap_cons, List.length_append, List.length_cons]
      omega
  have hrunes := length_takeRunes_le s.length s
  have := hbody (runes s)
  have hcount : (runes s).length ≤ s.length := hrunes
  rw [quote, List.length_cons, List.length_append, List.length_singleton, quoteBody]
  omega

end SharedNode.Text
