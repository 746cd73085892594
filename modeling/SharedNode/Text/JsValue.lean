import Mathlib.Data.List.Sort
import SharedNode.Text.Utf16

/-!
# Values of JSON documents in JavaScript

What `JSON.parse` gives: strings are sequences of code units, a number is known by the text that
`JSON.stringify` writes for it, and the members of an object come in the order of their insertion.

* `canonicalize` sorts the members of every object; `canonicalize_idem`.
* `get` and `keysAre` read a value that may be undefined. What they say of the canonical form they
  say of the value (`get_canonicalize`, `keysAre_canonicalize`).
* `stringify` is `JSON.stringify`: array indices come first among the members of an object.
* `spread` is `{ ...value, key: v }` for a key that is there.
-/

namespace SharedNode.Text

inductive JsValue where
  | null
  | bool (b : Bool)
  | num (text : Bytes)
  | str (s : JsString)
  | arr (items : List JsValue)
  | obj (members : List (JsString × JsValue))

namespace JsValue

/-- An object with these members. -/
def object (members : List (String × JsValue)) : JsValue :=
  .obj (members.map fun m => (js m.1, m.2))

/-- A string of ASCII characters. -/
def ascii (s : String) : JsValue := .str ((lit s).map (·.toUInt16))

def number (s : String) : JsValue := .num (lit s)

def sortMembers {α : Type} (members : List (JsString × α)) : List (JsString × α) :=
  members.insertionSort fun a b => a.1 ≤ b.1

mutual

def canonicalize : JsValue → JsValue
  | arr items => arr (canonicalizeItems items)
  | obj members => obj (sortMembers (canonicalizeMembers members))
  | null => null
  | bool b => bool b
  | num text => num text
  | str s => str s

def canonicalizeItems : List JsValue → List JsValue
  | [] => []
  | v :: rest => canonicalize v :: canonicalizeItems rest

def canonicalizeMembers : List (JsString × JsValue) → List (JsString × JsValue)
  | [] => []
  | (k, v) :: rest => (k, canonicalize v) :: canonicalizeMembers rest

end

/-! ## Writing -/

/-- The key is an array index: a decimal number without leading zeros below 2 ^ 32 - 1. -/
def isArrayIndex (k : JsString) : Bool :=
  k ≠ [] && k.all (fun u => 0x30 ≤ u && u ≤ 0x39) && (k.length = 1 || k.head? ≠ some 0x30) &&
    decide (k.foldl (fun n u => n * 10 + (u.toNat - 0x30)) 0 < 2 ^ 32 - 1)

def enumerate {α : Type} (members : List (JsString × α)) : List (JsString × α) :=
  (members.filter fun m => isArrayIndex m.1).insertionSort
      (fun a b => a.1.length < b.1.length ∨ a.1.length = b.1.length ∧ a.1 ≤ b.1) ++
    members.filter fun m => !isArrayIndex m.1

def unitEscape (u : UInt16) : JsString :=
  let digit := fun n : Nat => (hexDigit (u.toNat / 16 ^ n % 16)).toUInt16
  js "\\u" ++ [digit 3, digit 2, digit 1, digit 0]

def quoteUnit (u : UInt16) : JsString :=
  if u = 0x22 then js "\\\"" else if u = 0x5c then js "\\\\"
  else if u = 0x08 then js "\\b" else if u = 0x09 then js "\\t" else if u = 0x0a then js "\\n"
  else if u = 0x0c then js "\\f" else if u = 0x0d then js "\\r"
  else if u < 0x20 || isHighSurrogate u || isLowSurrogate u then unitEscape u
  else [u]

/-- The inside of a quoted string; a surrogate without its other half is escaped. -/
def quoteUnits : JsString → JsString
  | u :: v :: rest =>
    if isHighSurrogate u && isLowSurrogate v then u :: v :: quoteUnits rest
    else quoteUnit u ++ quoteUnits (v :: rest)
  | [u] => quoteUnit u
  | [] => []

def quoteString (s : JsString) : JsString := 0x22 :: (quoteUnits s ++ [0x22])

def commas : List JsString → JsString
  | [] => []
  | [s] => s
  | s :: t :: rest => s ++ 0x2c :: commas (t :: rest)

def memberText (m : JsString × JsString) : JsString := quoteString m.1 ++ 0x3a :: m.2

mutual

/-- `JSON.stringify`. -/
def stringify : JsValue → JsString
  | null => js "null"
  | bool b => if b then js "true" else js "false"
  | num text => text.map (·.toUInt16)
  | str s => quoteString s
  | arr items => 0x5b :: (commas (stringifyItems items) ++ [0x5d])
  | obj members => 0x7b ::
      (commas ((enumerate (stringifyMembers members)).map memberText) ++ [0x7d])

def stringifyItems : List JsValue → List JsString
  | [] => []
  | v :: rest => stringify v :: stringifyItems rest

def stringifyMembers : List (JsString × JsValue) → List (JsString × JsString)
  | [] => []
  | (k, v) :: rest => (k, stringify v) :: stringifyMembers rest

end

/-! ## Reading -/

/-- A property; `none` if it is not there, or the value has no properties. -/
def get : Option JsValue → String → Option JsValue
  | some (obj members), key => (members.find? fun m => m.1 == js key).map (·.2)
  | _, _ => none

/-- An object with these keys and no others. -/
def keysAre (keys : List String) : Option JsValue → Bool
  | some (obj members) => (members.map (·.1)).isPerm (keys.map js)
  | _ => false

theorem keysAre_object {keys : List String} {members : List (String × JsValue)}
    (h : members.map (·.1) = keys) : keysAre keys (some (object members)) = true := by
  rw [object, keysAre, List.isPerm_iff, ← h, List.map_map, List.map_map]
  exact List.Perm.refl _

def isObject : Option JsValue → Bool
  | some (obj _) => true
  | _ => false

def items : Option JsValue → Option (List JsValue)
  | some (arr l) => some l
  | _ => none

def asString : Option JsValue → Option JsString
  | some (str s) => some s
  | _ => none

def asNumber : Option JsValue → Option Bytes
  | some (num text) => some text
  | _ => none

def spread (key : String) (v : JsValue) : JsValue → JsValue
  | obj members => obj (members.map fun m => if m.1 = js key then (m.1, v) else m)
  | w => w

/-! ## Sorting -/

section Sorting

variable {α β : Type}

theorem pairwise_sortMembers (l : List (JsString × α)) :
    (sortMembers l).Pairwise fun a b => a.1 ≤ b.1 := by
  exact List.pairwise_insertionSort (fun a b : JsString × α => a.1 ≤ b.1) l

theorem perm_sortMembers (l : List (JsString × α)) : (sortMembers l).Perm l :=
  List.perm_insertionSort _ l

theorem sortMembers_sortMembers (l : List (JsString × α)) :
    sortMembers (sortMembers l) = sortMembers l :=
  (pairwise_sortMembers l).insertionSort_eq

theorem map_sortMembers {f : JsString × α → JsString × β} (hf : ∀ m, (f m).1 = m.1)
    (l : List (JsString × α)) : (sortMembers l).map f = sortMembers (l.map f) :=
  List.map_insertionSort _ _ f l fun a _ b _ => by rw [hf, hf]

theorem find?_sortMembers (k : JsString) (l : List (JsString × α)) :
    (sortMembers l).find? (fun m => m.1 == k) = l.find? fun m => m.1 == k := by
  have hinsert : ∀ (m : JsString × α) (l : List (JsString × α)),
      (l.orderedInsert (fun a b => a.1 ≤ b.1) m).find? (fun m => m.1 == k) =
        (m :: l).find? fun m => m.1 == k := by
    intro m l
    induction l with
    | nil => rfl
    | cons n l ih =>
      by_cases hle : m.1 ≤ n.1
      · rw [List.orderedInsert_cons, if_pos hle]
      · rw [List.orderedInsert_cons, if_neg hle, List.find?_cons, ih]
        by_cases hn : n.1 = k
        · -- Then the new member has another key, or it would have come first.
          have hm : m.1 ≠ k := fun hm => hle (hm.trans hn.symm ▸ List.le_refl _)
          simp [hn, hm]
        · have hn' : (n.1 == k) = false := beq_false_of_ne hn
          simp only [List.find?_cons, hn']
  induction l with
  | nil => rfl
  | cons m l ih =>
    rw [sortMembers, List.insertionSort_cons, hinsert, List.find?_cons, List.find?_cons, ← ih]
    rfl

end Sorting

/-! ## Canonical forms -/

def canonicalizeMember (m : JsString × JsValue) : JsString × JsValue := (m.1, canonicalize m.2)

theorem canonicalizeMember_key (m : JsString × JsValue) : (canonicalizeMember m).1 = m.1 := rfl

theorem canonicalizeMembers_eq (members : List (JsString × JsValue)) :
    canonicalizeMembers members = members.map canonicalizeMember := by
  induction members with
  | nil => rfl
  | cons m rest ih => simp only [canonicalizeMembers, ih, List.map_cons, canonicalizeMember]

theorem canonicalizeItems_eq (l : List JsValue) : canonicalizeItems l = l.map canonicalize := by
  induction l with
  | nil => rfl
  | cons v rest ih => simp only [canonicalizeItems, ih, List.map_cons]

theorem canonicalize_obj (members : List (JsString × JsValue)) :
    canonicalize (obj members) = obj (sortMembers (members.map canonicalizeMember)) := by
  rw [canonicalize, canonicalizeMembers_eq]

theorem canonicalize_arr (l : List JsValue) : canonicalize (arr l) = arr (l.map canonicalize) := by
  rw [canonicalize, canonicalizeItems_eq]

mutual

theorem canonicalize_idem : (v : JsValue) → canonicalize (canonicalize v) = canonicalize v
  | arr l => by rw [canonicalize_arr, canonicalize_arr, canonicalize_idem_items l]
  | obj members => by
    rw [canonicalize_obj, canonicalize_obj, map_sortMembers canonicalizeMember_key,
      sortMembers_sortMembers, canonicalize_idem_members members]
  | null | bool _ | num _ | str _ => rfl

theorem canonicalize_idem_items : (l : List JsValue) →
    (l.map canonicalize).map canonicalize = l.map canonicalize
  | [] => rfl
  | v :: rest => by
    simp only [List.map_cons, canonicalize_idem v, canonicalize_idem_items rest]

theorem canonicalize_idem_members : (l : List (JsString × JsValue)) →
    (l.map canonicalizeMember).map canonicalizeMember = l.map canonicalizeMember
  | [] => rfl
  | (k, v) :: rest => by
    simp only [List.map_cons, canonicalizeMember, canonicalize_idem v, List.cons.injEq, true_and]
    exact canonicalize_idem_members rest

end

/-- The canonical form with a property replaced is that of the value with the property replaced. -/
theorem spread_spread (key : String) (v w u : JsValue) :
    spread key v (spread key w u) = spread key v u := by
  cases u with
  | obj members =>
    rw [spread, spread, spread, List.map_map]
    refine congrArg obj (List.map_congr_left fun m _ => ?_)
    by_cases h : m.1 = js key <;> simp [h]
  | _ => rfl

theorem canonicalize_spread (key : String) (v w : JsValue) :
    canonicalize (spread key v (canonicalize w)) = canonicalize (spread key v w) := by
  cases w with
  | obj members =>
    rw [canonicalize_obj, spread, spread, canonicalize_obj, canonicalize_obj,
      map_sortMembers (fun m => by split <;> rfl), map_sortMembers canonicalizeMember_key,
      sortMembers_sortMembers, List.map_map, List.map_map, List.map_map]
    congr 2
    refine List.map_congr_left fun m _ => ?_
    simp only [Function.comp_apply, canonicalizeMember]
    split
    · rfl
    · simp only [canonicalize_idem]
  | arr l =>
    rw [canonicalize_arr]
    exact (canonicalize_arr _).trans ((congrArg arr (canonicalize_idem_items l)).trans
      (canonicalize_arr l).symm)
  | null => rfl
  | bool b => rfl
  | num text => rfl
  | str s => rfl

section Reading

variable (v : Option JsValue)

@[simp] theorem get_canonicalize (key : String) :
    get (v.map canonicalize) key = (get v key).map canonicalize := by
  match v with
  | some (obj members) =>
    simp only [Option.map_some, canonicalize_obj, get, find?_sortMembers, List.find?_map,
      Option.map_map]
    rfl
  | some (arr l) => simp [canonicalize_arr, get]
  | some null | some (bool _) | some (num _) | some (str _) | none => rfl

@[simp] theorem keysAre_canonicalize (keys : List String) :
    keysAre keys (v.map canonicalize) = keysAre keys v := by
  match v with
  | some (obj members) =>
    have hperm : ((sortMembers (members.map canonicalizeMember)).map (·.1)).Perm
        (members.map (·.1)) := by
      refine ((perm_sortMembers _).map _).trans ?_
      rw [List.map_map]
      exact List.Perm.refl _
    simp only [Option.map_some, canonicalize_obj, keysAre]
    rw [Bool.eq_iff_iff, List.isPerm_iff, List.isPerm_iff]
    exact ⟨fun h => hperm.symm.trans h, fun h => hperm.trans h⟩
  | some (arr l) => simp [canonicalize_arr, keysAre]
  | some null | some (bool _) | some (num _) | some (str _) | none => rfl

@[simp] theorem isObject_canonicalize : isObject (v.map canonicalize) = isObject v := by
  match v with
  | some (obj members) => simp [canonicalize_obj, isObject]
  | some (arr l) => simp [canonicalize_arr, isObject]
  | some null | some (bool _) | some (num _) | some (str _) | none => rfl

@[simp] theorem items_canonicalize :
    items (v.map canonicalize) = (items v).map (List.map canonicalize) := by
  match v with
  | some (obj members) => simp [canonicalize_obj, items]
  | some (arr l) => simp [canonicalize_arr, items]
  | some null | some (bool _) | some (num _) | some (str _) | none => rfl

@[simp] theorem asString_canonicalize : asString (v.map canonicalize) = asString v := by
  match v with
  | some (obj members) => simp [canonicalize_obj, asString]
  | some (arr l) => simp [canonicalize_arr, asString]
  | some null | some (bool _) | some (num _) | some (str _) | none => rfl

@[simp] theorem asNumber_canonicalize : asNumber (v.map canonicalize) = asNumber v := by
  match v with
  | some (obj members) => simp [canonicalize_obj, asNumber]
  | some (arr l) => simp [canonicalize_arr, asNumber]
  | some null | some (bool _) | some (num _) | some (str _) | none => rfl

end Reading

/-! ## Texts of objects -/

theorem eq_map_find? {members : List (JsString × JsValue)} (h : (members.map (·.1)).Nodup) :
    members = (members.map (·.1)).map fun k =>
      (k, ((members.find? fun m => m.1 == k).map (·.2)).getD null) := by
  rw [List.map_map]
  refine (List.map_id members).symm.trans (List.map_congr_left fun m hm => ?_)
  have hfound : members.find? (fun n => n.1 == m.1) = some m := by
    cases hfind : members.find? fun n => n.1 == m.1 with
    | none => exact absurd (List.find?_eq_none.mp hfind m hm) (by simp)
    | some n =>
      have hkey : n.1 = m.1 := by simpa using List.find?_some hfind
      exact congrArg some (List.inj_on_of_nodup_map h (List.mem_of_find?_eq_some hfind) hm hkey)
  simp [hfound]

theorem canonicalize_of_keysAre {keys : List String} {v : JsValue}
    (hsorted : (keys.map js).Pairwise fun a b => a ≤ b) (hnodup : (keys.map js).Nodup)
    (h : keysAre keys (some v) = true) :
    canonicalize v =
      obj (keys.map fun k => (js k, ((get (some v) k).map canonicalize).getD null)) := by
  cases v with
  | obj members =>
    have hperm : (members.map (·.1)).Perm (keys.map js) := List.isPerm_iff.mp h
    -- The sorted members have the keys in the order in which they are given.
    have hkeys : (sortMembers (members.map canonicalizeMember)).map (·.1) = keys.map js := by
      refine List.Perm.eq_of_pairwise (fun a b _ _ => List.le_antisymm) ?_ hsorted ?_
      · exact List.pairwise_map.mpr (pairwise_sortMembers _)
      · refine ((perm_sortMembers _).map _).trans ?_
        rw [List.map_map]
        exact hperm
    have hmembers := eq_map_find? (hkeys ▸ hnodup)
    rw [hkeys, List.map_map] at hmembers
    rw [canonicalize_obj, hmembers]
    refine congrArg obj (List.map_congr_left fun k _ => ?_)
    have hget := get_canonicalize (some (obj members)) k
    rw [Option.map_some, canonicalize_obj, get] at hget
    rw [Function.comp_apply, hget]
  | null | bool b | num t | str s | arr l => simp [keysAre] at h

theorem stringifyMembers_eq (members : List (JsString × JsValue)) :
    stringifyMembers members = members.map fun m => (m.1, stringify m.2) := by
  induction members with
  | nil => rfl
  | cons m rest ih => simp only [stringifyMembers, ih, List.map_cons]

theorem stringify_of_names {members : List (JsString × JsValue)}
    (h : ∀ m ∈ members, isArrayIndex m.1 = false) :
    stringify (obj members) =
      0x7b :: (commas (members.map fun m => memberText (m.1, stringify m.2)) ++ [0x7d]) := by
  have hnone : (stringifyMembers members).filter (fun m => isArrayIndex m.1) = [] := by
    rw [stringifyMembers_eq, List.filter_map, List.map_eq_nil_iff, List.filter_eq_nil_iff]
    exact fun m hm => by simp [h m hm]
  have hall : (stringifyMembers members).filter (fun m => !isArrayIndex m.1) =
      stringifyMembers members := by
    rw [List.filter_eq_self, stringifyMembers_eq]
    intro m hm
    obtain ⟨n, hn, rfl⟩ := List.mem_map.mp hm
    simp [h n hn]
  rw [stringify, enumerate, hnone, hall, List.insertionSort_nil, List.nil_append,
    stringifyMembers_eq, List.map_map]
  rfl

theorem toUInt16_injective : Function.Injective UInt8.toUInt16 := by
  intro a b h
  have := congrArg UInt16.toNat h
  exact UInt8.toNat_inj.mp this

end JsValue

end SharedNode.Text
