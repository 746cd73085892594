import SharedNode.Text.Json
import SharedNode.Text.JsValue

/-!
# Texts of JSON values

`IsJson` are the values that `JSON.parse` can give: the keys of an object differ, and a number has
the text of a finite number. `SameUpToOrder` reorders the keys of objects at any depth.

* `canonicalize` gives one form to values that are the same up to order, and only to them
  (`sameUpToOrder_iff`).
* A text of `JSON.stringify` has one reading up to order: a value and the value read from its text
  by another are the same, and so is what follows them (`stringify_sole`).
* The text has no surrogate alone (`isText_stringify`), so its bytes determine it.
-/

namespace SharedNode.Text.JsValue

variable {s t : JsString} {v : JsValue} {α : Type} {u : UInt16}

def isNumberByte (b : UInt8) : Bool :=
  isDigit b || b = 0x2b || b = 0x2d || b = 0x2e || b = 0x45 || b = 0x65

/-- The text of a finite number; `-0` is written as `0`. -/
def IsNumber (text : Bytes) : Prop :=
  (∃ b ∈ text.head?, isDigit b ∨ b = 0x2d) ∧ ∀ b ∈ text, isNumberByte b

inductive IsJson : JsValue → Prop where
  | null : IsJson null
  | bool (b : Bool) : IsJson (bool b)
  | num {text : Bytes} (h : IsNumber text) : IsJson (num text)
  | str (s : JsString) : IsJson (str s)
  | arr {l : List JsValue} (h : ∀ v ∈ l, IsJson v) : IsJson (arr l)
  | obj {members : List (JsString × JsValue)} (hkeys : (members.map (·.1)).Nodup)
      (h : ∀ m ∈ members, IsJson m.2) : IsJson (obj members)

/-- The values differ in the order of the keys of their objects, at any depth. -/
inductive SameUpToOrder : JsValue → JsValue → Prop where
  | refl (v : JsValue) : SameUpToOrder v v
  | trans {u v w : JsValue} (huv : SameUpToOrder u v) (hvw : SameUpToOrder v w) : SameUpToOrder u w
  | perm {members members' : List (JsString × JsValue)} (h : members.Perm members') :
      SameUpToOrder (obj members) (obj members')
  | item (front back : List JsValue) {v w : JsValue} (h : SameUpToOrder v w) :
      SameUpToOrder (arr (front ++ v :: back)) (arr (front ++ w :: back))
  | member (front back : List (JsString × JsValue)) (k : JsString) {v w : JsValue}
      (h : SameUpToOrder v w) :
      SameUpToOrder (obj (front ++ (k, v) :: back)) (obj (front ++ (k, w) :: back))

/-! ## Reordering -/

section Reordering

variable {v w : JsValue} {l l' : List JsValue} {members members' : List (JsString × JsValue)}

theorem SameUpToOrder.symm (h : SameUpToOrder v w) : SameUpToOrder w v := by
  induction h with
  | refl v => exact .refl v
  | trans _ _ huv hvw => exact .trans hvw huv
  | perm h => exact .perm h.symm
  | item front back _ ih => exact .item front back ih
  | member front back k _ ih => exact .member front back k ih

theorem sameUpToOrder_arr (h : List.Forall₂ SameUpToOrder l l') :
    SameUpToOrder (arr l) (arr l') := by
  suffices ∀ front, SameUpToOrder (arr (front ++ l)) (arr (front ++ l')) from this []
  induction h with
  | nil => exact fun front => .refl _
  | @cons v w l l' hv _ ih =>
    intro front
    have hrest := ih (front ++ [w])
    rw [List.append_assoc, List.append_assoc] at hrest
    exact .trans (.item front l hv) hrest

theorem sameUpToOrder_obj
    (h : List.Forall₂ (fun m n => m.1 = n.1 ∧ SameUpToOrder m.2 n.2) members members') :
    SameUpToOrder (obj members) (obj members') := by
  suffices ∀ front, SameUpToOrder (obj (front ++ members)) (obj (front ++ members')) from this []
  induction h with
  | nil => exact fun front => .refl _
  | @cons m n l l' hm _ ih =>
    obtain ⟨k, v⟩ := m
    obtain ⟨k', w⟩ := n
    obtain ⟨rfl, hv⟩ := hm
    intro front
    have hrest := ih (front ++ [(k, w)])
    rw [List.append_assoc, List.append_assoc] at hrest
    exact .trans (.member front l k hv) hrest

theorem sortMembers_of_perm {l l' : List (JsString × α)} (h : l.Perm l')
    (hkeys : (l.map (·.1)).Nodup) : sortMembers l = sortMembers l' := by
  refine List.Perm.eq_of_pairwise (fun a b ha hb hab hba => ?_) (pairwise_sortMembers l)
    (pairwise_sortMembers l') ((perm_sortMembers l).trans (h.trans (perm_sortMembers l').symm))
  exact List.inj_on_of_nodup_map hkeys ((perm_sortMembers l).mem_iff.mp ha)
    (h.mem_iff.mpr ((perm_sortMembers l').mem_iff.mp hb)) (List.le_antisymm hab hba)

theorem canonicalize_eq_of_same (h : SameUpToOrder v w) (hv : IsJson v) :
    canonicalize v = canonicalize w ∧ IsJson w := by
  induction h with
  | refl v => exact ⟨rfl, hv⟩
  | trans _ _ huv hvw =>
    obtain ⟨heq, hmiddle⟩ := huv hv
    exact ⟨heq.trans (hvw hmiddle).1, (hvw hmiddle).2⟩
  | @perm members members' hperm =>
    obtain _ | _ | _ | _ | _ | ⟨hkeys, hmembers⟩ := hv
    refine ⟨?_, .obj ((hperm.map _).nodup_iff.mp hkeys) fun m hm =>
      hmembers m (hperm.mem_iff.mpr hm)⟩
    rw [canonicalize_obj, canonicalize_obj, sortMembers_of_perm (hperm.map _)]
    rw [List.map_map]
    exact hkeys
  | item front back _ ih =>
    obtain _ | _ | _ | _ | hitems | _ := hv
    simp only [List.forall_mem_append, List.forall_mem_cons] at hitems
    obtain ⟨heq, hw⟩ := ih hitems.2.1
    refine ⟨?_, .arr ?_⟩
    · simp only [canonicalize_arr, List.map_append, List.map_cons, heq]
    · simp only [List.forall_mem_append, List.forall_mem_cons]
      exact ⟨hitems.1, hw, hitems.2.2⟩
  | member front back k _ ih =>
    obtain _ | _ | _ | _ | _ | ⟨hkeys, hmembers⟩ := hv
    simp only [List.forall_mem_append, List.forall_mem_cons] at hmembers
    obtain ⟨heq, hw⟩ := ih hmembers.2.1
    refine ⟨?_, .obj ?_ ?_⟩
    · simp only [canonicalize_obj, List.map_append, List.map_cons, canonicalizeMember, heq]
    · simpa only [List.map_append, List.map_cons] using hkeys
    · simp only [List.forall_mem_append, List.forall_mem_cons]
      exact ⟨hmembers.1, hw, hmembers.2.2⟩

mutual

theorem same_canonicalize : (v : JsValue) → SameUpToOrder v (canonicalize v)
  | arr l => by
    rw [canonicalize_arr]
    exact sameUpToOrder_arr (same_canonicalize_items l)
  | obj members => by
    rw [canonicalize_obj]
    exact .trans (sameUpToOrder_obj (same_canonicalize_members members))
      (.perm (perm_sortMembers _).symm)
  | null | bool _ | num _ | str _ => .refl _

theorem same_canonicalize_items : (l : List JsValue) →
    List.Forall₂ SameUpToOrder l (l.map canonicalize)
  | [] => .nil
  | v :: rest => .cons (same_canonicalize v) (same_canonicalize_items rest)

theorem same_canonicalize_members : (l : List (JsString × JsValue)) →
    List.Forall₂ (fun m n => m.1 = n.1 ∧ SameUpToOrder m.2 n.2) l (l.map canonicalizeMember)
  | [] => .nil
  | (_, v) :: rest => .cons ⟨rfl, same_canonicalize v⟩ (same_canonicalize_members rest)

end

/-- The canonical form tells whether values are the same up to order. -/
theorem sameUpToOrder_iff (hv : IsJson v) :
    SameUpToOrder v w ↔ canonicalize v = canonicalize w := by
  refine ⟨fun h => (canonicalize_eq_of_same h hv).1, fun h => ?_⟩
  have hw := (same_canonicalize w).symm
  rw [← h] at hw
  exact .trans (same_canonicalize v) hw

end Reordering

/-! ## Quoted strings -/

/-- The value of a hexadecimal digit. -/
def hexUnit (u : UInt16) : Nat := if u ≤ 0x39 then u.toNat - 0x30 else u.toNat - 0x57

def shortEscape (e : UInt16) : UInt16 :=
  if e = 0x62 then 0x08 else if e = 0x74 then 0x09 else if e = 0x6e then 0x0a
  else if e = 0x66 then 0x0c else if e = 0x72 then 0x0d else e

/-- The inside of a quoted string, and what follows the closing quote. -/
def unquote : JsString → Option (JsString × JsString)
  | 0x5c :: 0x75 :: a :: b :: c :: d :: rest =>
    let u := UInt16.ofNat (((hexUnit a * 16 + hexUnit b) * 16 + hexUnit c) * 16 + hexUnit d)
    (unquote rest).map fun r => (u :: r.1, r.2)
  | 0x5c :: e :: rest => (unquote rest).map fun r => (shortEscape e :: r.1, r.2)
  | u :: rest => if u = 0x22 then some ([], rest) else (unquote rest).map fun r => (u :: r.1, r.2)
  | [] => none

theorem unquote_raw (hquote : u ≠ 0x22) (hback : u ≠ 0x5c) (rest : JsString) :
    unquote (u :: rest) = (unquote rest).map fun r => (u :: r.1, r.2) := by
  rw [unquote.eq_3 u rest (fun _ _ _ _ _ h => absurd h hback) (fun _ _ h => absurd h hback),
    if_neg hquote]

theorem hexUnit_hexDigit (n : Nat) (h : n < 16) : hexUnit (hexDigit n).toUInt16 = n := by
  have hall : ∀ m : Fin 16, hexUnit (hexDigit m).toUInt16 = m := by decide
  exact hall ⟨n, h⟩

theorem unquote_escape (u : UInt16) (rest : JsString) :
    unquote (unitEscape u ++ rest) = (unquote rest).map fun r => (u :: r.1, r.2) := by
  have hlead : js "\\u" = [0x5c, 0x75] := by decide
  have hlt := u.toNat_lt
  have hunit : UInt16.ofNat (((u.toNat / 16 ^ 3 % 16 * 16 + u.toNat / 16 ^ 2 % 16) * 16 +
      u.toNat / 16 ^ 1 % 16) * 16 + u.toNat / 16 ^ 0 % 16) = u := by
    rw [← UInt16.toNat_inj, UInt16.toNat_ofNat']
    omega
  simp only [unitEscape, hlead, List.cons_append, List.nil_append, unquote]
  rw [hexUnit_hexDigit _ (Nat.mod_lt _ (by decide)), hexUnit_hexDigit _ (Nat.mod_lt _ (by decide)),
    hexUnit_hexDigit _ (Nat.mod_lt _ (by decide)), hexUnit_hexDigit _ (Nat.mod_lt _ (by decide)),
    hunit]

theorem unquote_quoteUnit (u : UInt16) (rest : JsString) :
    unquote (quoteUnit u ++ rest) = (unquote rest).map fun r => (u :: r.1, r.2) := by
  unfold quoteUnit
  split_ifs with h₁ h₂ h₃ h₄ h₅ h₆ h₇ h₈
  · rw [h₁]; rfl
  · rw [h₂]; rfl
  · rw [h₃]; rfl
  · rw [h₄]; rfl
  · rw [h₅]; rfl
  · rw [h₆]; rfl
  · rw [h₇]; rfl
  · exact unquote_escape u rest
  · exact unquote_raw h₁ h₂ rest

theorem unquote_quoteUnits (s rest : JsString) :
    unquote (quoteUnits s ++ 0x22 :: rest) = some (s, rest) := by
  fun_induction quoteUnits s with
  | case1 u v s hpair ih =>
    rw [Bool.and_eq_true, isHighSurrogate_iff, isLowSurrogate_iff] at hpair
    have hne : ∀ {a : UInt16} (c : UInt16), c.toNat < 0x80 → 0xd800 ≤ a.toNat → a ≠ c := by
      rintro a c hc ha rfl
      omega
    rw [List.cons_append, List.cons_append,
      unquote_raw (hne _ (by decide) (by omega)) (hne _ (by decide) (by omega)),
      unquote_raw (hne _ (by decide) (by omega)) (hne _ (by decide) (by omega)), ih]
    rfl
  | case2 u v s hpair ih =>
    rw [List.append_assoc, unquote_quoteUnit, ih]
    rfl
  | case3 u =>
    rw [unquote_quoteUnit]
    rfl
  | case4 => rfl

theorem quoteString_sole {k k' : JsString} (h : quoteString k ++ s = quoteString k' ++ t) :
    k = k' ∧ s = t := by
  simp only [quoteString, List.cons_append, List.append_assoc, List.nil_append, List.cons.injEq,
    true_and] at h
  have hread := unquote_quoteUnits k s
  rw [h, unquote_quoteUnits] at hread
  cases hread
  exact ⟨rfl, rfl⟩

/-! ## One reading of a text -/

/-- What follows does not continue a number. -/
def Ends (s : JsString) : Prop := ∀ b : UInt8, isNumberByte b → s.head? ≠ some b.toUInt16

theorem number_sole {text text' : Bytes} (h : ∀ b ∈ text, isNumberByte b)
    (h' : ∀ b ∈ text', isNumberByte b) (hs : Ends s) (ht : Ends t)
    (heq : text.map UInt8.toUInt16 ++ s = text'.map UInt8.toUInt16 ++ t) : text = text' ∧
      s = t := by
  induction text generalizing text' with
  | nil =>
    cases text' with
    | nil => exact ⟨rfl, heq⟩
    | cons b text' => exact absurd (congrArg List.head? heq) (hs b (h' b List.mem_cons_self))
  | cons b text ih =>
    cases text' with
    | nil => exact absurd (congrArg List.head? heq).symm (ht b (h b List.mem_cons_self))
    | cons b' text' =>
      obtain ⟨hb, hrest⟩ := List.cons.inj heq
      obtain ⟨rfl, hst⟩ := ih (List.forall_mem_cons.mp h).2
        (List.forall_mem_cons.mp h').2 hrest
      rw [toUInt16_injective hb]
      exact ⟨rfl, hst⟩

theorem ends_cons {c : UInt8} (hc : isNumberByte c = false) (rest : JsString) :
    Ends (c.toUInt16 :: rest) := by
  intro b hb hhead
  rw [← toUInt16_injective (Option.some.inj hhead), hc] at hb
  exact Bool.false_ne_true hb

/-- An element whose text is read in one way, up to a relation. -/
def Sole {α : Type} (text : α → JsString) (R : α → α → Prop) (P : α → Prop) (a : α) : Prop :=
  ∀ {b s t}, P b → Ends s → Ends t → text a ++ s = text b ++ t → R a b ∧ s = t

theorem commas_sole {text : α → JsString} {R : α → α → Prop} {P : α → Prop} {c : UInt8}
    (hc : isNumberByte c = false) (hne : (0x2c : UInt16) ≠ c.toUInt16)
    (hlead : ∀ a, P a → ∃ u rest, text a = u :: rest ∧ u ≠ c.toUInt16) {l l' : List α}
    (hl : ∀ a ∈ l, P a ∧ Sole text R P a) (hl' : ∀ b ∈ l', P b)
    (heq : commas (l.map text) ++ c.toUInt16 :: s = commas (l'.map text) ++ c.toUInt16 :: t) :
    List.Forall₂ R l l' ∧ s = t := by
  have hclose := ends_cons hc
  have hcomma : ∀ rest, Ends (0x2c :: rest) := ends_cons (c := 0x2c) (by decide)
  have hempty : ∀ {a rest x y}, P a → commas (text a :: rest) ++ x ≠ c.toUInt16 :: y := by
    intro a rest x y ha h
    obtain ⟨u, w, hu, hhead⟩ := hlead a ha
    rw [hu] at h
    cases rest with
    | nil => exact hhead (List.cons.inj h).1
    | cons b rest => exact hhead (List.cons.inj h).1
  induction l generalizing l' with
  | nil =>
    cases l' with
    | nil => exact ⟨.nil, (List.cons.inj heq).2⟩
    | cons b l' => exact absurd heq.symm (hempty (hl' b List.mem_cons_self))
  | cons a l ih =>
    obtain ⟨ha, hsole⟩ := hl a List.mem_cons_self
    cases l' with
    | nil => exact absurd heq (hempty ha)
    | cons b l' =>
      have hb := hl' b List.mem_cons_self
      have hrest : ∀ d ∈ l', _ := (List.forall_mem_cons.mp hl').2
      have htail := ih (List.forall_mem_cons.mp hl).2 hrest
      -- The element ends at a comma on both sides, or at the bracket on both sides.
      cases l with
      | nil =>
        cases l' with
        | nil =>
          obtain ⟨hab, hrest⟩ := hsole hb (hclose _) (hclose _) heq
          exact ⟨.cons hab .nil, (List.cons.inj hrest).2⟩
        | cons d l' =>
          simp only [List.map_cons, commas, List.append_assoc, List.cons_append] at heq
          obtain ⟨-, hrest⟩ := hsole hb (hclose _) (hcomma _) heq
          exact absurd (List.cons.inj hrest).1.symm hne
      | cons e l =>
        cases l' with
        | nil =>
          simp only [List.map_cons, commas, List.append_assoc, List.cons_append] at heq
          obtain ⟨-, hrest⟩ := hsole hb (hcomma _) (hclose _) heq
          exact absurd (List.cons.inj hrest).1 hne
        | cons d l' =>
          simp only [List.map_cons, commas, List.append_assoc, List.cons_append] at heq
          obtain ⟨hab, hrest⟩ := hsole hb (hcomma _) (hcomma _) heq
          obtain ⟨hall, hst⟩ := htail (List.cons.inj hrest).2
          exact ⟨.cons hab hall, hst⟩

def lead : JsValue → UInt16
  | null => 0x6e
  | bool b => if b then 0x74 else 0x66
  | num text => (text.headD 0).toUInt16
  | str _ => 0x22
  | arr _ => 0x5b
  | obj _ => 0x7b

theorem stringify_lead (h : IsJson v) : ∃ rest, stringify v = lead v :: rest := by
  cases h with
  | null => exact ⟨js "ull", by decide⟩
  | bool b =>
    cases b
    · exact ⟨js "alse", by decide⟩
    · exact ⟨js "rue", by decide⟩
  | @num text h =>
    obtain ⟨⟨b, hb, -⟩, -⟩ := h
    cases text with
    | nil => cases hb
    | cons c text => exact ⟨_, rfl⟩
  | str s => exact ⟨_, rfl⟩
  | arr h => exact ⟨_, rfl⟩
  | obj hkeys h => exact ⟨_, rfl⟩

theorem lead_num {text : Bytes} (h : IsNumber text) :
    0x2d ≤ (lead (num text)).toNat ∧ (lead (num text)).toNat ≤ 0x39 := by
  obtain ⟨⟨b, hb, hdigit⟩, -⟩ := h
  cases text with
  | nil => cases hb
  | cons c text =>
    cases hb
    rw [lead, List.headD_cons, UInt8.toNat_toUInt16]
    rcases hdigit with hdigit | rfl
    · simp only [isDigit, Bool.and_eq_true, decide_eq_true_eq, UInt8.le_iff_toNat_le] at hdigit
      exact ⟨Nat.le_trans (by decide) hdigit.1, hdigit.2⟩
    · decide

theorem perm_enumerate (l : List (JsString × α)) : (enumerate l).Perm l :=
  ((List.perm_insertionSort _ _).append_right _).trans (List.filter_append_perm _ l)

theorem map_enumerate {β : Type} {f : JsString × α → JsString × β} (hf : ∀ m, (f m).1 = m.1)
    (l : List (JsString × α)) : enumerate (l.map f) = (enumerate l).map f := by
  have hfilter : ∀ p : JsString → Bool,
      (l.map f).filter (fun m => p m.1) = (l.filter fun m => p m.1).map f := by
    intro p
    rw [List.filter_map]
    exact congrArg _ (List.filter_congr fun m _ => by rw [Function.comp_apply, hf])
  rw [enumerate, enumerate, hfilter isArrayIndex, hfilter fun k => !isArrayIndex k, List.map_append]
  exact congrArg (· ++ _)
    (List.map_insertionSort _ _ f _ fun a _ b _ => by rw [hf, hf]).symm

def entryText (m : JsString × JsValue) : JsString := memberText (m.1, stringify m.2)

theorem stringify_obj (members : List (JsString × JsValue)) : stringify (obj members) =
    0x7b :: (commas ((enumerate members).map entryText) ++ [0x7d]) := by
  rw [stringify, stringifyMembers_eq, map_enumerate (f := fun m => (m.1, stringify m.2))
    fun _ => rfl, List.map_map]
  rfl

theorem stringify_arr (l : List JsValue) :
    stringify (arr l) = 0x5b :: (commas (l.map stringify) ++ [0x5d]) := by
  have hitems : stringifyItems l = l.map stringify := by
    induction l with
    | nil => rfl
    | cons v rest ih => simp only [stringifyItems, ih, List.map_cons]
  rw [stringify, hitems]

def kind : JsValue → Nat
  | null => 0
  | bool _ => 1
  | num _ => 2
  | str _ => 3
  | arr _ => 4
  | obj _ => 5

/-- The kind of a value by the first unit of its text. -/
def kindOf (u : UInt16) : Nat :=
  if u = 0x6e then 0 else if u = 0x74 ∨ u = 0x66 then 1 else if u = 0x22 then 3
  else if u = 0x5b then 4 else if u = 0x7b then 5 else 2

theorem kindOf_lead (h : IsJson v) : kindOf (lead v) = kind v := by
  cases h with
  | @num text h =>
    have hrange := lead_num h
    have hne : ∀ c : UInt16, (c.toNat < 0x2d ∨ 0x39 < c.toNat) → lead (num text) ≠ c := by
      rintro c hc rfl
      omega
    rw [kindOf, if_neg (hne _ (by decide)),
      if_neg (not_or.mpr ⟨hne _ (by decide), hne _ (by decide)⟩), if_neg (hne _ (by decide)),
      if_neg (hne _ (by decide)), if_neg (hne _ (by decide))]
    rfl
  | bool b => cases b <;> rfl
  | null | str s | arr h | obj hkeys h => rfl

theorem kind_eq {w : JsValue} (hv : IsJson v) (hw : IsJson w)
    (h : stringify v ++ s = stringify w ++ t) : kind v = kind w := by
  obtain ⟨x, hx⟩ := stringify_lead hv
  obtain ⟨y, hy⟩ := stringify_lead hw
  rw [hx, hy] at h
  rw [← kindOf_lead hv, ← kindOf_lead hw, (List.cons.inj h).1]

theorem lead_ne_bracket (h : IsJson v) : lead v ≠ 0x5d := by
  cases h with
  | num h =>
    intro heq
    have hrange := lead_num h
    rw [heq] at hrange
    exact absurd hrange (by decide)
  | bool b => cases b <;> decide
  | null | str s | arr h | obj hkeys h => simp [lead]

/-- **The text of a value has one reading, up to the order of keys.** -/
theorem stringify_sole (hv : IsJson v) : Sole stringify SameUpToOrder IsJson v := by
  induction hv with
  | null =>
    intro w s t hw _ _ heq
    have hkind := kind_eq .null hw heq
    cases hw with
    | null => exact ⟨.refl _, List.append_cancel_left heq⟩
    | _ => nomatch hkind
  | bool b =>
    intro w s t hw _ _ heq
    have hkind := kind_eq (.bool b) hw heq
    cases hw with
    | bool b' =>
      have hlead : ∀ b b' : Bool, lead (bool b) = lead (bool b') → b = b' := by decide
      obtain rfl : b = b' := by
        obtain ⟨x, hx⟩ := stringify_lead (.bool b)
        obtain ⟨y, hy⟩ := stringify_lead (.bool b')
        rw [hx, hy] at heq
        exact hlead b b' (List.cons.inj heq).1
      exact ⟨.refl _, List.append_cancel_left heq⟩
    | _ => nomatch hkind
  | num hnum =>
    intro w s t hw hs ht heq
    have hkind := kind_eq (.num hnum) hw heq
    cases hw with
    | num hnum' =>
      obtain ⟨rfl, hst⟩ := number_sole hnum.2 hnum'.2 hs ht heq
      exact ⟨.refl _, hst⟩
    | _ => nomatch hkind
  | str x =>
    intro w s t hw _ _ heq
    have hkind := kind_eq (.str x) hw heq
    cases hw with
    | str y =>
      obtain ⟨rfl, hst⟩ := quoteString_sole heq
      exact ⟨.refl _, hst⟩
    | _ => nomatch hkind
  | arr hitems ih =>
    intro w s t hw _ _ heq
    have hkind := kind_eq (.arr hitems) hw heq
    cases hw with
    | arr hitems' =>
      rw [stringify_arr, stringify_arr] at heq
      simp only [List.cons_append, List.append_assoc, List.nil_append, List.cons.injEq,
        true_and] at heq
      have hlead : ∀ a, IsJson a → ∃ u rest, stringify a = u :: rest ∧ u ≠ 0x5d := fun a ha =>
        (stringify_lead ha).elim fun rest hrest => ⟨_, rest, hrest, lead_ne_bracket ha⟩
      obtain ⟨hall, hst⟩ := commas_sole (c := 0x5d) (by decide) (by decide) hlead
        (fun a ha => ⟨hitems a ha, ih a ha⟩) hitems' heq
      exact ⟨sameUpToOrder_arr hall, hst⟩
    | _ => nomatch hkind
  | @obj members hkeys hmembers ih =>
    intro w s t hw _ _ heq
    have hkind := kind_eq (.obj hkeys hmembers) hw heq
    cases hw with
    | @obj members' hkeys' hmembers' =>
      rw [stringify_obj, stringify_obj] at heq
      simp only [List.cons_append, List.append_assoc, List.nil_append, List.cons.injEq,
        true_and] at heq
      have hlead : ∀ m : JsString × JsValue, IsJson m.2 → ∃ u rest,
          entryText m = u :: rest ∧ u ≠ 0x7d := fun m _ => ⟨0x22, _, rfl, by decide⟩
      have hsole : ∀ m ∈ members, Sole entryText (fun m n => m.1 = n.1 ∧ SameUpToOrder m.2 n.2)
          (fun m => IsJson m.2) m := by
        intro m hm n s t hn hs ht hmn
        simp only [entryText, memberText, List.append_assoc, List.cons_append] at hmn
        obtain ⟨hkey, hmn⟩ := quoteString_sole hmn
        obtain ⟨hsame, hst⟩ := ih m hm hn hs ht (List.cons.inj hmn).2
        exact ⟨⟨hkey, hsame⟩, hst⟩
      -- The texts list the members in another order than they were inserted.
      have hmem := fun m => (perm_enumerate members).mem_iff (a := m)
      obtain ⟨hall, hst⟩ := commas_sole (c := 0x7d) (by decide) (by decide) hlead
        (fun m hm => ⟨hmembers m ((hmem m).mp hm), hsole m ((hmem m).mp hm)⟩)
        (fun m hm => hmembers' m ((perm_enumerate members').mem_iff.mp hm)) heq
      exact ⟨.trans (.perm (perm_enumerate members).symm)
        (.trans (sameUpToOrder_obj hall) (.perm (perm_enumerate members'))), hst⟩
    | _ => nomatch hkind

/-! ## The bytes of a text -/

theorem isText_unit (hhigh : isHighSurrogate u = false) (hlow : isLowSurrogate u = false) :
    IsText [u] := by
  have hlt := u.toNat_lt
  rw [Bool.eq_false_iff, ne_eq, isHighSurrogate_iff] at hhigh
  rw [Bool.eq_false_iff, ne_eq, isLowSurrogate_iff] at hlow
  have hchar : (Char.ofNat u.toNat).toNat = u.toNat := by
    rw [Char.ofNat, dif_pos (show Nat.isValidChar _ by unfold Nat.isValidChar; omega)]
    rfl
  refine ⟨[Char.ofNat u.toNat], ?_⟩
  simp only [List.flatMap_cons, List.flatMap_nil, List.append_nil, utf16, hchar]
  rw [if_pos (by omega), UInt16.ofNat_toNat]

theorem isText_pair {v : UInt16} (hhigh : isHighSurrogate u = true) (hlow : isLowSurrogate v = true)
    : IsText [u, v] := by
  rw [isHighSurrogate_iff] at hhigh
  rw [isLowSurrogate_iff] at hlow
  have hchar : (pairScalar u v).toNat =
      0x10000 + (u.toNat - 0xd800) * 0x400 + (v.toNat - 0xdc00) := by
    rw [pairScalar, Char.ofNat, dif_pos (show Nat.isValidChar _ by unfold Nat.isValidChar; omega)]
    rfl
  refine ⟨[pairScalar u v], ?_⟩
  simp only [List.flatMap_cons, List.flatMap_nil, List.append_nil, utf16, hchar]
  rw [if_neg (by omega), List.cons.injEq, List.cons.injEq, ← UInt16.toNat_inj, ← UInt16.toNat_inj,
    UInt16.toNat_ofNat', UInt16.toNat_ofNat']
  exact ⟨by omega, by omega, rfl⟩

theorem isText_js (s : String) : IsText (js s) := ⟨s.toList, rfl⟩

theorem isText_quoteUnit (u : UInt16) : IsText (quoteUnit u) := by
  unfold quoteUnit
  split_ifs with h₁ h₂ h₃ h₄ h₅ h₆ h₇ h₈
  iterate 7 exact isText_js _
  · have hdigits : unitEscape u = js "\\u" ++ ([3, 2, 1, 0].map fun n =>
        hexDigit (u.toNat / 16 ^ n % 16)).map UInt8.toUInt16 := rfl
    rw [hdigits]
    refine isText_append (isText_js _) (isText_ascii fun b hb => ?_)
    obtain ⟨n, -, rfl⟩ := List.mem_map.mp hb
    exact hexDigit_ascii _ (Nat.mod_lt _ (by decide))
  · simp only [Bool.or_eq_true, not_or, Bool.not_eq_true] at h₈
    exact isText_unit h₈.1.2 h₈.2

theorem isText_quoteString (s : JsString) : IsText (quoteString s) := by
  have hinside : IsText (quoteUnits s) := by
    fun_induction quoteUnits s with
    | case1 u v s hpair ih =>
      rw [Bool.and_eq_true] at hpair
      exact isText_append (isText_pair hpair.1 hpair.2) ih
    | case2 u v s hpair ih => exact isText_append (isText_quoteUnit u) ih
    | case3 u => exact isText_quoteUnit u
    | case4 => exact ⟨[], rfl⟩
  exact isText_append (isText_js "\"") (isText_append hinside (isText_js "\""))

theorem isText_commas {l : List JsString} (h : ∀ s ∈ l, IsText s) : IsText (commas l) := by
  fun_induction commas l with
  | case1 => exact ⟨[], rfl⟩
  | case2 s => exact h s List.mem_cons_self
  | case3 s t rest ih =>
    exact isText_append (h s List.mem_cons_self) (isText_append (isText_js ",")
      (ih (List.forall_mem_cons.mp h).2))

theorem isText_stringify (h : IsJson v) : IsText (stringify v) := by
  induction h with
  | null => exact isText_js _
  | bool b => cases b <;> exact isText_js _
  | num h =>
    have hascii : ∀ b : UInt8, isNumberByte b = true → b < 0x80 := by
      intro b hb
      simp only [isNumberByte, isDigit, Bool.or_eq_true, Bool.and_eq_true, decide_eq_true_eq] at hb
      grind
    exact isText_ascii fun b hb => hascii b (h.2 b hb)
  | str s => exact isText_quoteString s
  | arr _ ih =>
    rw [stringify_arr]
    refine isText_append (isText_js "[") (isText_append (isText_commas fun s hs => ?_)
      (isText_js "]"))
    obtain ⟨v, hv, rfl⟩ := List.mem_map.mp hs
    exact ih v hv
  | @obj members _ _ ih =>
    rw [stringify_obj]
    refine isText_append (isText_js "\x7b") (isText_append (isText_commas fun s hs => ?_)
      (isText_js "\x7d"))
    obtain ⟨m, hm, rfl⟩ := List.mem_map.mp hs
    exact isText_append (isText_quoteString m.1) (isText_append (isText_js ":")
      (ih m ((perm_enumerate members).mem_iff.mp hm)))

/-- The bytes of a text determine its value up to the order of keys. -/
theorem same_of_encode {w : JsValue} (hv : IsJson v) (hw : IsJson w)
    (h : encode (stringify v) = encode (stringify w)) : SameUpToOrder v w := by
  have htext := encode_injective (isText_stringify hv) (isText_stringify hw) h
  have hend : Ends [] := fun b _ => nofun
  exact (stringify_sole hv hw hend hend (congrArg (· ++ []) htext)).1

/-! ## Reading a text -/

/-- The units of a string in a document. -/
def unitsOf (s : Bytes) : JsString := (runes s).flatMap fun r => utf16 (r.toChar.getD replacement)

/-- Sets a property. A name that is there keeps its place. -/
def setMember (members : List (JsString × JsValue)) (k : JsString) (v : JsValue) :
    List (JsString × JsValue) :=
  if members.any fun m => m.1 = k then members.map fun m => if m.1 = k then (k, v) else m
  else members ++ [(k, v)]

mutual

def ofJson : Json → JsValue
  | .null => null
  | .bool b => bool b
  | .num literal => num (((parseInt literal).map formatInt).getD literal)
  | .str s => str (unitsOf s)
  | .arr l => arr (ofItems l)
  | .obj members => obj (ofMembers members [])

def ofItems : List Json → List JsValue
  | [] => []
  | v :: rest => ofJson v :: ofItems rest

def ofMembers : List (Bytes × Json) → List (JsString × JsValue) → List (JsString × JsValue)
  | [], members => members
  | (k, v) :: rest, members => ofMembers rest (setMember members (unitsOf k) (ofJson v))

end

/-- `JSON.parse` of decoded bytes, for documents whose numbers are safe integers and that have no
escape of a surrogate alone. -/
def parseJson (bytes : Bytes) : Option JsValue :=
  (decode bytes).bind fun text => (parse (encode text)).map ofJson

theorem encode_unitsOf (s : Bytes) : encode (unitsOf s) = sanitize s := by
  have hunits : unitsOf s = ((runes s).map fun r => r.toChar.getD replacement).flatMap utf16 := by
    rw [unitsOf, List.flatMap_map]
  rw [hunits, encode, scalars_flatMap_utf16, List.flatMap_map, sanitize]
  refine List.flatMap_congr fun r _ => ?_
  cases r <;> rfl

theorem encode_js (s : String) : encode (js s) = lit s := by
  rw [encode, js, scalars_flatMap_utf16]
  show _ = s.toByteArray.data.toList
  rw [← String.utf8Encode_toList]
  simp [List.utf8Encode]

theorem js_injective {s t : String} (h : js s = js t) : s = t := by
  refine lit_injective ?_
  rw [← encode_js, ← encode_js, h]

theorem get_object (members : List (String × JsValue)) (key : String) :
    get (some (object members)) key = (members.find? fun m => m.1 == key).map (·.2) := by
  have hname : ∀ m : String × JsValue, (js m.1 == js key) = (m.1 == key) := fun m => by
    rw [Bool.eq_iff_iff, beq_iff_eq, beq_iff_eq]
    exact ⟨js_injective, congrArg js⟩
  rw [object, get, List.find?_map, Option.map_map]
  simp only [Function.comp_def, hname]

theorem unitsOf_lit (s : String) : unitsOf (lit s) = js s := by
  have htext : IsText (unitsOf (lit s)) :=
    ⟨(runes (lit s)).map fun r => r.toChar.getD replacement, by
    rw [unitsOf, List.flatMap_map]⟩
  refine encode_injective htext (isText_js s) ?_
  rw [encode_unitsOf, sanitize_of_valid (valid_lit s), encode_js]

/-- An object whose names differ is read as it stands. -/
theorem ofJson_object {members : List (String × Json)} (keys : List String)
    (hkeys : members.map (·.1) = keys) (h : (keys.map js).Nodup) :
    ofJson (.object members) = object (members.map fun m => (m.1, ofJson m.2)) := by
  rw [← hkeys, List.map_map] at h
  suffices hinto : ∀ before : List (JsString × JsValue),
      (before.map (·.1) ++ members.map fun m => js m.1).Nodup →
        ofMembers (members.map fun m => (lit m.1, m.2)) before =
          before ++ members.map fun m => (js m.1, ofJson m.2) by
    rw [Json.object, ofJson, hinto [] h, object, List.map_map]
    rfl
  clear h hkeys
  intro before h
  induction members generalizing before with
  | nil => simp [ofMembers]
  | cons m rest ih =>
    have hfresh : (before.any fun n => n.1 = js m.1) = false := by
      rw [List.any_eq_false]
      intro n hn heq
      have hdisjoint := (List.nodup_append.mp h).2.2
      exact hdisjoint n.1 (List.mem_map_of_mem hn) (js m.1) (by simp) (of_decide_eq_true heq)
    rw [List.map_cons, ofMembers, unitsOf_lit, setMember, if_neg (by simp [hfresh]), ih]
    · simp
    · simpa using h

/-- A string whose text passes a check. -/
def isText (p : Bytes → Bool) (v : Option JsValue) : Bool := (asString v).any fun s => p (encode s)

def bytesOf (v : Option JsValue) : Bytes := encode ((asString v).getD [])

/-- A number that is a safe integer. -/
def safeInteger (v : Option JsValue) : Option Int :=
  (asNumber v).bind fun t =>
    (parseInt t).filter fun n => decide (formatInt n = t) && isSafeInteger n

end SharedNode.Text.JsValue
