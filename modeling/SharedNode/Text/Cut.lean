import SharedNode.Text.Json
import SharedNode.Text.Utf16

/-!
# Texts that are cut off

The text of a string ends at its quote and nowhere before it: a reader makes nothing of a part of
the text that stops earlier (`Breaks`), in an escape or between the bytes of a character
(`readString_cut`). So the text of an object of strings, cut off anywhere before its closing brace,
is no JSON text (`parse_cut`).
-/

namespace SharedNode.Text

variable {s p q e : Bytes}

/-! ## Strings -/

theorem high_of_cut {c : Char} (h : encodeChar c = p ++ q) (hp : p ≠ []) (hq : q ≠ []) :
    ∀ b ∈ p, 0x80 ≤ b := by
  by_cases hc : 0x80 ≤ c.toNat
  · intro b hb
    have hwide : Wide c 2 := wide_of_le hc (by decide) fun _ => Nat.le_refl 2
    exact hwide.high b (h ▸ List.mem_append_left q hb)
  · have hlen : (encodeChar c).length = 1 := by
      simp only [encodeChar, String.utf8EncodeChar]
      rw [if_pos (show c.val.toNat ≤ 0x7f by have : c.val.toNat = c.toNat := rfl; omega)]
      rfl
    have hp' := List.length_pos_of_ne_nil hp
    have hq' := List.length_pos_of_ne_nil hq
    rw [h, List.length_append] at hlen
    omega

theorem readString_nil (n : Nat) : readString n [] = none := by cases n <;> rfl

theorem readString_high (h : ∀ b ∈ s, 0x80 ≤ b) (n : Nat) : readString n s = none := by
  induction s using runeInduction generalizing n with
  | nil => exact readString_nil n
  | char c s ih =>
    cases n with
    | zero => rfl
    | succ n =>
      have hne : ∀ a : Char, (∃ b < 0x80, encodeChar a = [b]) → c ≠ a := by
        rintro _ ⟨b, hb, ha⟩ rfl
        exact absurd (h b (by simp [ha])) (UInt8.not_le.mpr hb)
      have hquote := hne '"' ⟨0x22, by decide, rfl⟩
      have hback := hne '\\' ⟨0x5c, by decide, rfl⟩
      simp [readString, decodeRune_encode, hquote, hback,
        ih (List.forall_mem_append.mp h).2]
  | invalid b s hb ih =>
    cases n with
    | zero => rfl
    | succ n =>
      simp [readString, decodeRune, hb, ih (List.forall_mem_cons.mp h).2]

theorem readString_backslash_cut (he : e.length = 1 ∨ ∃ u, e = 0x75 :: u ∧ u.length = 4)
    (h : 0x5c :: e = p ++ q) (hq : q ≠ []) (n : Nat) : readString n p = none := by
  have hlen := List.length_pos_of_ne_nil hq
  cases p with
  | nil => exact readString_nil n
  | cons b t =>
    rw [List.cons_append, List.cons.injEq] at h
    obtain ⟨rfl, rfl⟩ := h
    have hnone : readEscape t = none := by
      cases t with
      | nil => rfl
      | cons c t =>
        rcases he with he | ⟨u, hu, hfour⟩
        · simp only [List.length_append, List.length_cons] at he
          omega
        · rw [List.cons_append, List.cons.injEq] at hu
          obtain ⟨rfl, rfl⟩ := hu
          match t, hfour with
          | [], _ | [_], _ | [_, _], _ | [_, _, _], _ => rfl
          | _ :: _ :: _ :: _ :: t, hfour =>
            simp only [List.length_append, List.length_cons] at hfour
            omega
    cases n with
    | zero => rfl
    | succ n => simp [readString, decodeRune_backslash, hnone]

theorem readString_escape_cut {r : Rune} (h : escape r = p ++ q) (hq : q ≠ []) (n : Nat) :
    readString n p = none := by
  cases r with
  | invalid b => exact readString_backslash_cut (.inr ⟨_, rfl, rfl⟩) h hq n
  | char c =>
    simp only [escape] at h
    split at h
    next hc =>
      simp only [Bool.or_eq_true, beq_iff_eq] at hc
      rcases hc with rfl | rfl <;> exact readString_backslash_cut (.inl rfl) h hq n
    iterate 5 (split at h; · exact readString_backslash_cut (.inl rfl) h hq n)
    split at h
    · exact readString_backslash_cut (.inr ⟨_, rfl, rfl⟩) h hq n
    · by_cases hp : p = []
      · rw [hp]
        exact readString_nil n
      · exact readString_high (high_of_cut h hp hq) n

theorem readString_cut (h : p <+: quoteBody s) (n : Nat) : readString n p = none := by
  unfold quoteBody at h
  generalize runes s = l at h
  induction l generalizing p n with
  | nil =>
    obtain rfl := List.prefix_nil.mp h
    exact readString_nil n
  | cons r l ih =>
    obtain ⟨q, hq⟩ := h
    have hwhole {u : Bytes} (hu : u <+: l.flatMap escape) :
        readString n (escape r ++ u) = none := by
      cases n with
      | zero => rfl
      | succ n => rw [readString_escape, ih n hu, Option.map_none]
    rcases List.append_eq_append_iff.mp hq with ⟨u, hu, -⟩ | ⟨u, rfl, hrest⟩
    · by_cases hnil : u = []
      · rw [hnil, List.append_nil] at hu
        rw [← hu, ← List.append_nil (escape r)]
        exact hwhole List.nil_prefix
      · exact readString_escape_cut hu hnil n
    · exact hwhole ⟨q, hrest.symm⟩

/-! ## Objects -/

/-- The reader makes nothing of a part of the text. -/
def Breaks {α : Type} (item : Bytes → Option (α × Bytes)) (text : Bytes) : Prop :=
  ∀ {p q}, text = p ++ q → q ≠ [] → item p = none

theorem prefix_of_append_singleton {b : UInt8} (h : s ++ [b] = p ++ q) (hq : q ≠ []) : p <+: s := by
  obtain ⟨q, c, rfl⟩ := List.eq_nil_or_concat q |>.resolve_left hq
  rw [List.concat_eq_append, ← List.append_assoc] at h
  exact ⟨q, (List.append_inj' h rfl).1.symm⟩

theorem breaks_quote (d : Nat) (s : Bytes) : Breaks (readValue d) (quote s) := by
  intro p q h hq
  cases d with
  | zero => rfl
  | succ d =>
    cases p with
    | nil => rfl
    | cons b p =>
      rw [quote, List.cons_append, List.cons.injEq] at h
      obtain ⟨rfl, h⟩ := h
      rw [readValue, skipSpace_cons (by decide)]
      simp only [readString_cut (prefix_of_append_singleton h hq), Option.map_none]

theorem breaks_member {d : Nat} (name value : Bytes) :
    Breaks (readMember (readValue d)) (quote name ++ 0x3a :: quote value) := by
  intro p q h hq
  cases p with
  | nil => rfl
  | cons b p =>
    rw [quote_append, List.cons_append, List.cons.injEq] at h
    obtain ⟨rfl, h⟩ := h
    rw [readMember, skipSpace_cons (by decide)]
    by_cases hname : p <+: quoteBody name
    · simp only [readString_cut hname, Option.bind_none]
    · rcases List.append_eq_append_iff.mp h with ⟨u, rfl, hu⟩ | ⟨u, hu, -⟩
      · cases u with
        | nil => exact absurd ⟨[], by simp⟩ hname
        | cons b u =>
          rw [List.cons_append, List.cons.injEq] at hu
          obtain ⟨rfl, hu⟩ := hu
          simp only [readString_quote, Option.bind_some]
          cases u with
          | nil => rfl
          | cons b u =>
            rw [List.cons_append, List.cons.injEq] at hu
            obtain ⟨rfl, hu⟩ := hu
            simp only [skipSpace_cons (b := 0x3a) (by decide), breaks_quote d value hu hq,
              Option.map_none]
      · exact absurd ⟨u, hu.symm⟩ hname

theorem readItems_cut {α γ : Type} {item : Bytes → Option (α × Bytes)} {close : UInt8}
    {text : γ → Bytes} {val : γ → α} {l : List γ}
    (h : ∀ x ∈ l, ReadsAs item (text x) (val x) ∧ Breaks item (text x)) (hne : l ≠ [])
    (heq : commaSeparated (l.map text) ++ [close] = p ++ q) (hq : q ≠ []) (n : Nat) :
    readItems item close n p = none := by
  induction n generalizing l p with
  | zero => rfl
  | succ n ih =>
    cases l with
    | nil => exact absurd rfl hne
    | cons x xs =>
      obtain ⟨hreads, hbreaks⟩ := h x List.mem_cons_self
      -- The cut is within the first item or right after it.
      have hfirst (hp : p <+: text x) : readItems item close (n + 1) p = none := by
        obtain ⟨u, hu⟩ := hp
        by_cases hnil : u = []
        · have hitem := hreads [] trivial
          rw [List.append_nil, ← hu, hnil, List.append_nil] at hitem
          simp only [readItems, hitem, Option.bind_some, skipSpace]
        · simp only [readItems, hbreaks hu.symm hnil, Option.bind_none]
      cases xs with
      | nil => exact hfirst (prefix_of_append_singleton heq hq)
      | cons y ys =>
        rw [List.map_cons, List.map_cons, commaSeparated_cons_cons, ← List.map_cons,
          List.append_assoc, List.cons_append] at heq
        rcases List.append_eq_append_iff.mp heq with ⟨u, rfl, hu⟩ | ⟨u, hu, -⟩
        · cases u with
          | nil => exact hfirst ⟨[], by simp⟩
          | cons b u =>
            rw [List.cons_append, List.cons.injEq] at hu
            obtain ⟨rfl, hu⟩ := hu
            have hrest := ih (fun z hz => h z (List.mem_cons_of_mem x hz)) (by simp) hu
            have hitem := hreads (0x2c :: u) (Or.inl rfl)
            simp only [readItems, hitem, Option.bind_some,
              skipSpace_cons (b := 0x2c) (by decide), beq_self_eq_true, if_true, hrest,
              Option.map_none]
        · exact hfirst ⟨u, hu.symm⟩

theorem parse_cut {members : List (Bytes × Bytes)}
    (h : renderObject (members.map fun m => (m.1, quote m.2)) = p ++ q) (hq : q ≠ []) :
    parse p = none := by
  have hnone : readValue (maxNestingDepth + 1) p = none := by
    cases p with
    | nil => rfl
    | cons b p =>
      rw [renderObject, List.map_map, List.cons_append, List.cons.injEq] at h
      obtain ⟨rfl, h⟩ := h
      rw [readValue, skipSpace_cons (by decide)]
      have hmember (m : Bytes × Bytes) : ReadsAs _ (quote m.1 ++ _) (sanitize m.1, _) :=
        readMember_quote (denotes_quote 9999 m.2)
      have hlist : readList (readMember (readValue maxNestingDepth)) 0x7d p = none := by
        cases p with
        | nil => rfl
        | cons b p =>
          cases members with
          | nil => exact absurd (List.append_eq_nil_iff.mp (List.cons.inj h).2.symm).2 hq
          | cons m members =>
            obtain rfl : 0x22 = b := by cases members <;> exact (List.cons.inj h).1
            exact readItems_cut (fun m _ => ⟨hmember m, breaks_member m.1 m.2⟩) (by simp) h hq _
      simp only [hlist, Option.map_none]
  rw [parse, hnone]

theorem parse_object_append (members : List (Bytes × Bytes)) {space : Bytes}
    (hspace : skipSpace space = []) :
    parse (renderObject (members.map fun m => (m.1, quote m.2)) ++ space) =
      some (.obj (members.map fun m => (sanitize m.1, .str (sanitize m.2)))) := by
  have hdenotes : ∀ m ∈ members.map (fun m => (m.1, quote m.2, Json.str (sanitize m.2))),
      Denotes maxNestingDepth m.2.1 m.2.2 :=
    List.forall_mem_map.mpr fun m _ => denotes_quote 9999 m.2
  have hread := readValue_renderObject _ hdenotes space
  simp only [List.map_map, Function.comp_def] at hread
  rw [parse, hread]
  simp [hspace]

end SharedNode.Text
