import SharedNode.Compiler.Catalog

/-!
# Canonical documents

Three scripts have a `canonicalize` of their own: `toolchain-catalog.mjs`,
`verified-jre-registry.mjs` and `materialize_verified_jre.mjs`. They differ in the values they
refuse, none of which a JSON document has. On the values of documents they write one text, which is
the same for two values exactly if they are the same up to the order of keys
(`canonical_serialisation`). So the revision of a catalog binds all of it but the field
`catalogRevision` itself, as long as SHA-256 tells the two texts apart.
-/

namespace SharedNode.Compiler.Canonical

open Text JsValue Catalog

mutual

/-- A `canonicalize` that checks what is neither an array nor an object; `none` where it throws. -/
def canonicalizeWith (check : JsValue → Bool) : JsValue → Option JsValue
  | .arr items => (canonicalizeItemsWith check items).map .arr
  | .obj members => (canonicalizeMembersWith check members).map fun ms => .obj (sortMembers ms)
  | v => if check v then some v else none

def canonicalizeItemsWith (check : JsValue → Bool) : List JsValue → Option (List JsValue)
  | [] => some []
  | v :: rest => do return (← canonicalizeWith check v) :: (← canonicalizeItemsWith check rest)

def canonicalizeMembersWith (check : JsValue → Bool) :
    List (JsString × JsValue) → Option (List (JsString × JsValue))
  | [] => some []
  | (k, v) :: rest => do
    return (k, ← canonicalizeWith check v) :: (← canonicalizeMembersWith check rest)

end

/-- `canonicalize` of `toolchain-catalog.mjs`, which refuses numbers that are not finite. -/
def Toolchain.canonicalize : JsValue → Option JsValue :=
  canonicalizeWith fun
    | .num text => !(List.contains [lit "NaN", lit "Infinity", lit "-Infinity"] text)
    | _ => true

/-- `canonicalize` of `verified-jre-registry.mjs`. -/
def Registry.canonicalize : JsValue → Option JsValue := canonicalizeWith fun _ => true

/-- `canonicalize` of `materialize_verified_jre.mjs`. -/
def Materializer.canonicalize : JsValue → Option JsValue := canonicalizeWith fun _ => true

/-- A check that no value of a document fails leaves the canonical form. -/
theorem canonicalizeWith_eq {check : JsValue → Bool} (hcheck : ∀ v, IsJson v → check v = true)
    {v : JsValue} (h : IsJson v) : canonicalizeWith check v = some (canonicalize v) := by
  induction h with
  | null => exact if_pos (hcheck _ .null)
  | bool b => exact if_pos (hcheck _ (.bool b))
  | num h => exact if_pos (hcheck _ (.num h))
  | str s => exact if_pos (hcheck _ (.str s))
  | @arr l _ ih =>
    have hitems : canonicalizeItemsWith check l = some (l.map canonicalize) := by
      clear * - ih
      induction l with
      | nil => rfl
      | cons v rest ihl =>
        rw [List.forall_mem_cons] at ih
        simp only [canonicalizeItemsWith, ih.1, ihl ih.2]
        rfl
    rw [canonicalizeWith, hitems, canonicalize_arr]
    rfl
  | @obj members _ _ ih =>
    have hmembers : canonicalizeMembersWith check members =
        some (members.map canonicalizeMember) := by
      clear * - ih
      induction members with
      | nil => rfl
      | cons m rest ihl =>
        rw [List.forall_mem_cons] at ih
        simp only [canonicalizeMembersWith, ih.1, ihl ih.2]
        rfl
    rw [canonicalizeWith, hmembers, canonicalize_obj]
    rfl

theorem isJson_spread {key : String} {s : JsString} {v : JsValue} (h : IsJson v) :
    IsJson (spread key (.str s) v) := by
  cases h with
  | @obj members hkeys hmembers =>
    refine .obj ?_ fun m hm => ?_
    · rw [List.map_map]
      convert hkeys using 2
      funext m
      simp only [Function.comp_apply]
      split <;> rfl
    · obtain ⟨n, hn, rfl⟩ := List.mem_map.mp hm
      split
      · exact .str s
      · exact hmembers n hn
  | null => exact .null
  | bool b => exact .bool b
  | num h => exact .num h
  | str s => exact .str s
  | arr h => exact .arr h

/-- A catalog with zeros for its revision. -/
def unrevised (document : JsValue) : JsValue := spread "catalogRevision" (.str zeroSHA256) document

/-- **On the values of documents the three functions write one text. It does not change if keys are
reordered or if it is written again, values with one text are the same up to the order of keys, and
catalogs with one revision are the same but for that order and the field of the revision.** -/
theorem canonical_serialisation {v w : JsValue} (hv : IsJson v) (hw : IsJson w) :
    (Toolchain.canonicalize v).map stringify = some (stringify (canonicalize v)) ∧
      (Registry.canonicalize v).map stringify = some (stringify (canonicalize v)) ∧
      (Materializer.canonicalize v).map stringify = some (stringify (canonicalize v)) ∧
      stringify (canonicalize (canonicalize v)) = stringify (canonicalize v) ∧
      (stringify (canonicalize v) = stringify (canonicalize w) ↔ SameUpToOrder v w) ∧
      ((get (some v) "catalogRevision").isSome → (get (some w) "catalogRevision").isSome →
        (sha256 (canonicalJsonBytes (unrevised v)) = sha256 (canonicalJsonBytes (unrevised w)) →
          canonicalJsonBytes (unrevised v) = canonicalJsonBytes (unrevised w)) →
        (catalogRevisionFor v = catalogRevisionFor w ↔
          SameUpToOrder (unrevised v) (unrevised w))) := by
  have hjson : ∀ {u : JsValue}, IsJson u → IsJson (canonicalize u) := fun h =>
    (canonicalize_eq_of_same (same_canonicalize _) h).2
  have htext : ∀ {a b : JsValue}, IsJson a → IsJson b →
      (canonicalJsonBytes a = canonicalJsonBytes b ↔ SameUpToOrder a b) := by
    intro a b ha hb
    rw [sameUpToOrder_iff ha]
    refine ⟨fun h => ?_, fun h => by rw [canonicalJsonBytes, canonicalJsonBytes, h]⟩
    rw [← canonicalize_idem a, ← canonicalize_idem b]
    exact (sameUpToOrder_iff (hjson ha)).mp (same_of_encode (hjson ha) (hjson hb) h)
  refine ⟨?_, ?_, ?_, by rw [canonicalize_idem], ?_, fun _ _ hsha => ?_⟩
  · rw [Toolchain.canonicalize, canonicalizeWith_eq (fun u hu => ?_) hv]
    · rfl
    · cases hu with
      | num h =>
        have hbyte : ∀ b ∈ ([0x4e, 0x49] : Bytes),
          ¬ isNumberByte b := by simp [isNumberByte, isDigit]
        rw [Bool.not_eq_true', Bool.eq_false_iff, Ne, List.contains_iff_mem]
        rintro (_ | ⟨_, _ | ⟨_, _ | ⟨_, ⟨⟩⟩⟩⟩)
        · exact hbyte 0x4e (by decide) (h.2 _ (by decide))
        · exact hbyte 0x49 (by decide) (h.2 _ (by decide))
        · exact hbyte 0x49 (by decide) (h.2 _ (by decide))
      | _ => rfl
  · rw [Registry.canonicalize, canonicalizeWith_eq (fun _ _ => rfl) hv]
    rfl
  · rw [Materializer.canonicalize, canonicalizeWith_eq (fun _ _ => rfl) hv]
    rfl
  · exact ⟨fun h => (htext hv hw).mp (congrArg encode h),
      fun h => congrArg stringify ((sameUpToOrder_iff hv).mp h)⟩
  · have hunrevised : ∀ {u}, IsJson u → IsJson (unrevised u) := isJson_spread
    rw [← htext (hunrevised hv) (hunrevised hw)]
    refine ⟨fun h => hsha (List.map_injective_iff.mpr toUInt16_injective h), fun h => ?_⟩
    exact congrArg digest h

def twoFields (revision : JsString) : List (JsString × JsValue) :=
  [(js "b", .bool true), (js "catalogRevision", .str revision)]

theorem canonical_serialisation_sample : catalogRevisionFor (.obj (twoFields (js "x"))) =
      catalogRevisionFor (.obj (twoFields (js "y")).reverse) := by
  have hvalues : ∀ r, ∀ m ∈ twoFields r, IsJson m.2 := by
    simp only [twoFields, List.forall_mem_cons]
    exact fun r => ⟨.bool true, .str r, nofun⟩
  have hkeys : ∀ r, ((twoFields r).map (·.1)).Nodup := fun r =>
    (by decide : [js "b", js "catalogRevision"].Nodup)
  have hv : IsJson (.obj (twoFields (js "x"))) := .obj (hkeys _) (hvalues _)
  have hw : IsJson (.obj (twoFields (js "y")).reverse) :=
    (canonicalize_eq_of_same (.perm (List.reverse_perm _).symm) (.obj (hkeys _) (hvalues _))).2
  have hsame : SameUpToOrder (unrevised (.obj (twoFields (js "x"))))
      (unrevised (.obj (twoFields (js "y")).reverse)) := .perm (List.Perm.swap _ _ [])
  have htext : canonicalJsonBytes (unrevised (.obj (twoFields (js "x")))) =
      canonicalJsonBytes (unrevised (.obj (twoFields (js "y")).reverse)) := by
    rw [canonicalJsonBytes, canonicalJsonBytes,
      (canonicalize_eq_of_same hsame (isJson_spread hv)).1]
  exact ((canonical_serialisation hv hw).2.2.2.2.2 rfl rfl fun _ => htext).mpr hsame

end SharedNode.Compiler.Canonical
