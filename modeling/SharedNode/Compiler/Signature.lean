import SharedNode.Compiler.ReplayStore

/-!
# What a signature is about

`HmacServiceIdentity.signature` (`compiler/src/service-identity.mjs`) signs five fields joined by
newlines, and the target in the middle may have newlines of its own. The method is read off the
front, up to the first newline. The digest has a fixed length, and neither the nonce nor the
timestamp has a newline, so they are read off the end; what is left between is the target
(`signedPayload_injective`).
-/

namespace SharedNode.Identity

open Text

/-- A string of units in ASCII, none of them a newline. -/
def IsLine (s : JsString) : Prop := ∀ u ∈ s, u < 0x80 ∧ u ≠ 0x0a

theorem IsLine.isText {s : JsString} (h : IsLine s) : IsText s := by
  have hbytes : s = (s.map UInt16.toUInt8).map UInt8.toUInt16 := by
    rw [List.map_map]
    refine (List.map_id s).symm.trans (List.map_congr_left fun u hu => ?_)
    have hlt : u.toNat < 128 := (h u hu).1
    rw [← UInt16.toNat_inj, Function.comp_apply, UInt8.toNat_toUInt16, UInt16.toNat_toUInt8,
      Nat.mod_eq_of_lt (by omega)]
    rfl
  rw [hbytes]
  refine isText_ascii fun b hb => ?_
  obtain ⟨u, hu, rfl⟩ := List.mem_map.mp hb
  have hlt : u.toNat < 128 := (h u hu).1
  rw [UInt8.lt_iff_toNat_lt, UInt16.toNat_toUInt8, Nat.mod_eq_of_lt (by omega)]
  exact hlt

theorem IsLine.newline_notMem {s : JsString} (h : IsLine s) : 0x0a ∉ encode s := by
  rw [mem_encode (by decide)]
  exact fun hmem => (h _ hmem).2 rfl

theorem isLine_of_all {p : UInt16 → Bool} (hp : ∀ u, p u = true → 0x20 ≤ u ∧ u < 0x80)
    {s : JsString} (h : s.all p = true) : IsLine s := by
  intro u hu
  obtain ⟨hlow, hhigh⟩ := hp u (List.all_eq_true.mp h u hu)
  refine ⟨hhigh, ?_⟩
  rintro rfl
  exact absurd hlow (by decide)

section Validated

variable {r : Request} {timestamp : Option Int} {now maxAgeMs : Int}

theorem isLine_of_validate (h : validateSignedRequest r timestamp now maxAgeMs = true) :
    IsLine r.method ∧ ∃ nonce, r.nonce = some nonce ∧ IsLine nonce := by
  simp only [validateSignedRequest, Bool.and_eq_true, and_assoc] at h
  obtain ⟨-, hmethod, -, -, hnonce, -⟩ := h
  refine ⟨isLine_of_all (fun u hu => ?_) hmethod, ?_⟩
  · grind
  · cases hn : r.nonce with
    | none =>
      rw [hn] at hnonce
      exact absurd hnonce (by decide)
    | some nonce =>
      rw [hn, Option.getD_some, validNonce, Bool.and_eq_true] at hnonce
      exact ⟨nonce, rfl, isLine_of_all (fun u hu => by grind) hnonce.2⟩

end Validated

/-- **Two requests that pass, with well-formed targets, and that have one signed payload have the
same method, target, timestamp, nonce and body digest.** -/
theorem signedPayload_injective {r r' : Request} {t t' now now' maxAgeMs maxAgeMs' : Int}
    (h : validateSignedRequest r (some t) now maxAgeMs = true)
    (h' : validateSignedRequest r' (some t') now' maxAgeMs' = true) (ht : IsText r.target)
    (ht' : IsText r'.target) (heq : signedPayload r t = signedPayload r' t') :
    r.method = r'.method ∧ r.target = r'.target ∧ t = t' ∧ r.nonce = r'.nonce ∧
      sha256 r.body = sha256 r'.body := by
  obtain ⟨hmethod, nonce, hnonce, hline⟩ := isLine_of_validate h
  obtain ⟨hmethod', nonce', hnonce', hline'⟩ := isLine_of_validate h'
  have hsign : ∀ n : Int, 0x0a ∉ formatInt n := fun n => mt mem_formatInt (by decide)
  simp only [signedPayload, hnonce, hnonce', Option.getD_some, List.append_assoc, List.cons_append,
    List.nil_append] at heq
  obtain ⟨hm, heq⟩ := eq_of_append_separator hmethod.newline_notMem hmethod'.newline_notMem heq
  -- From here on the fields come off the end, the digest by its length.
  have hfront : ∀ x₁ x₂ x₃ x₄ : Bytes, x₁ ++ 0x0a :: (x₂ ++ 0x0a :: (x₃ ++ 0x0a :: x₄)) =
      (x₁ ++ 0x0a :: (x₂ ++ 0x0a :: x₃) ++ [0x0a]) ++ x₄ := by simp
  rw [hfront, hfront] at heq
  obtain ⟨heq, hdigest⟩ := List.append_inj' heq (by rw [sha256_length, sha256_length])
  have hback : ∀ x₁ x₂ x₃ : Bytes,
      x₁ ++ 0x0a :: (x₂ ++ 0x0a :: x₃) = (x₁ ++ 0x0a :: x₂) ++ 0x0a :: x₃ := by simp
  rw [List.append_cancel_right_eq, hback, hback] at heq
  obtain ⟨heq, hn⟩ := eq_of_separator_append hline.newline_notMem hline'.newline_notMem heq
  obtain ⟨htarget, htime⟩ := eq_of_separator_append (hsign t) (hsign t') heq
  refine ⟨encode_injective hmethod.isText hmethod'.isText hm, encode_injective ht ht' htarget,
    formatInt_injective htime, ?_, hdigest⟩
  rw [hnonce, hnonce', encode_injective hline.isText hline'.isText hn]

def linesRequest (authorization : String) : Request :=
  { sampleRequest with
    target := js "/a\nb", authorization := some (js authorization) }

theorem signedPayload_injective_sample : signedPayload (linesRequest "HMAC key:a") 1000000 =
        signedPayload (linesRequest "HMAC key:b") 1000000 ∧
      (linesRequest "HMAC key:a").target = (linesRequest "HMAC key:b").target := by
  have hvalid : validateSignedRequest (linesRequest "HMAC key:a")
    (some 1000000) 1000500 1000 = true ∧
      validateSignedRequest (linesRequest "HMAC key:b") (some 1000000) 1000500 1000 = true := by
    decide +kernel
  have htext : ∀ a, IsText (linesRequest a).target := fun a => ⟨"/a\nb".toList, rfl⟩
  have heq : signedPayload (linesRequest "HMAC key:a") 1000000 =
      signedPayload (linesRequest "HMAC key:b") 1000000 := by
    simp only [signedPayload, linesRequest]
  exact ⟨heq, (signedPayload_injective hvalid.1 hvalid.2 (htext _) (htext _) heq).2.1⟩

end SharedNode.Identity
