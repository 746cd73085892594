import Mathlib.Algebra.Order.Ring.Int
import Mathlib.Algebra.Ring.Nat
import Mathlib.Data.List.Infix

/-!
# Byte strings

A Go string is a sequence of bytes. `lit` gives the bytes of a literal; the conversions of `strconv`
between decimal texts and 64-bit integers follow its documentation.
-/

namespace SharedNode.Text

/-- A Go string as the bytes it holds. -/
abbrev Bytes := List UInt8

def lit (s : String) : Bytes := s.toUTF8.data.toList

theorem lit_append (s t : String) : lit (s ++ t) = lit s ++ lit t := by
  simp [lit, String.toUTF8]

theorem lit_injective {s t : String} (h : lit s = lit t) : s = t := by
  have hdata : s.toUTF8.data = t.toUTF8.data := Array.ext' h
  exact String.toByteArray_inj.mp (ByteArray.ext hdata)

/-- `strings.ContainsAny`, for a set of single bytes. -/
def containsAny (s chars : Bytes) : Bool := s.any chars.contains

def hexDigit (n : Nat) : UInt8 := if n < 10 then UInt8.ofNat (0x30 + n) else UInt8.ofNat (0x57 + n)

/-- The decimal digits of a number. -/
def formatNat (n : Nat) : Bytes := (Nat.toDigits 10 n).map fun c => c.toNat.toUInt8

/-- A decimal text with at least `width` digits. -/
def padded (width n : Nat) : Bytes :=
  List.replicate (width - (formatNat n).length) 0x30 ++ formatNat n

/-- `strconv.FormatInt(n, 10)`. -/
def formatInt (n : Int) : Bytes :=
  if n < 0 then lit "-" ++ formatNat n.natAbs else formatNat n.natAbs

/-- The value of a non-empty string of decimal digits. -/
def parseDigits (s : Bytes) : Option Nat :=
  if s ≠ [] ∧ s.all fun b => 0x30 ≤ b && b ≤ 0x39 then
    some (s.foldl (fun n b => n * 10 + (b.toNat - 0x30)) 0)
  else none

/-- `strconv.ParseInt(s, 10, 64)`, `none` for its error. -/
def parseInt (s : Bytes) : Option Int :=
  match s with
  | 0x2d :: digits => ((parseDigits digits).map fun n : Nat => -(n : Int)).filter (-2 ^ 63 ≤ ·)
  | 0x2b :: digits => ((parseDigits digits).map fun n : Nat => (n : Int)).filter (· < 2 ^ 63)
  | digits => ((parseDigits digits).map fun n : Nat => (n : Int)).filter (· < 2 ^ 63)

def isDigit (b : UInt8) : Bool := 0x30 ≤ b && b ≤ 0x39

/-- `Number.isSafeInteger`. -/
def isSafeInteger (n : Int) : Bool := -(2 ^ 53) < n && n < 2 ^ 53

/-- Two texts that are the same up to a separator they do not contain before it. -/
theorem eq_of_append_separator {α : Type} {a : α} {s t x y : List α} (hs : a ∉ s) (ht : a ∉ t)
    (h : s ++ a :: x = t ++ a :: y) : s = t ∧ x = y := by
  induction s generalizing t with
  | nil =>
    cases t with
    | nil => exact ⟨rfl, (List.cons.inj h).2⟩
    | cons b t => exact absurd (List.cons.inj h).1 fun hb => ht (hb ▸ List.mem_cons_self)
  | cons b s ih =>
    cases t with
    | nil => exact absurd (List.cons.inj h).1 fun hb => hs (hb ▸ List.mem_cons_self)
    | cons c t =>
      obtain ⟨rfl, hrest⟩ := List.cons.inj h
      obtain ⟨rfl, hxy⟩ := ih (fun hm => hs (List.mem_cons_of_mem _ hm))
        (fun hm => ht (List.mem_cons_of_mem _ hm)) hrest
      exact ⟨rfl, hxy⟩

theorem eq_of_separator_append {α : Type} {a : α} {s t x y : List α} (hs : a ∉ s) (ht : a ∉ t)
    (h : x ++ a :: s = y ++ a :: t) : x = y ∧ s = t := by
  have hreverse := congrArg List.reverse h
  simp only [List.reverse_append, List.reverse_cons, List.append_assoc, List.singleton_append]
    at hreverse
  obtain ⟨hst, hxy⟩ := eq_of_append_separator (by simpa using hs) (by simpa using ht) hreverse
  exact ⟨List.reverse_injective hxy, List.reverse_injective hst⟩

end SharedNode.Text
