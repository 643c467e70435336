import Fleet.Json.Value
import Mathlib

/-! The order of keys is that of their bytes.

    Keys are compared code point by code point. Written in one to four bytes each, code points keep their order: the
    first byte in which two of them differ is the greater for the greater one. -/

namespace Fleet.Json

/-- The bytes of a text. -/
def octets (s : String) : List UInt8 := s.toUTF8.data.toList

theorem octets_eq_flatMap (s : String) : octets s = s.toList.flatMap String.utf8EncodeChar := by
  unfold octets
  rw [String.toUTF8_eq_toByteArray]
  conv_lhs => rw [← String.ofList_toList (s := s), String.toByteArray_ofList]
  unfold List.utf8Encode
  rw [List.data_toByteArray]

variable {m n : Nat} {c d : Char} {as bs : List UInt8}

theorem cons_lt_cons_of_le (hm : m < 256) (hn : n < 256) (hle : m ≤ n) (h : m = n → as < bs) :
    UInt8.ofNat m :: as < UInt8.ofNat n :: bs := by
  rw [List.cons_lt_cons_iff]
  rcases Nat.lt_or_eq_of_le hle with hlt | rfl
  · left
    rwa [UInt8.lt_iff_toNat_lt, UInt8.toNat_ofNat', UInt8.toNat_ofNat', Nat.mod_eq_of_lt hm, Nat.mod_eq_of_lt hn]
  · exact .inr ⟨rfl, h rfl⟩

theorem toNat_lt_max (c : Char) : c.val.toNat < 0x110000 := by
  have hvalid := c.valid
  unfold UInt32.isValidChar Nat.isValidChar at hvalid
  omega

/-- Whatever follows, the greater code point has the greater bytes. -/
theorem utf8EncodeChar_append_lt (h : c < d) (as bs : List UInt8) :
    String.utf8EncodeChar c ++ as < String.utf8EncodeChar d ++ bs := by
  have hlt : c.val.toNat < d.val.toNat := h
  have hmax := toNat_lt_max d
  unfold String.utf8EncodeChar
  dsimp only
  -- Each of the two has one to four bytes; they are compared one after the other, until two of them differ.
  repeat' split
  all_goals
    repeat refine cons_lt_cons_of_le (by omega) (by omega) (by omega) fun _ => ?_
    omega

theorem utf8EncodeChar_ne_nil (c : Char) : String.utf8EncodeChar c ≠ [] := by
  unfold String.utf8EncodeChar
  dsimp only
  repeat' split
  all_goals exact List.cons_ne_nil _ _

/-- The order of texts code point by code point is that of their bytes. -/
theorem flatMap_lt_of_lt {cs ds : List Char} (h : cs < ds) :
    cs.flatMap String.utf8EncodeChar < ds.flatMap String.utf8EncodeChar := by
  induction cs generalizing ds with
  | nil =>
    cases ds with
    | nil => exact absurd h (List.lt_irrefl _)
    | cons d ds =>
      obtain ⟨b, bs, hb⟩ := List.exists_cons_of_ne_nil (utf8EncodeChar_ne_nil d)
      rw [List.flatMap_nil, List.flatMap_cons, hb, List.cons_append]
      exact List.nil_lt_cons _ _
  | cons c cs ih =>
    cases ds with
    | nil => exact absurd h (List.not_lt_nil _)
    | cons d ds =>
      rw [List.flatMap_cons, List.flatMap_cons]
      rcases List.cons_lt_cons_iff.mp h with hlt | ⟨rfl, hlt⟩
      · exact utf8EncodeChar_append_lt hlt _ _
      · exact List.append_left_lt (ih hlt)

theorem octets_lt_iff {s t : String} : octets s < octets t ↔ s < t := by
  have hmono : ∀ {s t : String}, s < t → octets s < octets t := fun h => by
    rw [octets_eq_flatMap, octets_eq_flatMap]
    exact flatMap_lt_of_lt (String.lt_iff_toList_lt.mp h)
  refine ⟨fun h => ?_, hmono⟩
  rcases lt_trichotomy s t with hlt | rfl | hgt
  · exact hlt
  · exact absurd h (List.lt_irrefl _)
  · exact absurd (hmono hgt) (List.lt_asymm h)

end Fleet.Json
