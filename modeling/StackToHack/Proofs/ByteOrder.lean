import Mathlib.Data.List.Lex
import Mathlib.Tactic.SplitIfs

/-!
# The order of bytes

Texts are compared character by character, by code points. Their bytes in UTF-8 are in the same
order (`bytes_lt_of_lt`): a character of fewer bytes has the lesser first byte, and the bytes of
characters of one length are the places of their code points.
-/

namespace StackToHack.Text

/-- The bytes of a text in UTF-8. -/
def bytes (text : String) : List UInt8 := text.toUTF8.data.toList

theorem bytes_eq_flatMap (text : String) :
    bytes text = text.toList.flatMap String.utf8EncodeChar := by
  have whole : text.toUTF8 = text.toList.utf8Encode := by
    rw [String.toUTF8_eq_toByteArray, ← String.toByteArray_ofList, String.ofList_toList]
  rw [bytes, whole, List.utf8Encode, List.data_toByteArray]

/-- Bytes that come before others whatever stands behind either: some byte differs, and the first
that does is the lesser one. -/
def Precedes : List UInt8 → List UInt8 → Prop
  | x :: xs, y :: ys => x < y ∨ x = y ∧ Precedes xs ys
  | _, _ => False

theorem Precedes.append_lt {xs ys : List UInt8} (h : Precedes xs ys) (xs' ys' : List UInt8) :
    xs ++ xs' < ys ++ ys' := by
  induction xs generalizing ys with
  | nil => exact h.elim
  | cons x xs ih =>
      cases ys with
      | nil => exact h.elim
      | cons y ys =>
          rcases h with less | ⟨rfl, rest⟩
          · exact List.Lex.rel less
          · exact List.Lex.cons (ih rest)

theorem utf8EncodeChar_precedes {c d : Char} (h : c < d) :
    Precedes (String.utf8EncodeChar c) (String.utf8EncodeChar d) := by
  have less : c.val.toNat < d.val.toNat := UInt32.lt_iff_toNat_lt.mp h
  have limit : d.val.toNat < 0x110000 := by
    have valid := d.valid
    simp only [UInt32.isValidChar, Nat.isValidChar] at valid
    omega
  -- each place is the one below it divided by 64 once more
  have second : ∀ n, n / 4096 = n / 64 / 64 := fun n => by omega
  have third : ∀ n, n / 262144 = n / 64 / 64 / 64 := fun n => by omega
  simp only [String.utf8EncodeChar, second, third]
  generalize c.val.toNat = v at *
  generalize d.val.toNat = w at *
  -- one case for each pair of lengths
  split_ifs <;>
    simp only [Precedes, UInt8.lt_iff_toNat_lt, ← UInt8.toNat_inj, UInt8.toNat_ofNat'] <;> omega

theorem utf8EncodeChar_ne_nil (c : Char) : String.utf8EncodeChar c ≠ [] := by
  intro empty
  have size := String.length_utf8EncodeChar c
  rw [empty] at size
  exact absurd size.symm (Nat.ne_of_gt c.utf8Size_pos)

theorem flatMap_utf8EncodeChar_lt {cs ds : List Char} (h : cs < ds) :
    cs.flatMap String.utf8EncodeChar < ds.flatMap String.utf8EncodeChar := by
  induction h with
  | @nil d ds =>
      obtain ⟨x, xs, whole⟩ := List.exists_cons_of_ne_nil (utf8EncodeChar_ne_nil d)
      rw [List.flatMap_cons, whole]
      exact List.Lex.nil
  | cons _ ih => exact List.Lex.append_left _ ih _
  | rel less => exact (utf8EncodeChar_precedes less).append_lt _ _

/-- **The order of bytes.** Texts in order have their bytes in order. -/
theorem bytes_lt_of_lt {a b : String} (h : a < b) : bytes a < bytes b := by
  rw [bytes_eq_flatMap, bytes_eq_flatMap]
  exact flatMap_utf8EncodeChar_lt h

end StackToHack.Text
