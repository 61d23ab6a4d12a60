/-!
# Numerals

Numbers in stack code are 32-bit words written in decimal. Reading takes one or more ASCII digits
with any number of leading zeros and refuses a value that needs more than 32 bits; writing gives
the digits without leading zeros, so `read?_write` holds and the converse only up to those zeros.
-/

namespace StackToHack.Numeral

/-- The value of a list of decimal digits, the most significant first. -/
def value (digits : List Char) : Nat := Nat.ofDigitChars 10 digits 0

/-- A list of characters that spells a 32-bit word. -/
def IsNumeral (cs : List Char) : Prop :=
  cs ≠ [] ∧ (∀ c ∈ cs, c.isDigit = true) ∧ value cs < UInt32.size

instance (cs : List Char) : Decidable (IsNumeral cs) :=
  decidable_of_iff (cs ≠ [] ∧ cs.all Char.isDigit = true ∧ value cs < UInt32.size)
    (by rw [IsNumeral, List.all_eq_true])

def read? (text : String) : Option UInt32 :=
  if IsNumeral text.toList then some (UInt32.ofNat (value text.toList)) else none

def write (n : UInt32) : String := n.toNat.repr

theorem toList_write (n : UInt32) : (write n).toList = Nat.toDigits 10 n.toNat := Nat.toList_repr

theorem value_write (n : UInt32) : value (write n).toList = n.toNat := by
  rw [toList_write, value, Nat.ofDigitChars_toDigits (by decide) (by decide)]

theorem isNumeral_write (n : UInt32) : IsNumeral (write n).toList := by
  refine ⟨?_, ?_, ?_⟩
  · rw [toList_write]
    exact Nat.toDigits_ne_nil
  · intro c hc
    rw [toList_write] at hc
    exact Nat.isDigit_of_mem_toDigits (by decide) (by decide) hc
  · rw [value_write]
    exact n.toNat_lt

/-- What is written reads back. -/
theorem read?_write (n : UInt32) : read? (write n) = some n := by
  rw [read?, if_pos (isNumeral_write n), value_write, UInt32.ofNat_toNat]

end StackToHack.Numeral
