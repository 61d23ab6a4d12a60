/-!
# Cutting a text

A text is cut at every character of a class. The characters cut at are dropped and the pieces
between them are kept, the empty ones too, so there is one piece more than there were cuts and
`cut_append_cons` holds without a side condition on the two halves.
-/

namespace StackToHack.Text

/-- The pieces of a text between the characters that satisfy `p`. -/
def cut (p : Char → Bool) : List Char → List (List Char)
  | [] => [[]]
  | c :: cs =>
    if p c then [] :: cut p cs
    else
      match cut p cs with
      | [] => [[c]]
      | piece :: rest => (c :: piece) :: rest

theorem cut_ne_nil (p : Char → Bool) (cs : List Char) : cut p cs ≠ [] := by
  cases cs with
  | nil => simp [cut]
  | cons c cs =>
    rw [cut]
    split
    · simp
    · split <;> simp

/-- A character outside the class lengthens the first piece. -/
theorem cut_cons_of_not {p : Char → Bool} {c : Char} (h : p c = false) (cs : List Char) :
    cut p (c :: cs) = (c :: (cut p cs).headD []) :: (cut p cs).tail := by
  rw [cut, if_neg (by simp [h])]
  split
  · rename_i hnil; exact absurd hnil (cut_ne_nil p cs)
  · rename_i hcons; simp [hcons]

/-- There is one piece more than there are characters of the class. -/
theorem length_cut (p : Char → Bool) (cs : List Char) :
    (cut p cs).length = cs.countP p + 1 := by
  induction cs with
  | nil => rfl
  | cons c cs ih =>
    cases h : p c with
    | true => rw [cut, if_pos h, List.length_cons, ih, List.countP_cons_of_pos h]
    | false =>
      rw [cut_cons_of_not h, List.length_cons, List.length_tail, ih,
        List.countP_cons_of_neg (by simp [h])]
      omega

/-- No piece holds a character of the class. -/
theorem forall_not_of_mem_cut {p : Char → Bool} {cs piece : List Char} (h : piece ∈ cut p cs) :
    ∀ c ∈ piece, p c = false := by
  induction cs generalizing piece with
  | nil =>
    obtain rfl := List.mem_singleton.mp h
    exact fun c hc => absurd hc List.not_mem_nil
  | cons d cs ih =>
    by_cases hd : p d = true
    · rw [cut, if_pos hd] at h
      rcases List.mem_cons.mp h with rfl | h
      · exact fun c hc => absurd hc List.not_mem_nil
      · exact ih h
    · have hd' : p d = false := by simpa using hd
      obtain ⟨first, rest, hcut⟩ := List.exists_cons_of_ne_nil (cut_ne_nil p cs)
      rw [cut_cons_of_not hd', hcut] at h
      rw [hcut] at ih
      rcases List.mem_cons.mp h with rfl | h
      · exact List.forall_mem_cons.mpr ⟨hd', ih (List.mem_cons_self ..)⟩
      · exact ih (List.mem_cons_of_mem _ h)

/-- A text without a character of the class is one piece. -/
theorem cut_of_forall_not {p : Char → Bool} {cs : List Char} (h : ∀ c ∈ cs, p c = false) :
    cut p cs = [cs] := by
  induction cs with
  | nil => rfl
  | cons c cs ih =>
    rw [cut_cons_of_not (h c (by simp)), ih fun d hd => h d (by simp [hd])]
    rfl

/-- Cutting at a character of the class is cutting on either side of it. -/
theorem cut_append_cons {p : Char → Bool} {c : Char} (h : p c = true) (xs ys : List Char) :
    cut p (xs ++ c :: ys) = cut p xs ++ cut p ys := by
  induction xs with
  | nil => simp [cut, h]
  | cons x xs ih =>
    by_cases hx : p x = true
    · simp [cut, hx, ih]
    · have hx' : p x = false := by simpa using hx
      rw [List.cons_append, cut_cons_of_not hx', cut_cons_of_not hx', ih]
      cases hcut : cut p xs with
      | nil => exact absurd hcut (cut_ne_nil p xs)
      | cons piece rest => simp

end StackToHack.Text
