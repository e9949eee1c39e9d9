import Sketch.Text.Basic

/-!
# Surrounding blanks

`trimBy p ℓ` removes the longest run of elements satisfying `p` from both ends of `ℓ`.  Texts
are trimmed of blank bytes; the parser trims the parts of a command in the same way.
-/

namespace Sketch

/-- `ℓ` without the elements satisfying `p` at its end. -/
def trimEndBy {α : Type} (p : α → Bool) (ℓ : List α) : List α :=
  (ℓ.reverse.dropWhile p).reverse

/-- `ℓ` without the elements satisfying `p` at its two ends. -/
def trimBy {α : Type} (p : α → Bool) (ℓ : List α) : List α :=
  trimEndBy p (ℓ.dropWhile p)

/-- The number of elements satisfying `p` at the start of `ℓ`. -/
def leadingBy {α : Type} (p : α → Bool) (ℓ : List α) : Nat :=
  (ℓ.takeWhile p).length

/-- What `trimEndBy` removes from the end satisfies `p`. -/
theorem exists_eq_trimEndBy_append {α : Type} (p : α → Bool) (ℓ : List α) :
  ∃ e, ℓ = trimEndBy p ℓ ++ e ∧ ∀ x ∈ e, p x = true
  := by
  refine ⟨(ℓ.reverse.takeWhile p).reverse, ?_, ?_⟩
  · rw [trimEndBy, ← List.reverse_append, List.takeWhile_append_dropWhile, List.reverse_reverse]
  · intro x hx
    exact List.all_eq_true.mp List.all_takeWhile x (List.mem_reverse.mp hx)

/-- A list is its trimmed part with elements satisfying `p` on both sides. -/
theorem exists_eq_append_trimBy_append {α : Type} (p : α → Bool) (ℓ : List α) :
  ∃ e, ℓ = ℓ.takeWhile p ++ trimBy p ℓ ++ e ∧ ∀ x ∈ e, p x = true
  := by
  obtain ⟨e, he, hp⟩ := exists_eq_trimEndBy_append p (ℓ.dropWhile p)
  refine ⟨e, ?_, hp⟩
  rw [List.append_assoc, trimBy, ← he, List.takeWhile_append_dropWhile]

/-- A text without its surrounding blanks. -/
def Text.trim (t : Text) : Text := trimBy Byte.isBlank t

/-- The number of blanks a text starts with. -/
def Text.leadingBlanks (t : Text) : Nat := leadingBy Byte.isBlank t

end Sketch
