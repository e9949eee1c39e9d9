import Sketch.Proofs.EqualFigures
import Sketch.Proofs.WrittenBack

/-!
# What is written is stable

A number whose text is a literal is read from it as a number that may be another one, but that has
the same text.  Likewise a tree that is written as a command, and read from it as another tree, is
written in the same way again (`Tree.writtenAlike_of_parse`): numbers are the only parts that may
change.  So writing and reading again changes nothing after the first time.
-/

namespace Sketch

namespace Tree

open Grammar

/-- The trees are written in the same way, both on their own and as items of a tuple. -/
def WrittenAlike (u t : Tree) : Prop :=
  ∀ inTuple, u.commandWithin inTuple = t.commandWithin inTuple

/-- Whatever the text of a number is read as has that text.  The text of an infinity may be read
as a name. -/
theorem writtenAlike_of_parseWord {position : Nat} {x : Number} {u : Tree} (s : Span)
    (h : parseWord position (numberText x) = .ok u) :
  WrittenAlike u (number x s)
  := by
  intro inTuple
  have hread := readsWord_parseWord position (numberText x)
  rw [h] at hread
  cases hread with
  | wildcard hword => exact hword.symm
  | @number y hliteral hy =>
    obtain ⟨w, hw, htext⟩ := exists_readNumber?_numberText ((isPlainNumber_iff _).mpr hliteral)
    rw [hy] at hw
    obtain rfl := Option.some.inj hw
    exact htext
  | name _ => rfl

theorem map_commandWithin_of_forall₂ {us ts : List Tree} (h : List.Forall₂ WrittenAlike us ts)
    (inTuple : Bool) :
  us.map (commandWithin inTuple) = ts.map (commandWithin inTuple)
  := map_eq_of_forall₂ h fun _ _ _ hut => hut inTuple

theorem traces_writtenAlike :
  Traces WrittenAlike
  := by
  constructor
  · intro position x u s hu
    apply writtenAlike_of_parseWord s hu
  · intro n r s inTuple
    rfl
  · intro us ts r s h inTuple
    rw [commandWithin, commandWithin, commandItems_eq_map, commandItems_eq_map,
      map_commandWithin_of_forall₂ h]
  · intro n us ts r s h inTuple
    have hgroups : ∀ vs : List Tree,
        commandGroups vs = (vs.map (commandWithin false)).flatMap Text.bracketed := by
      intro vs
      rw [commandGroups_eq_flatMap, List.flatMap_map]
    rw [commandWithin, commandWithin, hgroups, hgroups, map_commandWithin_of_forall₂ h]
  · intro kind r s inTuple
    rfl

/-- What is read from the command that a regular tree is written as is written in the same way. -/
theorem writtenAlike_of_parse {t u : Tree} (ht : t.Regular) {offset : Nat}
    (hu : parse t.command offset = .ok u) :
  WrittenAlike u t
  := (ht.retraced traces_writtenAlike).command hu

end Tree

/-- If the text of a finite number is a literal, then a finite number is read from it.  The two are
equal when they are rounded to twelve significant digits, and have the same text.  If a tree that
was read is written as a command, and that command is read, then the second tree is written as the
same command. -/
theorem texts_are_stable :
  (∀ x : Number, x.isFinite = true → isPlainNumber (numberText x) = true →
      ∃ w, readNumber? (numberText x) = some w ∧ w.isFinite = true ∧ SameRounded w x
        ∧ numberText w = numberText x)
    ∧ ∀ (s : Text) (i j : Nat) (t u : Tree), Tree.parse s i = .ok t →
      Tree.parse t.command j = .ok u → u.command = t.command
  := by
  constructor
  · intro x hx hplain
    obtain ⟨w, hw, htext⟩ := exists_readNumber?_numberText hplain
    have hfinite := isFinite_of_readNumber? hw
    exact ⟨w, hw, hfinite, (sameText_iff_sameRounded hfinite hx).mp htext, htext⟩
  · intro s i j t u ht hu
    obtain ⟨hregular, -⟩ := Tree.regular_of_parse ht
    apply Tree.writtenAlike_of_parse hregular hu

/-- Rounding carries to the first digit of both numbers in
`point(0.00009999999999999999, -99999.99999999999)`.  So another tree is read from what is written,
but it is written in the same way. -/
theorem texts_are_stable_carries :
  (0.00009999999999999999 : Number).isFinite = true
    ∧ isPlainNumber (numberText 0.00009999999999999999) = true
    ∧ (∃ w, readNumber? (numberText 0.00009999999999999999) = some w
      ∧ numberText w = numberText 0.00009999999999999999)
    ∧ ∃ t u, Tree.parse (utf8 "point(0.00009999999999999999, -99999.99999999999)") 0 = .ok t
      ∧ t.command = utf8 "point(0.0001, -100000)" ∧ Tree.parse t.command 0 = .ok u
      ∧ (u == t) = false ∧ u.command = t.command
  := by
  have hfinite : (0.00009999999999999999 : Number).isFinite = true := by decide +kernel
  have hplain : isPlainNumber (numberText 0.00009999999999999999) = true := by decide +kernel
  obtain ⟨w, hw, -, -, htext⟩ := texts_are_stable.1 _ hfinite hplain
  let t := Tree.call (utf8 "point")
    [.tuple [.number 0.00009999999999999999 ⟨6, 28⟩, .number (-99999.99999999999) ⟨30, 48⟩] ⟨6, 48⟩]
    ⟨0, 49⟩
  let u := Tree.call (utf8 "point")
    [.tuple [.number 0.0001 ⟨6, 12⟩, .number (-100000) ⟨14, 21⟩] ⟨6, 21⟩] ⟨0, 22⟩
  have ht : Tree.parse (utf8 "point(0.00009999999999999999, -99999.99999999999)") 0 = .ok t := rfl
  have hcommand : t.command = utf8 "point(0.0001, -100000)" := rfl
  have hu : Tree.parse t.command 0 = .ok u := by
    rw [hcommand]
    rfl
  exact ⟨hfinite, hplain, ⟨w, hw, htext⟩, t, u, ht, hcommand, hu, rfl,
    texts_are_stable.2 _ 0 0 t u ht hu⟩

end Sketch
