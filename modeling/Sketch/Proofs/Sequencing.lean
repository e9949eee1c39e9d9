import Sketch.Proofs.Recognition
import Sketch.Proofs.SpanErasure
import Sketch.Registry.Builtin

/-!
# Commands in sequence

Two commands with a comma between them make up one command, which draws the figures of the first
one and then those of the second one.  The first command may be put in brackets, if that does
not nest brackets too deeply.

A command is a list of items, however it is put together: its tree is the tree of its only item,
or the tuple of its items.  The items of two commands in sequence are those of the first and then
those of the second command; their spans are different, which does not matter.
-/

namespace Sketch

namespace Grammar

open Text

/-- Items and further items after a comma are items. -/
theorem Items.append :
  ∀ {s r : Text} {ts us : List Tree}, Items s ts → Items r us →
    Items (s ++ Byte.comma :: r) (ts ++ us)
  | _, _, _, _, .last h, hr => .more h hr
  | _, _, _, _, .more h hs, hr => by
    rw [List.append_assoc, List.cons_append, List.cons_append]
    apply Items.more h (hs.append hr)

theorem Items.length_pos {s : Text} {ts : List Tree} (h : Items s ts) :
  0 < ts.length
  := by
  cases h with
  | last _ => exact Nat.zero_lt_one
  | more _ _ => exact Nat.succ_pos _

/-- A command is a list of items. -/
theorem Command.exists_items {s : Text} {t : Tree} (h : Command s t) :
  ∃ ts, Items s ts ∧ (ts = [t] ∨ t = .tuple ts .nowhere)
  := by
  cases h with
  | item h =>
    use [t], Items.last h
    left
    rfl
  | @tuple s ts h _ =>
    use ts, h
    right
    rfl

end Grammar

namespace Registry

variable (registry : Registry)

open Grammar Tracked
open Sketch.Tree (bare)

/-! ### Drawing items -/

/-- The figures of a tree that is reduced and drawn. -/
def figuresOf (t : Tree) (trail : Trail) : Except CommandError (List Figure) := do
  registry.figureEach (← (registry.reduce t).result trail).calls trail

/-- The figures of trees that are all reduced, and then drawn one after the other. -/
def figuresOfItems (ts : List Tree) (trail : Trail) : Except CommandError (List Figure) := do
  registry.figureEach (Tree.callsList (← (registry.reduceList ts).result trail)) trail

/-- A tuple is drawn by drawing its items. -/
theorem figuresOf_tuple (ts : List Tree) (s : Span) (trail : Trail) :
  registry.figuresOf (.tuple ts s) trail = registry.figuresOfItems ts trail
  := by
  rw [figuresOf, figuresOfItems, result_reduce_tuple]
  rcases (registry.reduceList ts).result trail with e | rs
  · rfl
  · rfl

theorem figuresOfItems_singleton (t : Tree) (trail : Trail) :
  registry.figuresOfItems [t] trail = registry.figuresOf t trail
  := by
  rw [figuresOf, figuresOfItems, result_reduceList, List.mapM_cons, List.mapM_nil]
  rcases (registry.reduce t).result trail with e | r
  · rfl
  · change registry.figureEach (Tree.callsList [r]) trail = registry.figureEach r.calls trail
    rw [Tree.callsList_eq_flatMap, List.flatMap_singleton]

/-- The figures of items in sequence are those of the first ones and then those of the others. -/
theorem figuresOfItems_append {ts us : List Tree} {trail : Trail} {figures rest : List Figure}
    (ht : registry.figuresOfItems ts trail = .ok figures)
    (hu : registry.figuresOfItems us trail = .ok rest) :
  registry.figuresOfItems (ts ++ us) trail = .ok (figures ++ rest)
  := by
  obtain ⟨rs, hrs, hfigures⟩ := bind_eq_ok_iff.mp ht
  obtain ⟨vs, hvs, hrest⟩ := bind_eq_ok_iff.mp hu
  rw [result_reduceList] at hrs hvs
  rw [figuresOfItems, result_reduceList, List.mapM_append, hrs, hvs]
  change registry.figureEach (Tree.callsList (rs ++ vs)) trail = _
  rw [Tree.callsList_eq_flatMap, List.flatMap_append, ← Tree.callsList_eq_flatMap,
    ← Tree.callsList_eq_flatMap, figureEach_append, hfigures, hrest]
  rfl

/-- Trees that are the same apart from their spans have the same figures. -/
theorem figuresOf_of_bare_eq {t u : Tree} (h : t.bare = u.bare) {trail : Trail}
    {figures : List Figure} (hfigures : registry.figuresOf t trail = .ok figures) :
  registry.figuresOf u trail = .ok figures
  := by
  obtain ⟨r, hr, hdraw⟩ := bind_eq_ok_iff.mp hfigures
  obtain ⟨r', hr', hbare⟩ := exists_ok_of_spanless (registry.reduce_of_bare_eq h trail) hr
  obtain ⟨figures', hdraw', rfl⟩ :=
    exists_ok_of_spanless (registry.figureEach_of_bare_eq hbare.symm trail) hdraw
  exact bind_eq_ok_iff.mpr ⟨r', hr', hdraw'⟩

theorem figuresOfItems_of_singleton {us : List Tree} {t : Tree} (h : us.map bare = [t.bare])
    {trail : Trail} {figures : List Figure} (hfigures : registry.figuresOf t trail = .ok figures) :
  registry.figuresOfItems us trail = .ok figures
  := by
  obtain ⟨u, rfl, hu⟩ := List.map_eq_singleton_iff.mp h
  rw [figuresOfItems_singleton]
  apply registry.figuresOf_of_bare_eq hu.symm hfigures

/-! ### Commands and their items -/

/-- A command is drawn successfully if it can be read and its tree can be drawn. -/
theorem figures_eq_ok_iff {command : Text} {trail : Trail} {figures : List Figure} :
  (registry.figures command).result trail = .ok figures
    ↔ ∃ t, Tree.parse command 0 = .ok t ∧ registry.figuresOf t trail = .ok figures
  := by
  rw [result_figures]
  constructor
  · intro h
    obtain ⟨o, ho, h⟩ := bind_eq_ok_iff.mp h
    obtain rfl := Except.ok.inj h
    obtain ⟨hparse, hreduce, hdraw⟩ := registry.result_execute_eq_ok_iff.mp ho
    use o.parsed, hparse
    exact bind_eq_ok_iff.mpr ⟨o.reduced, hreduce, hdraw⟩
  · rintro ⟨t, hparse, h⟩
    obtain ⟨r, hreduce, hdraw⟩ := bind_eq_ok_iff.mp h
    have ho : (registry.execute command).result trail = .ok ⟨t, r, figures⟩ :=
      registry.result_execute_eq_ok_iff.mpr ⟨hparse, hreduce, hdraw⟩
    exact bind_eq_ok_iff.mpr ⟨_, ho, rfl⟩

/-- The text is a list of items that draw the given figures, whatever the spans of the items are. -/
structure DrawsItems (trail : Trail) (s : Text) (figures : List Figure) : Prop where
  nesting : s.nesting ≤ 256
  items : ∃ ts, Items s ts ∧
    ∀ us : List Tree, us.map bare = ts → registry.figuresOfItems us trail = .ok figures

/-- A command that is drawn successfully draws its items. -/
theorem drawsItems_of_figures {trail : Trail} {c : Text} {figures : List Figure}
    (h : (registry.figures c).result trail = .ok figures) :
  registry.DrawsItems trail c figures
  := by
  obtain ⟨t, hparse, hfigures⟩ := registry.figures_eq_ok_iff.mp h
  obtain ⟨hcommand, hnesting⟩ := Tree.command_of_parse hparse
  obtain ⟨ts, hts, hitems⟩ := hcommand.exists_items
  use hnesting, ts, hts
  rintro us rfl
  rcases hitems with hone | htuple
  · apply registry.figuresOfItems_of_singleton hone hfigures
  · rw [← registry.figuresOf_tuple us .nowhere]
    apply registry.figuresOf_of_bare_eq _ hfigures
    rw [htuple, Tree.bare_tuple]

/-- In brackets, a command is a single item. -/
theorem drawsItems_bracketed {trail : Trail} {c : Text} {figures : List Figure}
    (h : (registry.figures c).result trail = .ok figures) (hnesting : c.nesting ≤ 255) :
  registry.DrawsItems trail (Text.bracketed c) figures
  := by
  obtain ⟨t, hparse, hfigures⟩ := registry.figures_eq_ok_iff.mp h
  obtain ⟨hcommand, -⟩ := Tree.command_of_parse hparse
  constructor
  · rw [Text.nesting_bracketed hcommand.balanced]
    omega
  · use [t.bare], Items.last (Primary.bracketed hcommand).item
    intro us hus
    apply registry.figuresOfItems_of_singleton hus hfigures

/-- Items in sequence make up a tuple, whose figures are those of the items in sequence. -/
theorem figures_of_drawsItems {trail : Trail} {s r : Text} {figures rest : List Figure}
    (hs : registry.DrawsItems trail s figures) (hr : registry.DrawsItems trail r rest) :
  (registry.figures (s ++ Byte.comma :: r)).result trail = .ok (figures ++ rest)
  := by
  obtain ⟨ts, hts, hfigures⟩ := hs.items
  obtain ⟨vs, hvs, hrest⟩ := hr.items
  have hcommand : Command (s ++ Byte.comma :: r) (.tuple (ts ++ vs) .nowhere) := by
    apply Command.tuple (hts.append hvs)
    have := hts.length_pos
    have := hvs.length_pos
    rw [List.length_append]
    omega
  have hnesting : (s ++ Byte.comma :: r).nesting ≤ 256 := by
    rw [Text.nesting_append hts.balanced, Text.nesting_other (by decide)]
    apply Nat.max_le.mpr ⟨hs.nesting, hr.nesting⟩
  obtain ⟨t, hparse, hbare⟩ :=
    (Tree.parseWith_parseInner_iff maxNesting 0 _ _).mpr ⟨hcommand, hnesting⟩
  apply registry.figures_eq_ok_iff.mpr ⟨t, hparse, _⟩
  cases t with
  | tuple items span =>
    rw [Tree.bare_tuple] at hbare
    obtain ⟨us, us', rfl, hus, hus'⟩ := List.map_eq_append_iff.mp (Tree.tuple.inj hbare).1
    rw [figuresOf_tuple]
    apply registry.figuresOfItems_append (hfigures us hus) (hrest us' hus')
  | call n args span =>
    rw [Tree.bare_call] at hbare
    cases hbare
  | _ => cases hbare

/-- Two commands with a comma between them draw the figures of the first one and then those of the
second one.  So they do if the first one is put in brackets, unless it is nested too deeply for
that. -/
theorem figures_sequence (trail : Trail) (c₁ c₂ : Text) (figures₁ figures₂ : List Figure)
    (h₁ : (registry.figures c₁).result trail = .ok figures₁)
    (h₂ : (registry.figures c₂).result trail = .ok figures₂) :
  (registry.figures (c₁ ++ Byte.comma :: c₂)).result trail = .ok (figures₁ ++ figures₂)
    ∧ (c₁.nesting ≤ 255 →
      (registry.figures (Text.bracketed c₁ ++ Byte.comma :: c₂)).result trail
        = .ok (figures₁ ++ figures₂))
  := by
  have hsecond := registry.drawsItems_of_figures h₂
  constructor
  · apply registry.figures_of_drawsItems (registry.drawsItems_of_figures h₁) hsecond
  · intro hnesting
    apply registry.figures_of_drawsItems (registry.drawsItems_bracketed h₁ hnesting) hsecond

theorem figures_sequence_points_line :
  let points := utf8 "point(1, 2), point(3, add(2)(2))"
  let line := utf8 "line((0, 0), mid((0, 0), (2, 2)))"
  let figures := [.point [1, 2], .point [3, 4], .line [0, 0] [1, 1]]
  (Registry.builtin.figures (points ++ Byte.comma :: line)).result [] = .ok figures
    ∧ points.nesting ≤ 255
    ∧ (Registry.builtin.figures (Text.bracketed points ++ Byte.comma :: line)).result []
      = .ok figures
  := by
  intro points line figures
  have hnesting : points.nesting ≤ 255 := by decide
  obtain ⟨hjoined, hbracketed⟩ := figures_sequence Registry.builtin [] points line
    [.point [1, 2], .point [3, 4]] [.line [0, 0] [1, 1]] rfl rfl
  exact ⟨hjoined, hnesting, hbracketed hnesting⟩

end Registry

end Sketch
