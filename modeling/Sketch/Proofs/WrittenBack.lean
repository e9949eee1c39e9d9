import Sketch.Proofs.RoundTrip

/-!
# Writing back what was read

A tree that was read from a command is regular, and is written with brackets that are nested no
deeper than those of the command: brackets that are not needed are left out.  So it is read back
as an equal tree if its numbers are, and only then.

There are numbers that commands can have, and that are not read back: small and large ones are
written with an exponent, which commands do not allow, and others lose digits.
-/

namespace Sketch

open Text

/-! ### Nesting of what is written -/

namespace Text

/-- Texts with commas between them are nested as deep as the deepest one. -/
theorem nesting_commaSeparated_le {ss : List Text} (h : ∀ s ∈ ss, Balanced s) (n : Nat) :
  (commaSeparated ss).nesting ≤ n ↔ ∀ s ∈ ss, s.nesting ≤ n
  := by
  induction ss with
  | nil => simp [commaSeparated, nesting]
  | cons s ss ih =>
    have hs := h s List.mem_cons_self
    have hss := ih fun r hr => h r (List.mem_cons_of_mem s hr)
    cases ss with
    | nil => simp [commaSeparated]
    | cons r ss =>
      rw [Tree.commaSeparated_cons_cons, nesting_append hs, nesting_other (by decide),
        List.singleton_append, nesting_other (by decide), Nat.max_le, hss]
      simp only [List.forall_mem_cons]

/-- Texts in brackets are nested one deeper than the deepest one. -/
theorem nesting_flatMap_bracketed_le {α : Type} {f : α → Text} {as : List α}
    (h : ∀ a ∈ as, Balanced (f a)) (n : Nat) :
  nesting (as.flatMap fun a => Text.bracketed (f a)) ≤ n ↔ ∀ a ∈ as, (f a).nesting < n
  := by
  induction as with
  | nil => simp [nesting]
  | cons a as ih =>
    have ha := h a List.mem_cons_self
    rw [List.flatMap_cons, nesting_append ha.bracketed, nesting_bracketed ha, Nat.max_le,
      Nat.add_one_le_iff, ih fun b hb => h b (List.mem_cons_of_mem a hb)]
    simp only [List.forall_mem_cons]

end Text

namespace Tree

open Grammar

/-- The brackets of regular trees match when these are written. -/
theorem Regular.balanced {t : Tree} (h : t.Regular) (inTuple : Bool) :
  Balanced (t.commandWithin inTuple)
  := by
  have hretraced := h.retraced traces_readsBack
  cases inTuple with
  | false => apply hretraced.balanced
  | true =>
    obtain ⟨ps, hps, -⟩ := hretraced.item
    apply hps.balanced

/-- A tuple without brackets is nested as deep as its deepest item. -/
theorem nesting_tuple_le {items : List Tree} {s : Span} (h : (tuple items s).Regular) (n : Nat) :
  ((tuple items s).commandWithin false).nesting ≤ n
    ↔ ∀ t ∈ items, (t.commandWithin true).nesting ≤ n
  := by
  have hitems : ∀ r ∈ items.map (commandWithin true), Balanced r := by
    rw [List.forall_mem_map]
    intro t ht
    apply ((regular_tuple_iff.mp h).2 t ht).balanced
  have hfalse : (tuple items s).commandWithin false
      = commaSeparated (items.map (commandWithin true)) := by
    simp [commandWithin, commandItems_eq_map]
  rw [hfalse, nesting_commaSeparated_le hitems, List.forall_mem_map]

/-- Inside of a tuple, another tuple has brackets of its own. -/
theorem nesting_bracketed_tuple {items : List Tree} {s : Span} (h : (tuple items s).Regular) :
  ((tuple items s).commandWithin true).nesting = ((tuple items s).commandWithin false).nesting + 1
  := by
  rw [commandWithin_true_tuple, nesting_bracketed (h.balanced false)]

/-- A call is nested one deeper than its deepest argument. -/
theorem nesting_call_le {n : Text} {args : List Tree} {s : Span} (h : (call n args s).Regular)
    (inTuple : Bool) (k : Nat) :
  ((call n args s).commandWithin inTuple).nesting ≤ k
    ↔ ∀ t ∈ args, (t.commandWithin false).nesting < k
  := by
  obtain ⟨⟨hname, -⟩, hargs⟩ := regular_call_iff.mp h
  have hword := (IsWord.of_isName hname).noBrackets
  rw [commandWithin, commandGroups_eq_flatMap, nesting_append (Balanced.of_forall hword),
    nesting_of_forall hword, Nat.zero_max, nesting_flatMap_bracketed_le]
  intro t ht
  apply (hargs t ht).balanced

theorem nesting_number (x : Number) (s : Span) (inTuple : Bool) :
  ((number x s).commandWithin inTuple).nesting = 0
  := nesting_of_forall (isWord_numberText x).noBrackets

theorem nesting_wildcard (kind : Wildcard) (s : Span) (inTuple : Bool) :
  ((wildcard kind s).commandWithin inTuple).nesting = 0
  := nesting_of_forall (IsWord.wildcard kind).noBrackets

theorem nesting_name {n : Text} {s : Span} (h : (name n s).Regular) (inTuple : Bool) :
  ((name n s).commandWithin inTuple).nesting = 0
  := nesting_of_forall (IsWord.of_isName (h (name n s) List.mem_cons_self)).noBrackets

/-- Only a tuple is written in another way as an item, with a pair of brackets around it. -/
theorem Regular.nesting_bounds {t : Tree} (h : t.Regular) :
  (t.commandWithin false).nesting ≤ (t.commandWithin true).nesting
    ∧ (t.commandWithin true).nesting ≤ (t.commandWithin false).nesting + 1
  := by
  cases t with
  | tuple items s =>
    rw [nesting_bracketed_tuple h]
    omega
  | _ =>
    constructor
    · apply Nat.le_refl
    · apply Nat.le_succ

/-! ### Commands are written back with no deeper nesting -/

mutual

/-- Writing what was read from a command does not nest brackets deeper than the command does. -/
theorem nesting_of_command :
  ∀ {s : Text} {t : Tree}, Command s t → (t.commandWithin false).nesting ≤ s.nesting
  | _, _, .item h => by
    have hbounds := (regular_of_item h).nesting_bounds
    apply hbounds.1.trans (nesting_of_item h)
  | _, _, .tuple h htwo => by
    have hregular := regular_of_command (Command.tuple h htwo)
    apply (nesting_tuple_le hregular _).mpr (nesting_of_items h)

theorem nesting_of_items :
  ∀ {s : Text} {ts : List Tree}, Items s ts →
    ∀ t ∈ ts, (t.commandWithin true).nesting ≤ s.nesting
  | _, _, .last h => List.forall_mem_singleton.mpr (nesting_of_item h)
  | _, _, .more h hs => by
    rw [nesting_append h.balanced, nesting_other (by decide), List.forall_mem_cons]
    constructor
    · apply (nesting_of_item h).trans (Nat.le_max_left _ _)
    · intro t ht
      apply (nesting_of_items hs t ht).trans (Nat.le_max_right _ _)

theorem nesting_of_item :
  ∀ {s : Text} {t : Tree}, Item s t → (t.commandWithin true).nesting ≤ s.nesting
  | _, _, .primary hu h hv => by
    rw [nesting_append ((Balanced.of_forall hu.noBrackets).append h.balanced),
      nesting_append (Balanced.of_forall hu.noBrackets)]
    apply (nesting_of_primary h).trans
    omega

theorem nesting_of_primary :
  ∀ {s : Text} {t : Tree}, Primary s t → (t.commandWithin true).nesting ≤ s.nesting
  | _, _, .wildcard kind => by
    rw [nesting_wildcard]
    apply Nat.zero_le
  | _, _, .number _ _ => by
    rw [nesting_number]
    apply Nat.zero_le
  | _, _, .name h => by
    rw [nesting_name (regular_of_primary (Primary.name h))]
    apply Nat.zero_le
  | _, _, .bracketed h => by
    rw [nesting_bracketed h.balanced]
    apply (regular_of_command h).nesting_bounds.2.trans
    apply Nat.add_le_add_right (nesting_of_command h)
  | _, _, .call hn hu hs => by
    have hregular := regular_of_primary (Primary.call hn hu hs)
    rw [nesting_append ((Balanced.of_forall (IsWord.of_isName hn).noBrackets).append
      (Balanced.of_forall hu.noBrackets)), nesting_call_le hregular]
    intro t ht
    apply (nesting_of_groups hs t ht).trans_le (Nat.le_max_right _ _)

theorem nesting_of_groups :
  ∀ {s : Text} {ts : List Tree}, Groups s ts →
    ∀ t ∈ ts, (t.commandWithin false).nesting < s.nesting
  | _, _, .last h => by
    rw [nesting_bracketed h.balanced, List.forall_mem_singleton]
    apply Nat.lt_succ_of_le (nesting_of_command h)
  | _, _, .more h hu hs => by
    rw [nesting_append (h.balanced.bracketed.append (Balanced.of_forall hu.noBrackets)),
      nesting_append h.balanced.bracketed, nesting_bracketed h.balanced, List.forall_mem_cons]
    constructor
    · have := nesting_of_command h
      omega
    · intro t ht
      apply (nesting_of_groups hs t ht).trans_le (Nat.le_max_right _ _)

end

/-! ### Spans are not written -/

/-- Spans are not written. -/
theorem commandWithin_bare (t : Tree) (inTuple : Bool) :
  t.bare.commandWithin inTuple = t.commandWithin inTuple
  := by
  induction t using Tree.induction generalizing inTuple with
  | tuple items s ih =>
    have hitems : (items.map bare).map (commandWithin true) = items.map (commandWithin true) := by
      rw [List.map_map]
      apply List.map_congr_left
      intro t ht
      apply ih t ht
    simp only [bare_tuple, commandWithin, commandItems_eq_map, hitems]
  | call n args s ih =>
    rw [bare_call, commandWithin, commandWithin, commandGroups_eq_flatMap,
      commandGroups_eq_flatMap, List.flatMap_map]
    congr 1
    apply List.flatMap_congr
    intro t ht
    rw [ih t ht]
  | _ => rfl

/-- Whether a tree is regular does not depend on spans. -/
theorem regular_bare_iff {t : Tree} :
  t.bare.Regular ↔ t.Regular
  := by
  induction t using Tree.induction with
  | tuple items s ih =>
    rw [bare_tuple, regular_tuple_iff, regular_tuple_iff, List.length_map, List.forall_mem_map]
    apply and_congr_right
    intro _
    apply forall₂_congr ih
  | call n args s ih =>
    rw [bare_call, regular_call_iff, regular_call_iff, List.length_map, List.forall_mem_map]
    apply and_congr_right
    intro _
    apply forall₂_congr ih
  | _ => exact List.forall_mem_singleton.trans (Iff.symm List.forall_mem_singleton)

/-- A tree that was read is regular, and its brackets need not be nested too deeply. -/
theorem regular_of_parse {s : Text} {offset : Nat} {t : Tree} (h : parse s offset = .ok t) :
  t.Regular ∧ t.command.nesting ≤ 256
  := by
  obtain ⟨hcommand, hnesting⟩ :=
    (parseWith_parseInner_iff maxNesting offset s t.bare).mp ⟨t, h, rfl⟩
  constructor
  · apply regular_bare_iff.mp (regular_of_command hcommand)
  · rw [command, ← commandWithin_bare]
    apply (nesting_of_command hcommand).trans hnesting

/-- What was read from a command, written and read again, is an equal tree exactly if each of its
numbers is equal to what its text is read as. -/
theorem parse_command_of_parse_iff {s : Text} {t : Tree} (h : parse s 0 = .ok t) :
  (∃ u, parse t.command 0 = .ok u ∧ (u == t) = true) ↔ t.ReadsBack
  := by
  obtain ⟨hregular, hnesting⟩ := regular_of_parse h
  constructor
  · rintro ⟨u, hu, hbeq⟩
    apply (hregular.retraced traces_readsBack).command hu hbeq
  · intro hback
    apply hback.parse_command hregular hnesting

/-- The numbers of `line((0, 0.5), ((-2), 3))` are read back. -/
theorem parse_command_of_parse_line :
  ∃ t, parse (utf8 "line((0, 0.5), ((-2), 3))") 0 = .ok t ∧ t.ReadsBack
    ∧ ∃ u, parse t.command 0 = .ok u ∧ (u == t) = true
  := by
  let t := call (utf8 "line")
    [tuple [tuple [number 0 ⟨6, 7⟩, number 0.5 ⟨9, 12⟩] ⟨6, 12⟩,
      tuple [number (-2) ⟨17, 19⟩, number 3 ⟨22, 23⟩] ⟨16, 23⟩] ⟨5, 24⟩] ⟨0, 25⟩
  have hparse : parse (utf8 "line((0, 0.5), ((-2), 3))") 0 = .ok t := rfl
  have hback : t.ReadsBack := by
    intro x s hx
    have hnumbers : x = 0 ∧ s = ⟨6, 7⟩ ∨ x = 0.5 ∧ s = ⟨9, 12⟩ ∨ x = -2 ∧ s = ⟨17, 19⟩
        ∨ x = 3 ∧ s = ⟨22, 23⟩ := by
      simpa [t, nodes, nodesList] using hx
    rcases hnumbers with ⟨rfl, -⟩ | ⟨rfl, -⟩ | ⟨rfl, -⟩ | ⟨rfl, -⟩
    · rfl
    · rfl
    · rfl
    · rfl
  exact ⟨t, hparse, hback, (parse_command_of_parse_iff hparse).mpr hback⟩

/-- Not everything that was read is read back: a small number is written with an exponent. -/
theorem not_forall_parse_command_of_parse :
  ¬ ∀ (s : Text) (t : Tree), parse s 0 = .ok t →
    ∃ u, parse t.command 0 = .ok u ∧ (u == t) = true
  := by
  intro h
  let t := number 0.00001 ⟨0, 7⟩
  have hparse : parse (utf8 "0.00001") 0 = .ok t := rfl
  have hcommand : t.command = utf8 "1e-05" := rfl
  have herror : parse (utf8 "1e-05") 0 = .error ⟨.unknownForm (utf8 "1e-05"), 0⟩ := rfl
  obtain ⟨u, hu, -⟩ := h _ t hparse
  rw [hcommand, herror] at hu
  cases hu

end Tree

end Sketch
