import Sketch.Command.Printer
import Sketch.Proofs.NumberText
import Sketch.Proofs.Recognition

/-!
# Writing and reading back

A tree that is written as a command and read back gives an equal tree exactly when its shape is
one that commands can have (`Tree.regular`), its numbers are read back from their texts
(`readsBack`), and its brackets are not nested too deeply.

In one direction, what is written is a command of the grammar, and denotes the tree in which each
number is replaced by what its text is read as (`Tree.command_reread`).  In the other direction,
commands denote regular trees; and a regular tree is read back part by part, so that a relation
between what is read and what was written only has to be looked at for the words of the command
(`Tree.Regular.retraced`).  The text of a number is such a word, so equal trees have numbers that
are read back.
-/

namespace Sketch

/-- Whether a number is equal to what its text is read as. -/
def readsBack (x : Number) : Bool :=
  isPlainNumber (numberText x) && (readNumber? (numberText x)).any (· == x)

/-- What the text of a number is read as, if it is a literal, and the number itself if not. -/
def rereading (x : Number) : Number :=
  if isPlainNumber (numberText x) then (readNumber? (numberText x)).getD x else x

/-- A number is reread as what its text is read as. -/
theorem rereading_eq {x y : Number} (hplain : isPlainNumber (numberText x) = true)
    (hy : readNumber? (numberText x) = some y) :
  rereading x = y
  := by
  rw [rereading, if_pos hplain, hy, Option.getD_some]

namespace Tree

open Grammar Text

/-- Whether the root of a tree is as commands have it: names are names, tuples have at least two
items, and calls have arguments. -/
def regular : Tree → Bool
  | name n _ => n.isName
  | tuple items _ => 2 ≤ items.length
  | call n args _ => n.isName && 1 ≤ args.length
  | number _ _ | wildcard _ _ => true

/-- All nodes of the tree are regular. -/
abbrev Regular (t : Tree) : Prop := ∀ m ∈ t.nodes, m.regular = true

/-- A tuple is regular if it has two items or more, and these are regular. -/
theorem regular_tuple_iff {items : List Tree} {s : Span} :
  (tuple items s).Regular ↔ 2 ≤ items.length ∧ ∀ t ∈ items, t.Regular
  := by
  rw [Regular, forall_nodes, regular, decide_eq_true_iff]
  apply Iff.rfl

/-- A call is regular if it has a name and at least one argument, and its arguments are regular. -/
theorem regular_call_iff {n : Text} {args : List Tree} {s : Span} :
  (call n args s).Regular ↔ (n.isName = true ∧ 1 ≤ args.length) ∧ ∀ t ∈ args, t.Regular
  := by
  rw [Regular, forall_nodes, regular, Bool.and_eq_true, decide_eq_true_iff]
  apply Iff.rfl

/-! ### Commands denote regular trees -/

theorem length_pos_of_groups {s : Text} {ts : List Tree} (h : Groups s ts) :
  1 ≤ ts.length
  := by
  cases h with
  | last => apply Nat.le_refl
  | more => simp

mutual

/-- What the grammar derives are regular trees. -/
theorem regular_of_command :
  ∀ {s : Text} {t : Tree}, Command s t → t.Regular
  | _, _, .item h => regular_of_item h
  | _, _, .tuple h htwo => regular_tuple_iff.mpr ⟨htwo, regular_of_items h⟩

theorem regular_of_items :
  ∀ {s : Text} {ts : List Tree}, Items s ts → ∀ t ∈ ts, t.Regular
  | _, _, .last h => List.forall_mem_singleton.mpr (regular_of_item h)
  | _, _, .more h hs => List.forall_mem_cons.mpr ⟨regular_of_item h, regular_of_items hs⟩

theorem regular_of_item :
  ∀ {s : Text} {t : Tree}, Item s t → t.Regular
  | _, _, .primary _ h _ => regular_of_primary h

theorem regular_of_primary :
  ∀ {s : Text} {t : Tree}, Primary s t → t.Regular
  | _, _, .wildcard _ => List.forall_mem_singleton.mpr rfl
  | _, _, .number _ _ => List.forall_mem_singleton.mpr rfl
  | _, _, .name h => List.forall_mem_singleton.mpr h
  | _, _, .bracketed h => regular_of_command h
  | _, _, .call hn _ hs =>
    regular_call_iff.mpr ⟨⟨hn, length_pos_of_groups hs⟩, regular_of_groups hs⟩

theorem regular_of_groups :
  ∀ {s : Text} {ts : List Tree}, Groups s ts → ∀ t ∈ ts, t.Regular
  | _, _, .last h => List.forall_mem_singleton.mpr (regular_of_command h)
  | _, _, .more h _ hs => List.forall_mem_cons.mpr ⟨regular_of_command h, regular_of_groups hs⟩

end

/-- Every tree of the second list is equal to one of the first list. -/
theorem exists_beq_of_sameList {ts us : List Tree} (h : sameList ts us = true) {u : Tree}
    (hu : u ∈ us) :
  ∃ t ∈ ts, (t == u) = true
  := by
  rw [sameList_iff] at h
  induction h with
  | nil => cases hu
  | @cons t v ts us htv _ ih =>
    rcases List.mem_cons.mp hu with rfl | hu
    · exact ⟨t, List.mem_cons_self, htv⟩
    · obtain ⟨t', ht', hbeq⟩ := ih hu
      exact ⟨t', List.mem_cons_of_mem t ht', hbeq⟩

theorem length_eq_of_sameList {ts us : List Tree} (h : sameList ts us = true) :
  ts.length = us.length
  := List.Forall₂.length_eq ((sameList_iff ts us).mp h)

/-- Trees that are equal to regular ones are regular. -/
theorem Regular.of_beq {t u : Tree} (ht : t.Regular) (h : (t == u) = true) :
  u.Regular
  := by
  induction t using Tree.induction generalizing u with
  | number x s =>
    cases u with
    | number y r => exact List.forall_mem_singleton.mpr rfl
    | _ => cases h
  | name n s =>
    cases u with
    | name m r =>
      rw [name_beq] at h
      obtain rfl := eq_of_beq h
      have hname : n.isName = true := ht (name n s) List.mem_cons_self
      exact List.forall_mem_singleton.mpr hname
    | _ => cases h
  | tuple items s ih =>
    cases u with
    | tuple us r =>
      rw [tuple_beq] at h
      rw [regular_tuple_iff] at ht ⊢
      constructor
      · rw [← length_eq_of_sameList h]
        apply ht.1
      · intro u hu
        obtain ⟨t, htmem, htu⟩ := exists_beq_of_sameList h hu
        apply ih t htmem (ht.2 t htmem) htu
    | _ => cases h
  | call n args s ih =>
    cases u with
    | call m us r =>
      rw [call_beq, Bool.and_eq_true] at h
      obtain ⟨hname, h⟩ := h
      obtain rfl := eq_of_beq hname
      rw [regular_call_iff] at ht ⊢
      constructor
      · rw [← length_eq_of_sameList h]
        apply ht.1
      · intro u hu
        obtain ⟨t, htmem, htu⟩ := exists_beq_of_sameList h hu
        apply ih t htmem (ht.2 t htmem) htu
    | _ => cases h
  | wildcard kind s =>
    cases u with
    | wildcard kind' r => exact List.forall_mem_singleton.mpr rfl
    | _ => cases h

/-! ### What is written is a command -/

/-- The numbers of the tree are written as literals that can be read. -/
def Legible (t : Tree) : Prop :=
  ∀ x s, number x s ∈ t.nodes →
    isPlainNumber (numberText x) = true ∧ (readNumber? (numberText x)).isSome = true

theorem Legible.of_mem_children {t c : Tree} (h : t.Legible) (hc : c ∈ t.children) :
  c.Legible
  := by
  intro x s hx
  apply h x s (mem_nodes_of_mem_children hc hx)

/-- Inside of a tuple, another tuple is written in brackets. -/
theorem commandWithin_true_tuple (items : List Tree) (s : Span) :
  (tuple items s).commandWithin true = Text.bracketed ((tuple items s).commandWithin false)
  := by
  simp [commandWithin]

theorem commaSeparated_cons_cons (a b : Text) (ts : List Text) :
  commaSeparated (a :: b :: ts)
    = a ++ Byte.comma :: ([Byte.space] ++ commaSeparated (b :: ts))
  := by
  have hsep : utf8 ", " = [Byte.comma, Byte.space] := by decide
  rw [commaSeparated, List.intercalate_cons_cons, ← commaSeparated, hsep]
  simp

/-- Items with commas between them are items of the grammar. -/
theorem items_commaSeparated {ss : List Text} {ts : List Tree} (h : List.Forall₂ Item ss ts)
    (hne : ss ≠ []) :
  Items (commaSeparated ss) ts
  := by
  induction h with
  | nil => exact absurd rfl hne
  | @cons s t ss ts hst hrest ih =>
    cases hrest with
    | nil => simpa [commaSeparated] using Items.last hst
    | @cons s' t' ss ts hst' hrest =>
      rw [commaSeparated_cons_cons]
      apply Items.more hst
      have hspace : Blanks [Byte.space] := List.forall_mem_singleton.mpr rfl
      apply Items.before hspace (ih (by simp))

/-- Commands in brackets are arguments of the grammar. -/
theorem groups_flatMap {ts us : List Tree}
    (h : List.Forall₂ (fun t u => Command (t.commandWithin false) u) ts us) (hne : ts ≠ []) :
  Groups (ts.flatMap fun t => Text.bracketed (t.commandWithin false)) us
  := by
  induction h with
  | nil => exact absurd rfl hne
  | @cons t u ts us htu hrest ih =>
    cases hrest with
    | nil => simpa using Groups.last htu
    | @cons t' u' ts us htu' hrest =>
      have := Groups.more htu Blanks.nil (ih (by simp))
      simpa using this

theorem forall₂_map_of_forall {ts : List Tree} {f : Tree → Tree} {R : Tree → Tree → Prop}
    (h : ∀ t ∈ ts, R t (f t)) :
  List.Forall₂ R ts (ts.map f)
  := by
  rw [List.forall₂_map_right_iff, List.forall₂_same]
  apply h

/-- A regular tree with legible numbers is written as a command that denotes the tree in which
numbers are replaced by what their texts are read as.  As part of a tuple it is written as an
item of that kind. -/
theorem command_reread {t : Tree} (hregular : t.Regular) (hlegible : t.Legible) :
  Command (t.commandWithin false) (t.mapNumbers rereading).bare
    ∧ Item (t.commandWithin true) (t.mapNumbers rereading).bare
  := by
  have of_primary : ∀ {s : Text} {u : Tree}, Primary s u → Command s u ∧ Item s u := by
    intro s u h
    exact ⟨Command.item h.item, h.item⟩
  induction t using Tree.induction with
  | number x s =>
    obtain ⟨hplain, hsome⟩ := hlegible x s List.mem_cons_self
    obtain ⟨y, hy⟩ := Option.isSome_iff_exists.mp hsome
    rw [mapNumbers_number, rereading_eq hplain hy]
    apply of_primary (Primary.number ((isPlainNumber_iff _).mp hplain) hy)
  | name n s => apply of_primary (Primary.name (hregular (name n s) List.mem_cons_self))
  | tuple items s ih =>
    obtain ⟨htwo, hitems⟩ := regular_tuple_iff.mp hregular
    have hne : items.map (commandWithin true) ≠ [] := by
      intro h
      rw [List.map_eq_nil_iff.mp h] at htwo
      simp at htwo
    have hforall : List.Forall₂ Item (items.map (commandWithin true))
        (items.map fun t => (t.mapNumbers rereading).bare) := by
      rw [List.forall₂_map_left_iff]
      apply forall₂_map_of_forall
      intro t ht
      apply (ih t ht (hitems t ht) (hlegible.of_mem_children ht)).2
    have hcommand : Command ((tuple items s).commandWithin false)
        ((tuple items s).mapNumbers rereading).bare := by
      rw [commandWithin, commandItems_eq_map, mapNumbers_tuple, bare_tuple, List.map_map]
      apply Command.tuple (items_commaSeparated hforall hne)
      simpa using htwo
    refine ⟨hcommand, ?_⟩
    rw [commandWithin_true_tuple]
    apply (Primary.bracketed hcommand).item
  | call n args s ih =>
    obtain ⟨⟨hname, hone⟩, hargs⟩ := regular_call_iff.mp hregular
    have hne : args ≠ [] := List.ne_nil_of_length_pos hone
    have hforall : List.Forall₂ (fun t u => Command (t.commandWithin false) u) args
        (args.map fun t => (t.mapNumbers rereading).bare) := by
      apply forall₂_map_of_forall
      intro t ht
      apply (ih t ht (hargs t ht) (hlegible.of_mem_children ht)).1
    have hcall := of_primary (Primary.call hname Blanks.nil (groups_flatMap hforall hne))
    simpa [commandWithin, commandGroups_eq_flatMap, Function.comp_def] using hcall
  | wildcard kind s => apply of_primary (Primary.wildcard kind)

/-- The numbers of the tree are equal to what their texts are read as. -/
def ReadsBack (t : Tree) : Prop := ∀ x s, number x s ∈ t.nodes → readsBack x = true

/-- Numbers that are read back are legible. -/
theorem ReadsBack.legible {t : Tree} (h : t.ReadsBack) :
  t.Legible
  := by
  intro x s hx
  have hback := h x s hx
  rw [readsBack, Bool.and_eq_true, Option.any_eq_true] at hback
  obtain ⟨hplain, y, hy, -⟩ := hback
  exact ⟨hplain, Option.isSome_iff_exists.mpr ⟨y, hy⟩⟩

/-- A tree is read back if its root is, in case that is a number, and its children are. -/
theorem readsBack_iff {t : Tree} :
  t.ReadsBack ↔ (∀ x s, t = number x s → readsBack x = true) ∧ ∀ c ∈ t.children, c.ReadsBack
  := by
  have hforall : ∀ u : Tree, u.ReadsBack
      ↔ ∀ m ∈ u.nodes, ∀ x s, m = number x s → readsBack x = true := by
    intro u
    constructor
    · rintro h _ hm x s rfl
      apply h x s hm
    · intro h x s hx
      apply h _ hx x s rfl
  rw [hforall, forall_nodes]
  simp only [hforall]

theorem ReadsBack.of_mem_children {t c : Tree} (h : t.ReadsBack) (hc : c ∈ t.children) :
  c.ReadsBack
  := (readsBack_iff.mp h).2 c hc

theorem sameList_map_self {f : Tree → Tree} {ts : List Tree}
    (h : ∀ t ∈ ts, (f t == t) = true) :
  sameList (ts.map f) ts = true
  := by
  rw [sameList_iff, List.forall₂_map_left_iff, List.forall₂_same]
  apply h

/-- A tree whose numbers are read back is equal to what is read. -/
theorem reread_beq {t : Tree} (h : t.ReadsBack) :
  (t.mapNumbers rereading == t) = true
  := by
  induction t using Tree.induction with
  | number x s =>
    have hback := h x s List.mem_cons_self
    rw [readsBack, Bool.and_eq_true, Option.any_eq_true] at hback
    obtain ⟨hplain, y, hy, hyx⟩ := hback
    rw [mapNumbers_number, rereading_eq hplain hy, number_beq]
    apply hyx
  | name n s =>
    apply beq_self_eq_true n
  | tuple items s ih =>
    rw [mapNumbers_tuple, tuple_beq]
    apply sameList_map_self
    intro t ht
    apply ih t ht (h.of_mem_children ht)
  | call n args s ih =>
    rw [mapNumbers_call, call_beq, beq_self_eq_true, Bool.true_and]
    apply sameList_map_self
    intro t ht
    apply ih t ht (h.of_mem_children ht)
  | wildcard kind s =>
    cases kind with
    | number => rfl
    | tuple => rfl

/-! ### What is read from a written tree -/

/-- A solid text that is spelled by the parts of an item is read as that item. -/
theorem parseWith_spells {inner : Nat → Text → Parsed Tree} {ps : List Part} {s : Text}
    (hps : Spells ps s) (hs : Solid Byte.isBlank s) (position : Nat) :
  parseWith inner position s = parseTrimmed inner position ps
  := by
  have hitem := @parseItem_blanks inner [] [] s ps Blanks.nil Blanks.nil hps hs position
  rw [parseWith_solid hs, ← hps.text, parseLayer_texts inner _ hps.proper,
    segments_of_forall hps.noComma]
  simpa using hitem

/-- A blank before an item moves its position. -/
theorem parseItem_plain_blank {inner : Nat → Text → Parsed Tree} {b : UInt8}
    (hb : Byte.isBlank b = true) (position : Nat) (ps : List Part) :
  parseItem inner position (.plain b :: ps) = parseItem inner (position + 1) ps
  := by
  have hblank : Part.isBlank (.plain b) = true := hb
  rw [parseItem, parseItem, leadingBy, List.takeWhile_cons_of_pos hblank, List.length_cons,
    trimBy, List.dropWhile_cons_of_pos hblank, ← trimBy, ← leadingBy, Nat.add_right_comm,
    Nat.add_assoc]

theorem parseItems_plain_blank {inner : Nat → Text → Parsed Tree} {b : UInt8}
    (hb : Byte.isBlank b = true) (position : Nat) (ps : List Part) (items : List (List Part)) :
  parseItems inner position ((.plain b :: ps) :: items)
    = parseItems inner (position + 1) (ps :: items)
  := by
  have hwidths : position + Part.widths (.plain b :: ps) + 1
      = position + 1 + Part.widths ps + 1 := by
    simp only [Part.widths, Part.width]
    omega
  rw [parseItems, parseItems, parseItem_plain_blank hb, hwidths]

/-- The parts of items that are separated by commas and spaces, if each item has solid parts. What
holds of each item that is read holds of the items of the tuple that is read. -/
theorem exists_parts_commaSeparated {inner : Nat → Text → Parsed Tree} {f : Tree → Text}
    {Q : Tree → Tree → Prop} {items : List Tree} (hne : items ≠ [])
    (h : ∀ t ∈ items, ∃ ps, Spells ps (f t) ∧ Solid Byte.isBlank (f t) ∧
      ∀ position u, parseTrimmed inner position ps = .ok u → Q u t) :
  ∃ ps, Part.texts ps = commaSeparated (items.map f) ∧ Part.AllProper ps
    ∧ Solid Byte.isBlank (commaSeparated (items.map f))
    ∧ (segments ps).2.length + 1 = items.length
    ∧ ∀ position us, parseItems inner position ((segments ps).1 :: (segments ps).2) = .ok us →
      List.Forall₂ Q us items
  := by
  induction items with
  | nil => exact absurd rfl hne
  | cons t items ih =>
    obtain ⟨ps, hps, hsolid, hread⟩ := h t List.mem_cons_self
    have hitem : ∀ position u, parseItem inner position ps = .ok u → Q u t := by
      intro position u hu
      apply hread position u
      have hequation := @parseItem_blanks inner [] [] (f t) ps Blanks.nil Blanks.nil hps hsolid
        position
      simp only [List.map_nil, List.nil_append, List.append_nil, List.length_nil,
        Nat.add_zero] at hequation
      rw [← hequation]
      apply hu
    cases items with
    | nil =>
      have hsegments := segments_of_forall hps.noComma
      refine ⟨ps, ?_, hps.proper, ?_, by simp [hsegments], ?_⟩
      · simp [commaSeparated, hps.text]
      · simpa [commaSeparated] using hsolid
      · intro position us hus
        rw [hsegments] at hus
        obtain ⟨u, hu, hus⟩ := bind_eq_ok_iff.mp hus
        obtain ⟨us', hus', hus⟩ := bind_eq_ok_iff.mp hus
        obtain rfl := Except.ok.inj hus
        obtain rfl := Except.ok.inj hus'
        apply List.Forall₂.cons (hitem position u hu) List.Forall₂.nil
    | cons t' items =>
      obtain ⟨qs, hqs, hproper, hsolids, hlength, hreads⟩ :=
        ih (by simp) (fun v hv => h v (List.mem_cons_of_mem t hv))
      have hspace : segments (.plain Byte.space :: qs)
          = (.plain Byte.space :: (segments qs).1, (segments qs).2) := rfl
      have hsegments := segments_append_comma hps.noComma (.plain Byte.space :: qs)
      rw [hspace] at hsegments
      rw [List.map_cons, List.map_cons, commaSeparated_cons_cons]
      refine ⟨ps ++ .plain Byte.comma :: .plain Byte.space :: qs, ?_, ?_, ?_, ?_, ?_⟩
      · simp [Part.text, hps.text, hqs]
      · apply hps.proper.append
        exact Part.AllProper.cons rfl (Part.AllProper.cons rfl hproper)
      · have := hsolid.append_append [Byte.comma, Byte.space] hsolids
        simpa using this
      · simp [hsegments, hlength]
      · intro position us hus
        rw [hsegments] at hus
        obtain ⟨u, hu, hus⟩ := bind_eq_ok_iff.mp hus
        obtain ⟨us', hus', hus⟩ := bind_eq_ok_iff.mp hus
        obtain rfl := Except.ok.inj hus
        -- The space after the comma belongs to the next segment, and is skipped there.
        rw [parseItems_plain_blank (by decide)] at hus'
        apply List.Forall₂.cons (hitem position u hu) (hreads _ us' hus')

/-- What holds of each argument that is read holds of the arguments of the call that is read. -/
theorem forall₂_of_parseGroups {inner : Nat → Text → Parsed Tree} {f : Tree → Text}
    {Q : Tree → Tree → Prop} {position : Nat} {args us : List Tree}
    (hread : ∀ t ∈ args, ∀ q u, inner q (f t) = .ok u → Q u t)
    (h : parseGroups inner position (args.map fun t => .group (f t)) = .ok us) :
  List.Forall₂ Q us args
  := by
  induction args generalizing position us with
  | nil =>
    obtain rfl := Except.ok.inj h
    apply List.Forall₂.nil
  | cons t args ih =>
    obtain ⟨u, hu, h⟩ := bind_eq_ok_iff.mp h
    obtain ⟨us', hus', h⟩ := bind_eq_ok_iff.mp h
    obtain rfl := Except.ok.inj h
    apply List.Forall₂.cons (hread t List.mem_cons_self position u hu)
    apply ih (fun v hv => hread v (List.mem_cons_of_mem t hv)) hus'

/-- A relation between trees that are read and trees that were written.  It holds of whatever the
text of a number is read as, and of tuples and calls if it holds of their parts. -/
structure Traces (R : Tree → Tree → Prop) : Prop where
  number : ∀ {position : Nat} {x : Number} {u : Tree} (s : Span),
    parseWord position (numberText x) = .ok u → R u (.number x s)
  name : ∀ (n : Text) (r s : Span), R (.name n r) (.name n s)
  tuple : ∀ {us ts : List Tree} (r s : Span), List.Forall₂ R us ts → R (.tuple us r) (.tuple ts s)
  call : ∀ (n : Text) {us ts : List Tree} (r s : Span), List.Forall₂ R us ts →
    R (.call n us r) (.call n ts s)
  wildcard : ∀ (kind : Wildcard) (r s : Span), R (.wildcard kind r) (.wildcard kind s)

/-- The tree is written so that whatever is read is related to it.  This is said of the tree as an
item of a tuple, and of the tree on its own. -/
structure Retraced (R : Tree → Tree → Prop) (t : Tree) : Prop where
  item : ∃ ps, Spells ps (t.commandWithin true) ∧ Solid Byte.isBlank (t.commandWithin true) ∧
    ∀ room position u, parseTrimmed (parseInner room) position ps = .ok u → R u t
  balanced : Balanced (t.commandWithin false)
  command : ∀ {room position : Nat} {u : Tree},
    parseWith (parseInner room) position (t.commandWithin false) = .ok u → R u t

section Retraced

variable {R : Tree → Tree → Prop}

/-- Inside of brackets, the tree is read with less room. -/
theorem Retraced.inner {t : Tree} (h : t.Retraced R) {room position : Nat} {u : Tree}
    (hu : parseInner room position (t.commandWithin false) = .ok u) :
  R u t
  := by
  cases room with
  | zero => cases hu
  | succ room => apply h.command hu

/-- A tree that is written in the same way everywhere only has to be looked at as an item. -/
theorem Retraced.of_item {t : Tree} {ps : List Part}
    (hsame : t.commandWithin false = t.commandWithin true)
    (hps : Spells ps (t.commandWithin true)) (hsolid : Solid Byte.isBlank (t.commandWithin true))
    (hread : ∀ room position u, parseTrimmed (parseInner room) position ps = .ok u → R u t) :
  t.Retraced R
  := by
  constructor
  · exact ⟨ps, hps, hsolid, hread⟩
  · rw [hsame]
    apply hps.balanced
  · intro room position u hu
    rw [hsame, parseWith_spells hps hsolid] at hu
    apply hread room position u hu

/-- A tree that is written as a word is retraced if reading this word leads back to it. -/
theorem Retraced.word {t : Tree} (hsame : t.commandWithin false = t.commandWithin true)
    (hword : IsWord (t.commandWithin true))
    (hread : ∀ position u, parseWord position (t.commandWithin true) = .ok u → R u t) :
  t.Retraced R
  := by
  apply Retraced.of_item hsame (Spells.word hword) hword.solid
  intro room position u hu
  rw [parseTrimmed_word] at hu
  apply hread position u hu

/-- Items with commas between them fall into as many parts, and these lead back to the items. -/
theorem exists_parts_tuple {items : List Tree} (hne : items ≠ [])
    (hitems : ∀ t ∈ items, t.Retraced R) (room : Nat) :
  ∃ ps, Part.texts ps = commaSeparated (items.map (commandWithin true)) ∧ Part.AllProper ps
    ∧ Solid Byte.isBlank (commaSeparated (items.map (commandWithin true)))
    ∧ (segments ps).2.length + 1 = items.length
    ∧ ∀ position us,
      parseItems (parseInner room) position ((segments ps).1 :: (segments ps).2) = .ok us →
        List.Forall₂ R us items
  := by
  apply exists_parts_commaSeparated hne
  intro t ht
  obtain ⟨ps, hps, hsolid, hread⟩ := (hitems t ht).item
  exact ⟨ps, hps, hsolid, hread room⟩

/-- A tuple is retraced if its items are. -/
theorem retraced_tuple (hR : Traces R) {items : List Tree} {s : Span} (htwo : 2 ≤ items.length)
    (hitems : ∀ t ∈ items, t.Retraced R) :
  (tuple items s).Retraced R
  := by
  have hne : items ≠ [] := List.ne_nil_of_length_pos (by omega)
  have hfalse : (tuple items s).commandWithin false
      = commaSeparated (items.map (commandWithin true)) := by
    simp [commandWithin, commandItems_eq_map]
  have hbalanced : Balanced ((tuple items s).commandWithin false) := by
    obtain ⟨ps, htexts, hproper, -⟩ := exists_parts_tuple hne hitems 0
    rw [hfalse, ← htexts]
    apply hproper.balanced
  have hcommand : ∀ {room position : Nat} {u : Tree},
      parseWith (parseInner room) position ((tuple items s).commandWithin false) = .ok u →
        R u (tuple items s) := by
    intro room position u hu
    obtain ⟨ps, htexts, hproper, hsolid, hlength, hread⟩ := exists_parts_tuple hne hitems room
    have htrim : (commaSeparated (items.map (commandWithin true))).trim
        = commaSeparated (items.map (commandWithin true)) := hsolid.trimBy_eq
    rw [hfalse, parseWith, htrim, ← htexts, parseLayer_texts _ _ hproper] at hu
    split at hu
    · next hothers =>
      rw [hothers, List.length_nil] at hlength
      omega
    · obtain ⟨us, hus, hu⟩ := bind_eq_ok_iff.mp hu
      obtain rfl := Except.ok.inj hu
      apply hR.tuple _ s (hread _ us hus)
  constructor
  · rw [commandWithin_true_tuple]
    refine ⟨[.group _], Spells.group hbalanced, solid_bracketed _, ?_⟩
    intro room position u hu
    cases room with
    | zero => cases hu
    | succ room => apply hcommand hu
  · apply hbalanced
  · apply hcommand

/-- The arguments of a call are written as groups, which are solid if there are any. -/
theorem spells_flatMap_bracketed {args : List Tree} (hne : args ≠ [])
    (h : ∀ t ∈ args, Balanced (t.commandWithin false)) :
  Spells (args.map fun t => .group (t.commandWithin false))
      (args.flatMap fun t => Text.bracketed (t.commandWithin false))
    ∧ Solid Byte.isBlank (args.flatMap fun t => Text.bracketed (t.commandWithin false))
  := by
  induction args with
  | nil => exact absurd rfl hne
  | cons t args ih =>
    have hgroup := Spells.group (h t List.mem_cons_self)
    have hsolid := solid_bracketed (t.commandWithin false)
    cases args with
    | nil => simpa using And.intro hgroup hsolid
    | cons t' args =>
      obtain ⟨hgroups, hsolids⟩ := ih (by simp) fun v hv => h v (List.mem_cons_of_mem t hv)
      rw [List.map_cons, List.flatMap_cons]
      constructor
      · apply hgroup.append hgroups
      · simpa using hsolid.append_append [] hsolids

/-- A call is retraced if its arguments are. -/
theorem retraced_call (hR : Traces R) {n : Text} {args : List Tree} {s : Span}
    (hname : n.isName = true) (hone : 1 ≤ args.length) (hargs : ∀ t ∈ args, t.Retraced R) :
  (call n args s).Retraced R
  := by
  have hword := IsWord.of_isName hname
  have htrim : n.trim = n := hword.solid.trimBy_eq
  have htext : (call n args s).commandWithin true
      = n ++ (args.flatMap fun t => Text.bracketed (t.commandWithin false)) := by
    rw [commandWithin, commandGroups_eq_flatMap]
  obtain ⟨hgroups, hsolid⟩ := spells_flatMap_bracketed (List.ne_nil_of_length_pos hone)
    fun t ht => (hargs t ht).balanced
  have hspells := (Spells.word hword).append hgroups
  rw [← htext] at hspells
  refine Retraced.of_item rfl hspells ?_ ?_
  · rw [htext]
    simpa using hword.solid.append_append [] hsolid
  · intro room position u hu
    obtain ⟨first, others, rfl⟩ := List.exists_cons_of_length_pos hone
    rw [List.map_cons, parseTrimmed_call _ _ (Or.inl hword.ne_nil), htrim, if_pos hname] at hu
    obtain ⟨us, hus, hu⟩ := bind_eq_ok_iff.mp hu
    obtain rfl := Except.ok.inj hu
    apply hR.call n _ s
    apply forall₂_of_parseGroups (f := commandWithin false) _ hus
    intro t ht q v hv
    apply (hargs t ht).inner hv

/-- By induction on the tree: the text of a tuple or call is cut again where it was put together,
so the items or arguments that are read are those that were written. -/
theorem Regular.retraced (hR : Traces R) {t : Tree} (h : t.Regular) :
  t.Retraced R
  := by
  induction t using Tree.induction with
  | number x s =>
    refine Retraced.word rfl (isWord_numberText x) ?_
    intro position u hu
    apply hR.number s hu
  | name n s =>
    have hname : n.isName = true := h (name n s) List.mem_cons_self
    refine Retraced.word rfl (IsWord.of_isName hname) ?_
    intro position u hu
    obtain rfl := Except.ok.inj ((parseWord_name hname position).symm.trans hu)
    apply hR.name n
  | tuple items s ih =>
    obtain ⟨htwo, hitems⟩ := regular_tuple_iff.mp h
    apply retraced_tuple hR htwo
    intro t ht
    apply ih t ht (hitems t ht)
  | call n args s ih =>
    obtain ⟨⟨hname, hone⟩, hargs⟩ := regular_call_iff.mp h
    apply retraced_call hR hname hone
    intro t ht
    apply ih t ht (hargs t ht)
  | wildcard kind s =>
    refine Retraced.word rfl (IsWord.wildcard kind) ?_
    intro position u hu
    cases kind with
    | number =>
      obtain rfl := Except.ok.inj hu
      apply hR.wildcard .number
    | tuple =>
      obtain rfl := Except.ok.inj hu
      apply hR.wildcard .tuple

end Retraced

/-! ### Numbers that are read back -/

/-- If the text of a number is read as an equal number, then this number is read back. -/
theorem readsBack_of_parseWord {position : Nat} {x : Number} {t : Tree} {s : Span}
    (h : parseWord position (numberText x) = .ok t) (hbeq : (t == number x s) = true) :
  readsBack x = true
  := by
  have hread := readsWord_parseWord position (numberText x)
  rw [h] at hread
  cases hread with
  | wildcard _ => cases hbeq
  | number hliteral hy =>
    rw [number_beq] at hbeq
    simp [readsBack, (isPlainNumber_iff _).mpr hliteral, hy, hbeq]
  | name _ => cases hbeq

theorem forall_readsBack {us ts : List Tree} (hsame : sameList us ts = true)
    (h : List.Forall₂ (fun u t => (u == t) = true → t.ReadsBack) us ts) :
  ∀ t ∈ ts, t.ReadsBack
  := by
  rw [sameList_iff] at hsame
  induction h with
  | nil => simp
  | @cons u t us ts hut _ ih =>
    obtain ⟨hbeq, hsame⟩ := List.forall₂_cons.mp hsame
    rw [List.forall_mem_cons]
    exact ⟨hut hbeq, ih hsame⟩

/-- If the tree that is read is equal to the one that was written, then the numbers of that one are
read back. -/
theorem traces_readsBack :
  Traces fun u t => (u == t) = true → t.ReadsBack
  := by
  constructor
  · intro position x u s hu hbeq
    rw [readsBack_iff]
    constructor
    · rintro y r heq
      obtain ⟨rfl, -⟩ := Tree.number.inj heq
      apply readsBack_of_parseWord hu hbeq
    · simp [children]
  · intro n r s _
    rw [readsBack_iff]
    simp [children]
  · intro us ts r s h hbeq
    rw [tuple_beq] at hbeq
    rw [readsBack_iff]
    constructor
    · intro x q heq
      cases heq
    · apply forall_readsBack hbeq h
  · intro n us ts r s h hbeq
    rw [call_beq, Bool.and_eq_true] at hbeq
    rw [readsBack_iff]
    constructor
    · intro x q heq
      cases heq
    · apply forall_readsBack hbeq.2 h
  · intro kind r s _
    rw [readsBack_iff]
    simp [children]

/-! ### Reading what is written -/

/-- A regular tree with legible numbers, and with brackets that are not nested too deeply, is read
as the tree in which numbers are replaced by what their texts are read as. -/
theorem parse_command_reread {t : Tree} (hregular : t.Regular) (hlegible : t.Legible)
    (hnesting : t.command.nesting ≤ 256) :
  ∃ u, parse t.command 0 = .ok u ∧ u.bare = (t.mapNumbers rereading).bare
  := (parseWith_parseInner_iff maxNesting 0 t.command _).mpr
    ⟨(command_reread hregular hlegible).1, hnesting⟩

/-- A regular tree whose numbers are read back is read back itself, if its brackets are not nested
too deeply. -/
theorem ReadsBack.parse_command {t : Tree} (h : t.ReadsBack) (hregular : t.Regular)
    (hnesting : t.command.nesting ≤ 256) :
  ∃ u, parse t.command 0 = .ok u ∧ (u == t) = true
  := by
  obtain ⟨u, hu, hbare⟩ := parse_command_reread hregular h.legible hnesting
  refine ⟨u, hu, ?_⟩
  rw [← bare_beq u t, hbare, bare_beq]
  apply reread_beq h

/-- A tree is written as a command that is read back as an equal tree exactly if its nodes are
regular, its numbers are equal to what their texts are read as, and the brackets of the command
are not nested more than 256 deep. -/
theorem parse_command_iff (t : Tree) :
  (∃ u, parse t.command 0 = .ok u ∧ (u == t) = true)
    ↔ t.Regular ∧ t.ReadsBack ∧ t.command.nesting ≤ 256
  := by
  constructor
  · rintro ⟨u, hu, hbeq⟩
    -- The tree that is read is denoted by a command, so it is regular, and `t` is equal to it.
    obtain ⟨hcommand, hnesting⟩ :=
      (parseWith_parseInner_iff maxNesting 0 t.command u.bare).mp ⟨u, hu, rfl⟩
    have hregular : t.Regular := by
      apply (regular_of_command hcommand).of_beq
      rw [bare_beq]
      apply hbeq
    exact ⟨hregular, (hregular.retraced traces_readsBack).command hu hbeq, hnesting⟩
  · rintro ⟨hregular, hback, hnesting⟩
    apply hback.parse_command hregular hnesting

end Tree

end Sketch
