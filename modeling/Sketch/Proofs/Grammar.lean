import Sketch.Number.Literal
import Sketch.Proofs.Layers
import Sketch.Proofs.Trees

/-!
# The grammar of commands

A command is an item, or several items separated by commas, which make up a tuple.  An item is a
primary with blanks around it.  A primary is a wildcard, a number literal, a name, a command in
brackets, or a call: a name followed by one or more commands in brackets, with blanks before each
of these.

The judgements relate a text to the tree it denotes, without spans.  Texts that they accept are
balanced, blanks around a command do not matter, and primaries neither start nor end with blanks.
-/

namespace Sketch

/-! ### Words -/

namespace Byte

/-- The bytes that words are made of: no blanks, brackets or commas. -/
def isWord (b : UInt8) : Bool := !isBlank b && !isBracket b && b != comma

/-- The bytes of words are those that are not blank, no brackets and no commas. -/
theorem isWord_iff {b : UInt8} :
  isWord b = true ↔ isBlank b = false ∧ isBracket b = false ∧ b ≠ comma
  := by
  simp [isWord, and_assoc]

theorem isBracket_of_isBlank {b : UInt8} (h : isBlank b = true) :
  isBracket b = false
  := by
  grind [isBlank, isBracket, openBracket, closeBracket]

theorem ne_comma_of_isBlank {b : UInt8} (h : isBlank b = true) :
  b ≠ comma
  := by
  grind [isBlank, comma]

/-- The bytes of names are bytes of words. -/
theorem isWord_of_isNameByte {b : UInt8} (h : isNameByte b = true) :
  isWord b = true
  := by
  grind [isNameByte, isNameStart, isDigit, underscore, isWord, isBlank, isBracket, openBracket,
    closeBracket, comma]

theorem isWord_of_isDigit {b : UInt8} (h : isDigit b = true) :
  isWord b = true
  := by
  apply isWord_of_isNameByte
  rw [isNameByte, h, Bool.or_true]

end Byte

namespace Text

/-- A word is made of word bytes, of which it has at least one. -/
structure IsWord (t : Text) : Prop where
  ne_nil : t ≠ []
  bytes : ∀ b ∈ t, Byte.isWord b = true

/-- A word neither begins nor ends with a blank. -/
theorem IsWord.solid {t : Text} (h : IsWord t) :
  Solid Byte.isBlank t
  := by
  apply Solid.of_forall h.ne_nil
  intro b hb
  apply (Byte.isWord_iff.mp (h.bytes b hb)).1

theorem IsWord.noBrackets {t : Text} (h : IsWord t) :
  ∀ b ∈ t, Byte.isBracket b = false
  := by
  intro b hb
  apply (Byte.isWord_iff.mp (h.bytes b hb)).2.1

/-- Names are words. -/
theorem IsWord.of_isName {t : Text} (h : t.isName = true) :
  IsWord t
  := by
  cases t with
  | nil => simp [isName] at h
  | cons b t =>
    simp only [isName, Bool.and_eq_true, List.all_eq_true] at h
    constructor
    · simp
    · intro c hc
      apply Byte.isWord_of_isNameByte
      rcases List.mem_cons.mp hc with rfl | hc
      · rw [Byte.isNameByte, h.1, Bool.true_or]
      · apply h.2 c hc

/-- Wildcards are words. -/
theorem IsWord.wildcard (kind : Wildcard) :
  IsWord kind.text
  := by
  cases kind with
  | number =>
    constructor
    · decide
    · apply List.all_eq_true.mp rfl
  | tuple =>
    constructor
    · decide
    · apply List.all_eq_true.mp rfl

/-- A text of blanks. -/
abbrev Blanks (t : Text) : Prop := ∀ b ∈ t, Byte.isBlank b = true

theorem Blanks.noBrackets {t : Text} (h : Blanks t) :
  ∀ b ∈ t, Byte.isBracket b = false
  := by
  intro b hb
  apply Byte.isBracket_of_isBlank (h b hb)

theorem Blanks.append {s t : Text} (hs : Blanks s) (ht : Blanks t) :
  Blanks (s ++ t)
  := by
  intro b hb
  rcases List.mem_append.mp hb with hb | hb
  · apply hs b hb
  · apply ht b hb

theorem Blanks.nil :
  Blanks []
  := fun _ h => absurd h List.not_mem_nil

end Text

namespace Grammar

open Text

/-! ### Number literals -/

/-- Number literals: an optional minus sign, one or more digits, and optionally a point that is
followed by any number of digits. -/
inductive Literal : Text → Prop
  | whole {sign digits : Text} :
    sign = [] ∨ sign = [Byte.minus] → digits ≠ [] → (∀ b ∈ digits, Byte.isDigit b = true) →
      Literal (sign ++ digits)
  | fraction {sign digits places : Text} :
    sign = [] ∨ sign = [Byte.minus] → digits ≠ [] → (∀ b ∈ digits, Byte.isDigit b = true) →
      (∀ b ∈ places, Byte.isDigit b = true) → Literal (sign ++ digits ++ Byte.point :: places)

/-- What is split off from a text is a minus sign, or nothing. -/
theorem exists_eq_append_splitMinus (t : Text) :
  ∃ sign, t = sign ++ (splitMinus t).2 ∧ (sign = [] ∨ sign = [Byte.minus])
  := by
  cases t with
  | nil => exact ⟨[], rfl, Or.inl rfl⟩
  | cons b t =>
    rw [splitMinus]
    split
    · next hb =>
      obtain rfl := eq_of_beq hb
      exact ⟨[Byte.minus], rfl, Or.inr rfl⟩
    · exact ⟨[], rfl, Or.inl rfl⟩

/-- A sign before digits is split off, and nothing else. -/
theorem splitMinus_append {sign digits : Text} (hsign : sign = [] ∨ sign = [Byte.minus])
    (hne : digits ≠ []) (hdigits : ∀ b ∈ digits, Byte.isDigit b = true) (t : Text) :
  (splitMinus (sign ++ digits ++ t)).2 = digits ++ t
  := by
  rcases hsign with rfl | rfl
  · obtain ⟨b, rest, rfl⟩ := List.exists_cons_of_ne_nil hne
    have hb : (b == Byte.minus) = false := by
      have := hdigits b List.mem_cons_self
      grind [Byte.isDigit, Byte.minus]
    rw [List.nil_append, List.cons_append, splitMinus, hb]
    rfl
  · simp [splitMinus]

/-- Being written as commands write numbers is a test for literals. -/
theorem isPlainNumber_iff (t : Text) :
  isPlainNumber t = true ↔ Literal t
  := by
  constructor
  · intro h
    obtain ⟨sign, ht, hsign⟩ := exists_eq_append_splitMinus t
    rw [ht]
    revert h
    rw [isPlainNumber]
    generalize (splitMinus t).2 = unsigned
    intro h
    simp only [Bool.and_eq_true, Bool.not_eq_true', List.isEmpty_eq_false_iff,
      List.isEmpty_iff] at h
    obtain ⟨hwhole, hrest⟩ := h
    have hdigits : ∀ b ∈ unsigned.takeWhile Byte.isDigit, Byte.isDigit b = true := by
      intro b hb
      apply List.all_eq_true.mp List.all_takeWhile b hb
    rw [← List.takeWhile_append_dropWhile (p := Byte.isDigit) (l := unsigned)]
    cases hdrop : unsigned.dropWhile Byte.isDigit with
    | nil =>
      rw [List.append_nil]
      apply Literal.whole hsign hwhole hdigits
    | cons b places =>
      rw [hdrop, splitFraction] at hrest
      split at hrest
      · next hb =>
        obtain rfl := eq_of_beq hb
        rw [← List.append_assoc]
        apply Literal.fraction hsign hwhole hdigits
        apply List.dropWhile_eq_nil_iff.mp hrest
      · cases hrest
  · intro h
    cases h with
    | @whole sign digits hsign hne hdigits =>
      have hsplit := splitMinus_append hsign hne hdigits []
      rw [List.append_nil, List.append_nil] at hsplit
      have htake : digits.takeWhile Byte.isDigit = digits :=
        List.takeWhile_eq_self_iff.mpr hdigits
      have hdrop : digits.dropWhile Byte.isDigit = [] := List.dropWhile_eq_nil_iff.mpr hdigits
      rw [isPlainNumber, hsplit, htake, hdrop]
      simp [splitFraction, hne]
    | @fraction sign digits places hsign hne hdigits hplaces =>
      have hsplit := splitMinus_append hsign hne hdigits (Byte.point :: places)
      have hpoint : Byte.isDigit Byte.point = false := by decide
      have htake : (digits ++ Byte.point :: places).takeWhile Byte.isDigit = digits := by
        rw [List.takeWhile_append_of_pos hdigits, List.takeWhile_cons_of_neg (by simp [hpoint]),
          List.append_nil]
      have hdrop : (digits ++ Byte.point :: places).dropWhile Byte.isDigit
          = Byte.point :: places := by
        rw [List.dropWhile_append_of_pos hdigits, List.dropWhile_cons_of_neg (by simp [hpoint])]
      have hrest : places.dropWhile Byte.isDigit = [] := List.dropWhile_eq_nil_iff.mpr hplaces
      rw [isPlainNumber, hsplit, htake, hdrop]
      simp [splitFraction, hrest, hne]

/-- Literals are words. -/
theorem Literal.isWord {t : Text} (h : Literal t) :
  IsWord t
  := by
  have hminus : ∀ {sign : Text}, sign = [] ∨ sign = [Byte.minus] →
      ∀ b ∈ sign, Byte.isWord b = true := by
    rintro sign (rfl | rfl) b hb
    · simp at hb
    · rw [List.mem_singleton.mp hb]
      decide
  cases h with
  | @whole sign digits hsign hne hdigits =>
    constructor
    · simp [hne]
    · intro b hb
      rcases List.mem_append.mp hb with hb | hb
      · apply hminus hsign b hb
      · apply Byte.isWord_of_isDigit (hdigits b hb)
  | @fraction sign digits places hsign hne hdigits hplaces =>
    constructor
    · simp
    · intro b hb
      rcases List.mem_append.mp hb with hb | hb
      · rcases List.mem_append.mp hb with hb | hb
        · apply hminus hsign b hb
        · apply Byte.isWord_of_isDigit (hdigits b hb)
      · rcases List.mem_cons.mp hb with rfl | hb
        · decide
        · apply Byte.isWord_of_isDigit (hplaces b hb)

/-! ### Judgements -/

mutual

/-- A command is one item, or the tuple of several items. -/
inductive Command : Text → Tree → Prop
  | item {s : Text} {t : Tree} : Item s t → Command s t
  | tuple {s : Text} {ts : List Tree} :
    Items s ts → 2 ≤ ts.length → Command s (.tuple ts .nowhere)

/-- Items are separated by commas. -/
inductive Items : Text → List Tree → Prop
  | last {s : Text} {t : Tree} : Item s t → Items s [t]
  | more {s r : Text} {t : Tree} {ts : List Tree} :
    Item s t → Items r ts → Items (s ++ Byte.comma :: r) (t :: ts)

/-- An item is a primary with blanks around it. -/
inductive Item : Text → Tree → Prop
  | primary {u s v : Text} {t : Tree} :
    Blanks u → Primary s t → Blanks v → Item (u ++ s ++ v) t

/-- A primary is a wildcard, a number, a name, a command in brackets or a call. -/
inductive Primary : Text → Tree → Prop
  | wildcard (kind : Wildcard) : Primary kind.text (.wildcard kind .nowhere)
  | number {s : Text} {x : Number} :
    Literal s → readNumber? s = some x → Primary s (.number x .nowhere)
  | name {s : Text} : s.isName = true → Primary s (.name s .nowhere)
  | bracketed {s : Text} {t : Tree} : Command s t → Primary (Text.bracketed s) t
  | call {n u s : Text} {ts : List Tree} :
    n.isName = true → Blanks u → Groups s ts → Primary (n ++ u ++ s) (.call n ts .nowhere)

/-- The arguments of a call are commands in brackets, with blanks between them. -/
inductive Groups : Text → List Tree → Prop
  | last {s : Text} {t : Tree} : Command s t → Groups (Text.bracketed s) [t]
  | more {s u r : Text} {t : Tree} {ts : List Tree} :
    Command s t → Blanks u → Groups r ts → Groups (Text.bracketed s ++ u ++ r) (t :: ts)

end

/-! ### Brackets match -/

mutual

/-- The brackets of a command match, and so do those of its parts. -/
theorem Command.balanced :
  ∀ {s : Text} {t : Tree}, Command s t → Balanced s
  | _, _, .item h => h.balanced
  | _, _, .tuple h _ => h.balanced

theorem Items.balanced :
  ∀ {s : Text} {ts : List Tree}, Items s ts → Balanced s
  | _, _, .last h => h.balanced
  | _, _, .more h hs => h.balanced.append (Closes.other (by decide) hs.balanced)

theorem Item.balanced :
  ∀ {s : Text} {t : Tree}, Item s t → Balanced s
  | _, _, .primary hu h hv =>
    ((Balanced.of_forall hu.noBrackets).append h.balanced).append
      (Balanced.of_forall hv.noBrackets)

theorem Primary.balanced :
  ∀ {s : Text} {t : Tree}, Primary s t → Balanced s
  | _, _, .wildcard kind => Balanced.of_forall (IsWord.wildcard kind).noBrackets
  | _, _, .number h _ => Balanced.of_forall h.isWord.noBrackets
  | _, _, .name h => Balanced.of_forall (IsWord.of_isName h).noBrackets
  | _, _, .bracketed h => h.balanced.bracketed
  | _, _, .call hn hu hs =>
    ((Balanced.of_forall (IsWord.of_isName hn).noBrackets).append
      (Balanced.of_forall hu.noBrackets)).append hs.balanced

theorem Groups.balanced :
  ∀ {s : Text} {ts : List Tree}, Groups s ts → Balanced s
  | _, _, .last h => h.balanced.bracketed
  | _, _, .more h hu hs =>
    (h.balanced.bracketed.append (Balanced.of_forall hu.noBrackets)).append hs.balanced

end

/-! ### Blanks around commands -/

/-- A text in brackets neither begins nor ends with a blank. -/
theorem solid_bracketed (s : Text) :
  Solid Byte.isBlank (Text.bracketed s)
  := by
  constructor
  · exact ⟨Byte.openBracket, s ++ [Byte.closeBracket], rfl, rfl⟩
  · exact ⟨Byte.openBracket :: s, Byte.closeBracket, rfl, rfl⟩

/-- Arguments in brackets neither begin nor end with a blank. -/
theorem Groups.solid :
  ∀ {s : Text} {ts : List Tree}, Groups s ts → Solid Byte.isBlank s
  | _, _, .last (s := s) _ => solid_bracketed s
  | _, _, .more (s := s) (u := u) _ _ hs => (solid_bracketed s).append_append u hs.solid

/-- Primaries neither start nor end with blanks. -/
theorem Primary.solid {s : Text} {t : Tree} (h : Primary s t) :
  Solid Byte.isBlank s
  := by
  cases h with
  | wildcard kind => apply (IsWord.wildcard kind).solid
  | number h _ => apply h.isWord.solid
  | name h => apply (IsWord.of_isName h).solid
  | @bracketed s t h => apply solid_bracketed s
  | @call n u s ts hn hu hs => apply (IsWord.of_isName hn).solid.append_append u hs.solid

/-- An item need not have blanks around it. -/
theorem Primary.item {s : Text} {t : Tree} (h : Primary s t) :
  Item s t
  := by
  have := Item.primary Blanks.nil h Blanks.nil
  rwa [List.nil_append, List.append_nil] at this

/-- Blanks may stand around an item. -/
theorem Item.surround {u s v : Text} {t : Tree} (hu : Blanks u) (h : Item s t) (hv : Blanks v) :
  Item (u ++ s ++ v) t
  := by
  obtain ⟨hu', h, hv'⟩ := h
  have := Item.primary (hu.append hu') h (hv'.append hv)
  simpa using this

/-- Blanks may stand before the first of several items. -/
theorem Items.before :
  ∀ {u s : Text} {ts : List Tree}, Blanks u → Items s ts → Items (u ++ s) ts
  | u, s, _, hu, .last h => by
    have := Items.last (h.surround hu Blanks.nil)
    simpa using this
  | u, _, _, hu, .more h hs => by
    have := Items.more (h.surround hu Blanks.nil) hs
    simpa using this

/-- Blanks may stand after the last of several items. -/
theorem Items.after :
  ∀ {s v : Text} {ts : List Tree}, Items s ts → Blanks v → Items (s ++ v) ts
  | _, _, _, .last h, hv => Items.last (h.surround Blanks.nil hv)
  | _, _, _, .more h hs, hv => by
    have := Items.more h (hs.after hv)
    simpa using this

/-- Blanks may be put around a command. -/
theorem Command.surround {u s v : Text} {t : Tree} (hu : Blanks u) (h : Command s t)
    (hv : Blanks v) :
  Command (u ++ s ++ v) t
  := by
  cases h with
  | item h => apply Command.item (h.surround hu hv)
  | tuple h htwo => apply Command.tuple ((h.before hu).after hv) htwo

/-- The blanks around several items belong to the first and to the last one, and may be left out. -/
theorem Items.exists_solid :
  ∀ {s : Text} {ts : List Tree}, Items s ts →
    ∃ u m v, s = u ++ m ++ v ∧ Blanks u ∧ Blanks v ∧ Solid Byte.isBlank m ∧ Items m ts
  | _, _, .last (.primary (u := u) (s := s) (v := v) hu h hv) => by
    exact ⟨u, s, v, rfl, hu, hv, h.solid, Items.last h.item⟩
  | _, _, .more (.primary (u := u) (s := s) (v := v) hu h hv) hs => by
    obtain ⟨u', m, v', rfl, hu', hv', hm, hitems⟩ := hs.exists_solid
    refine ⟨u, s ++ v ++ Byte.comma :: (u' ++ m), v', by simp, hu, hv', ?_, ?_⟩
    · obtain ⟨b, rest, rfl, hb⟩ := h.solid.head
      obtain ⟨init, c, rfl, hc⟩ := hm.last
      constructor
      · exact ⟨b, rest ++ v ++ Byte.comma :: (u' ++ (init ++ [c])), by simp, hb⟩
      · exact ⟨b :: rest ++ v ++ Byte.comma :: (u' ++ init), c, by simp, hc⟩
    · apply Items.more (Item.primary Blanks.nil h hv) (hitems.before hu')

/-- Every command is a command without surrounding blanks, put between blanks. -/
theorem Command.exists_solid {s : Text} {t : Tree} (h : Command s t) :
  ∃ u m v, s = u ++ m ++ v ∧ Blanks u ∧ Blanks v ∧ Solid Byte.isBlank m ∧ Command m t
  := by
  cases h with
  | item h =>
    obtain ⟨u, m, v, hs, hu, hv, hm, hitems⟩ := (Items.last h).exists_solid
    cases hitems with
    | last hitem => exact ⟨u, m, v, hs, hu, hv, hm, Command.item hitem⟩
    | more _ hs => cases hs
  | tuple h htwo =>
    obtain ⟨u, m, v, hs, hu, hv, hm, hitems⟩ := h.exists_solid
    exact ⟨u, m, v, hs, hu, hv, hm, Command.tuple hitems htwo⟩

end Grammar

end Sketch
