import Sketch.Proofs.Spacing

/-!
# Reading spaced commands

Blanks around punctuation do not matter: a text and the same text spaced out are both read, as trees
that differ in their spans only, or rejected for the same reason (`Tree.parse_spaceOut`).  The error
is then at the same byte, unless the reason is that something is empty: an empty item has no byte
that the error could be at.

`Tree.Alike R` relates the outcomes of reading pieces of such texts.
-/

namespace Sketch

namespace Tree

open Text (Blanks Blanks.nil)

/-! ### Reading items with blanks around them -/

section Items

variable (inner : Nat → Text → Parsed Tree) (position : Nat)

/-- Blank parts after the groups of a call are skipped. -/
theorem parseGroups_append_blanks {e : List Part} (he : ∀ q ∈ e, q.isBlank = true)
    (ps : List Part) :
  parseGroups inner position (ps ++ e) = parseGroups inner position ps
  := by
  induction ps generalizing position with
  | nil =>
    rw [List.nil_append, parseGroups]
    induction e generalizing position with
    | nil => rfl
    | cons q e ih =>
      have hrest : ∀ r ∈ e, r.isBlank = true := fun r hr => he r (List.mem_cons_of_mem q hr)
      have hq : q.isBlank = true := he q List.mem_cons_self
      cases q with
      | plain b =>
        rw [Part.isBlank] at hq
        rw [parseGroups, if_pos hq, ih hrest]
      | group x => cases hq
  | cons q ps ih =>
    cases q with
    | plain b => rw [List.cons_append, parseGroups, parseGroups, ih]
    | group x => rw [List.cons_append, parseGroups, parseGroups, ih]

/-- A word with blanks around it is read as the word without them. -/
theorem parseItem_word (word : Text) :
  parseItem inner position (word.map .plain)
    = parseWord (position + word.leadingBlanks) word.trim
  := by
  rw [parseItem, trimBy_map, leadingBy_map]
  apply parseTrimmed_word inner _ word.trim

/-- An item made of a word and groups, without its surrounding blanks. -/
theorem parseItem_group (word x : Text) (gs : List Part) :
  parseItem inner position (word.map .plain ++ .group x :: gs)
    = parseTrimmed inner (position + word.leadingBlanks)
      ((word.dropWhile Byte.isBlank).map .plain ++ .group x :: trimEndBy Part.isBlank gs)
  := by
  have hx : (Part.group x).isBlank = false := rfl
  rw [parseItem, trimBy_append_cons hx, leadingBy_append_cons hx, leadingBy_map, List.dropWhile_map]
  rfl

/-- Brackets with nothing but blanks around them. -/
theorem parseItem_bracketed {word : Text} {gs : List Part} (hword : Blanks word)
    (hgs : ∀ q ∈ gs, q.isBlank = true) (x : Text) :
  parseItem inner position (word.map .plain ++ .group x :: gs) = inner (position + word.length) x
  := by
  rw [parseItem_group, List.dropWhile_eq_nil_iff.mpr hword, trimEndBy_eq_nil_iff.mpr hgs,
    Text.leadingBlanks, leadingBy_of_forall hword]
  rfl

/-- Brackets with something else than blanks around them are the arguments of a call. -/
theorem parseItem_call {word : Text} {gs : List Part}
    (h : ¬ (Blanks word ∧ ∀ q ∈ gs, q.isBlank = true)) (x : Text) :
  ∃ span, parseItem inner position (word.map .plain ++ .group x :: gs)
    = if word.trim.isName then do
        let args ← parseGroups inner (position + word.length) (.group x :: gs)
        return .call word.trim args span
      else
        rejectAt (position + word.leadingBlanks) (.noFunctionName word.trim)
  := by
  have hne : word.dropWhile Byte.isBlank ≠ [] ∨ trimEndBy Part.isBlank gs ≠ [] := by
    rwa [ne_eq, ne_eq, List.dropWhile_eq_nil_iff, trimEndBy_eq_nil_iff, ← not_and_or]
  have htrim : Text.trim (word.dropWhile Byte.isBlank) = word.trim := by
    have hword : word = word.takeWhile Byte.isBlank ++ word.dropWhile Byte.isBlank ++ [] := by
      rw [List.append_nil, List.takeWhile_append_dropWhile]
    conv_rhs => rw [hword]
    apply (trimBy_surrounded (blanks_takeWhile word) Blanks.nil).symm
  have hlength : word.leadingBlanks + (word.dropWhile Byte.isBlank).length = word.length := by
    rw [Text.leadingBlanks, leadingBy, ← List.length_append, List.takeWhile_append_dropWhile]
  obtain ⟨e, hgs, he⟩ := exists_eq_trimEndBy_append Part.isBlank gs
  have hgroups := parseGroups_append_blanks inner (position + word.length) he
    (.group x :: trimEndBy Part.isBlank gs)
  rw [List.cons_append, ← hgs] at hgroups
  use .ofExtent (position + word.leadingBlanks) (Part.widths
    ((word.dropWhile Byte.isBlank).map .plain ++ .group x :: trimEndBy Part.isBlank gs))
  rw [parseItem_group, parseTrimmed_call inner _ hne, htrim, Nat.add_assoc, hlength, hgroups]

end Items

/-! ### Outcomes that are alike -/

/-- Two outcomes of reading are alike if they are results related by `P`, errors with the same cause
at positions related by `R`, or errors about something empty at any positions. -/
inductive Alike (R : Nat → Nat → Prop) {α : Type} (P : α → α → Prop) : Parsed α → Parsed α → Prop
  | ok {a a' : α} : P a a' → Alike R P (.ok a) (.ok a')
  | rejected {q q' : Nat} (cause : ParseCause) :
    R q q' → Alike R P (rejectAt q cause) (rejectAt q' cause)
  | empty (q q' : Nat) : Alike R P (rejectAt q .empty) (rejectAt q' .empty)

/-- Steps in sequence end alike if they do so one by one. -/
theorem Alike.bind {R : Nat → Nat → Prop} {α β : Type} {P : α → α → Prop} {Q : β → β → Prop}
    {x x' : Parsed α} {f f' : α → Parsed β} (hx : Alike R P x x')
    (hf : ∀ a a', P a a' → Alike R Q (f a) (f' a')) :
  Alike R Q (x >>= f) (x' >>= f')
  := by
  cases hx with
  | ok ha => apply hf _ _ ha
  | rejected cause hR => apply Alike.rejected cause hR
  | empty q q' => apply Alike.empty q q'

/-- Trees that differ in their spans only. -/
def SameTree (t t' : Tree) : Prop := t'.bare = t.bare

/-- Lists of trees that differ in their spans only. -/
def SameTrees (ts ts' : List Tree) : Prop := ts'.map bare = ts.map bare

theorem SameTrees.cons {t t' : Tree} {ts ts' : List Tree} (ht : SameTree t t')
    (hts : SameTrees ts ts') :
  SameTrees (t :: ts) (t' :: ts')
  := by
  rw [SameTrees, List.map_cons, List.map_cons, ht, hts]

theorem SameTrees.call {ts ts' : List Tree} (h : SameTrees ts ts') (f : Text) (span span' : Span) :
  SameTree (.call f ts span) (.call f ts' span')
  := by
  rw [SameTree, bare_call, bare_call, h]

theorem SameTrees.tuple {ts ts' : List Tree} (h : SameTrees ts ts') (span span' : Span) :
  SameTree (.tuple ts span) (.tuple ts' span')
  := by
  rw [SameTree, bare_tuple, bare_tuple, h]

/-! ### Reading spaced texts -/

/-- A word is read alike at corresponding positions. -/
theorem alike_parseWord {R : Nat → Nat → Prop} {p p' : Nat} (hR : R p p') (word : Text) :
  Alike R SameTree (parseWord p word) (parseWord p' word)
  := by
  simp only [parseWord]
  split
  · exact Alike.ok rfl
  · split
    · exact Alike.ok rfl
    · split
      · cases readNumber? word with
        | none => apply Alike.rejected _ hR
        | some x => exact Alike.ok rfl
      · split
        · exact Alike.ok rfl
        · split
          · apply Alike.empty p p'
          · apply Alike.rejected _ hR

/-- What stands in corresponding brackets is read alike if it is spaced. -/
def ReadsAlike (R : Nat → Nat → Prop) (inner : Nat → Text → Parsed Tree) : Prop :=
  ∀ p x p' x', R p p' → Text.Spaced R true (p + 1) x (p' + 1) x' →
    Alike R SameTree (inner p x) (inner p' x')

section Inner

variable {R : Nat → Nat → Prop} {inner : Nat → Text → Parsed Tree} (hinner : ReadsAlike R inner)
  {p p' : Nat}

include hinner

/-- Arguments in brackets are read alike with other blanks around the brackets. -/
theorem alike_parseGroups {loose : Bool} {ps ps' : List Part}
    (h : Part.Spaced R loose p ps p' ps') :
  Alike R SameTrees (parseGroups inner p ps) (parseGroups inner p' ps')
  := by
  induction h with
  | nil hu =>
    rw [← List.nil_append (List.map _ _), parseGroups_append_blanks inner _
      (forall_isBlank_map_plain hu)]
    exact Alike.ok rfl
  | @byte loose p p' u b ps ps' hu _ hR _ ih =>
    rw [parseGroups_blanks hu, parseGroups, parseGroups]
    split
    · apply ih
    · apply Alike.rejected _ hR
  | @group loose p p' u x x' ps ps' hu hR hx _ ih =>
    rw [parseGroups_blanks hu, parseGroups, parseGroups]
    apply Alike.bind (hinner _ _ _ _ hR hx)
    intro arg arg' harg
    apply Alike.bind ih
    intro args args' hargs
    apply Alike.ok (SameTrees.cons harg hargs)

/-- A call is read alike with other blanks before its brackets. -/
theorem alike_parseItem_group {word x : Text} {gs ps' : List Part}
    (hword : ∀ b ∈ word, b ≠ Byte.comma)
    (h : Part.Spaced R true p (word.map .plain ++ .group x :: gs) p' ps') :
  Alike R SameTree (parseItem inner p (word.map .plain ++ .group x :: gs)) (parseItem inner p' ps')
  := by
  obtain ⟨word', x', gs', rfl, hspaced, hR, hx, hgs⟩ := h.of_group hword
  by_cases hbare : Blanks word ∧ ∀ q ∈ gs, q.isBlank = true
  · rw [parseItem_bracketed inner p hbare.1 hbare.2, parseItem_bracketed inner p'
      (hspaced.blanks_iff.mpr hbare.1) (hgs.blanks_iff.mpr hbare.2)]
    apply hinner _ _ _ _ hR hx
  · have hbare' : ¬ (Blanks word' ∧ ∀ q ∈ gs', q.isBlank = true) := by
      rwa [hspaced.blanks_iff, hgs.blanks_iff]
    obtain ⟨span, hread⟩ := parseItem_call inner p hbare x
    obtain ⟨span', hread'⟩ := parseItem_call inner p' hbare' x'
    have hgroups : Part.Spaced R true (p + word.length) (.group x :: gs) (p' + word'.length)
        (.group x' :: gs') := Part.Spaced.group Blanks.nil hR hx hgs
    rw [hread, hread', hspaced.trim]
    split
    · apply Alike.bind (alike_parseGroups hinner hgroups)
      intro args args' hargs
      apply Alike.ok (hargs.call _ _ _)
    · apply Alike.rejected
      -- Without a word, the item starts at its first group.
      by_cases hblank : Blanks word
      · rw [Text.leadingBlanks, Text.leadingBlanks, leadingBy_of_forall hblank,
          leadingBy_of_forall (hspaced.blanks_iff.mpr hblank)]
        apply hR
      · apply hspaced.leadingBlanks hblank

/-- An item is read alike with other blanks around it and before its brackets. -/
theorem alike_parseItem {ps ps' : List Part} (hcomma : ∀ q ∈ ps, q.isComma = false)
    (h : Part.Spaced R true p ps p' ps') :
  Alike R SameTree (parseItem inner p ps) (parseItem inner p' ps')
  := by
  have hplain : ∀ b, .plain b ∈ ps → b ≠ Byte.comma := fun b hb => ne_of_beq_false (hcomma _ hb)
  cases itemForm ps with
  | word word =>
    have hword : ∀ b ∈ word, b ≠ Byte.comma := fun b hb => hplain b (List.mem_map_of_mem hb)
    obtain ⟨word', rfl, hspaced⟩ := h.of_word hword
    rw [parseItem_word, parseItem_word, hspaced.trim]
    by_cases hblank : Blanks word
    · rw [Text.trim, trimBy_of_forall hblank]
      apply Alike.empty _ _
    · apply alike_parseWord (hspaced.leadingBlanks hblank) word.trim
  | bracketed x =>
    have hword : ∀ b ∈ ([] : Text), b ≠ Byte.comma := fun b hb => absurd hb List.not_mem_nil
    apply alike_parseItem_group hinner hword h
  | @groups word gs x _ =>
    have hword : ∀ b ∈ word, b ≠ Byte.comma :=
      fun b hb => hplain b (List.mem_append_left _ (List.mem_map_of_mem hb))
    apply alike_parseItem_group hinner hword h

/-- Items are read alike with other blanks around each of them. -/
theorem alike_parseItems {items items' : List (List Part)}
    (h : Part.ItemsSpaced R p items p' items') :
  Alike R SameTrees (parseItems inner p items) (parseItems inner p' items')
  := by
  induction h with
  | nil => exact Alike.ok rfl
  | cons hcomma hitem _ ih =>
    rw [parseItems, parseItems]
    apply Alike.bind (alike_parseItem hinner hcomma hitem)
    intro t t' ht
    apply Alike.bind ih
    intro ts ts' hts
    apply Alike.ok (SameTrees.cons ht hts)

/-- If brackets are read alike with other blanks in them, then so are layers. -/
theorem alike_parseLayer {s s' : Text} (h : Text.Spaced R true p s p' s') :
  Alike R SameTree (parseLayer inner p s) (parseLayer inner p' s')
  := by
  obtain ⟨hparts, hending⟩ := Layer.spaced_ofText h
  have hitems := hparts.segments
  simp only [parseLayer]
  generalize (Layer.ofText s).ending = ending at hending
  generalize (Layer.ofText s').ending = ending' at hending
  cases hending with
  | unopened hR => apply Alike.rejected _ hR
  | unclosed hR =>
    apply Alike.bind (alike_parseItems hinner hitems.dropLast)
    intro items items' _
    apply Alike.rejected _ hR
  | complete =>
    generalize (segments (Layer.ofText s).parts).2 = others at hitems
    generalize (segments (Layer.ofText s').parts).2 = others' at hitems
    cases hitems with
    | cons hcomma hfirst hothers =>
      cases hothers with
      | nil => apply alike_parseItem hinner hcomma hfirst
      | cons hcomma' hsecond hothers =>
        have hitems := Part.ItemsSpaced.cons hcomma hfirst
          (Part.ItemsSpaced.cons hcomma' hsecond hothers)
        apply Alike.bind (alike_parseItems hinner hitems)
        intro items items' hsame
        apply Alike.ok (hsame.tuple _ _)

theorem alike_parseWith {s s' : Text} (h : Text.Spaced R true p s p' s') :
  Alike R SameTree (parseWith inner p s) (parseWith inner p' s')
  := by
  rw [parseWith, parseWith]
  rcases h.trim with ⟨hs, hs'⟩ | h
  · rw [Text.trim, Text.trim, trimBy_of_forall hs, trimBy_of_forall hs']
    apply Alike.empty _ _
  · apply alike_parseLayer hinner h

end Inner

/-- What stands in brackets is read alike with other blanks, however deep brackets may be nested. -/
theorem readsAlike_parseInner (R : Nat → Nat → Prop) (room : Nat) :
  ReadsAlike R (parseInner room)
  := by
  induction room with
  | zero =>
    intro p x p' x' hR _
    apply Alike.rejected _ hR
  | succ room ih =>
    intro p x p' x' _ hx
    apply alike_parseWith ih hx

/-- Inserting blanks at the ends of a text and next to its brackets and commas changes neither
whether it is read, nor, up to spans, what it is read as.  If it is not read, it is rejected for the
same reason, and at the same byte unless something is empty.  Bytes are followed by `newIndex`,
which leads from each byte to itself and from the end of the text to its end. -/
theorem parse_spaceOut {gap : Nat → Text} {s : Text} (h : Text.Loosens gap s) (offset : Nat) :
  (∀ i < s.length, (Text.spaceOut gap s)[Text.newIndex gap i]? = s[i]?)
    ∧ Text.newIndex gap s.length = (Text.spaceOut gap s).length
    ∧ ((∃ t', parse (Text.spaceOut gap s) offset = .ok t') ↔ ∃ t, parse s offset = .ok t)
    ∧ (∀ t t', parse s offset = .ok t → parse (Text.spaceOut gap s) offset = .ok t' →
      t'.bare = t.bare)
    ∧ ∀ e, parse s offset = .error e →
      ∃ e', parse (Text.spaceOut gap s) offset = .error e' ∧ e'.kind = e.kind ∧ e'.cause = e.cause
        ∧ (e.cause = .empty ∨ ∃ i < s.length,
          e.position.toNat = (offset + i) % UInt64.size
            ∧ e'.position.toNat = (offset + Text.newIndex gap i) % UInt64.size)
  := by
  refine ⟨fun i hi => Text.getElem?_spaceOut gap hi, Text.newIndex_length gap s, ?_⟩
  have halike := alike_parseWith (readsAlike_parseInner _ maxNesting) (h.spaced offset)
  rw [parse, parse]
  generalize parseWith (parseInner maxNesting) offset s = x at halike
  generalize parseWith (parseInner maxNesting) offset (Text.spaceOut gap s) = x' at halike
  cases halike with
  | @ok t t' hsame =>
    refine ⟨iff_of_true ⟨t', rfl⟩ ⟨t, rfl⟩, ?_, ?_⟩
    · rintro _ _ ⟨⟩ ⟨⟩
      apply hsame
    · rintro e ⟨⟩
  | @rejected q q' cause hR =>
    obtain ⟨i, hi, rfl, rfl⟩ := hR
    refine ⟨?_, ?_, ?_⟩
    · simp [rejectAt]
    · rintro t t' ⟨⟩
    · rintro e ⟨⟩
      exact ⟨_, rfl, rfl, rfl, Or.inr ⟨i, hi, UInt64.toNat_ofNat', UInt64.toNat_ofNat'⟩⟩
  | empty q q' =>
    refine ⟨?_, ?_, ?_⟩
    · simp [rejectAt]
    · rintro t t' ⟨⟩
    · rintro e ⟨⟩
      exact ⟨_, rfl, rfl, rfl, Or.inl rfl⟩

/-- The form `1a` is unknown wherever it stands, and with whatever blanks. -/
theorem parse_spaceOut_unknown_form :
  Text.Loosens (fun i => if i = 5 then [] else utf8 " ") (utf8 "f(x,1a)")
    ∧ parse (utf8 "f(x,1a)") 0 = .error ⟨.unknownForm (utf8 "1a"), 4⟩
    ∧ ∃ e, parse (utf8 " f ( x , 1a ) ") 0 = .error e ∧ e.cause = .unknownForm (utf8 "1a")
      ∧ e.position.toNat = 9
  := by
  have hloosens : Text.Loosens (fun i => if i = 5 then [] else utf8 " ") (utf8 "f(x,1a)") := by
    constructor
    · intro i _
      split
      · apply Blanks.nil
      · exact List.forall_mem_singleton.mpr rfl
    · intro i hpos hlt hgap
      match i, hpos, hlt, hgap with
      | 1, _, _, _ => exact ⟨Byte.openBracket, Or.inr rfl, rfl⟩
      | 2, _, _, _ => exact ⟨Byte.openBracket, Or.inl rfl, rfl⟩
      | 3, _, _, _ => exact ⟨Byte.comma, Or.inr rfl, rfl⟩
      | 4, _, _, _ => exact ⟨Byte.comma, Or.inl rfl, rfl⟩
      | 5, _, _, hgap => apply absurd rfl hgap
      | 6, _, _, _ => exact ⟨Byte.closeBracket, Or.inr rfl, rfl⟩
  have hread : parse (utf8 "f(x,1a)") 0 = .error ⟨.unknownForm (utf8 "1a"), 4⟩ := rfl
  obtain ⟨-, -, -, -, herror⟩ := parse_spaceOut hloosens 0
  obtain ⟨e, he, -, hcause, hempty | ⟨i, hi, hposition, hposition'⟩⟩ := herror _ hread
  · cases hempty
  · have hlt : i < 7 := hi
    have hi : 4 = (0 + i) % 2 ^ 64 := hposition
    obtain rfl : i = 4 := by omega
    exact ⟨hloosens, hread, e, he, hcause, hposition'⟩

end Tree

end Sketch
