import Sketch.Proofs.Positions

/-!
# Closing brackets that close nothing

A closing bracket of a text is unmatched if no bracket is open when a scan from left to right comes
to it.  A text with such a bracket is rejected because of it, at the first one, whatever else is
wrong with the text; and no other text is rejected for this reason
(`Tree.parse_unmatched_closing`).

The outermost layer of a text ends at the first unmatched closing bracket, if there is one
(`Layer.firstUnmatchedAt_of_unopened`), and the end of the layer is looked at before its parts.
What is read afterwards are the contents of groups.  They are balanced, so no further unmatched
bracket comes up.
-/

namespace Sketch

namespace Text

/-! ### Unmatched closing brackets -/

/-- The number of brackets that are open after a byte, if `depth` brackets are open before it.  A
bracket that closes nothing does not count. -/
def openAfterByte (depth : Nat) (b : UInt8) : Nat :=
  if b == Byte.openBracket then depth + 1
  else if b == Byte.closeBracket then depth - 1
  else depth

@[simp]
theorem openAfterByte_opening (depth : Nat) :
  openAfterByte depth Byte.openBracket = depth + 1
  := rfl

@[simp]
theorem openAfterByte_closing (depth : Nat) :
  openAfterByte depth Byte.closeBracket = depth - 1
  := rfl

/-- Other bytes than brackets do not change how many brackets are open. -/
theorem openAfterByte_other {b : UInt8} (hb : Byte.isBracket b = false) (depth : Nat) :
  openAfterByte depth b = depth
  := by
  simp only [Byte.isBracket, Bool.or_eq_false_iff] at hb
  simp [openAfterByte, hb.1, hb.2]

/-- The number of brackets that are open after a text, if `depth` brackets are open before it. -/
def openAfter (depth : Nat) (t : Text) : Nat := t.foldl openAfterByte depth

/-- The byte at the index is `b`, and `n` brackets are open before it if `depth` brackets are open
before the text. -/
def StandsAt (b : UInt8) (n depth : Nat) (t : Text) (i : Nat) : Prop :=
  t[i]? = some b ∧ openAfter depth (t.take i) = n

/-- A text that follows another one is scanned with the brackets open that the other one leaves
open. -/
theorem standsAt_append {b : UInt8} {n depth : Nat} {s t : Text} {i : Nat} :
  StandsAt b n depth (s ++ t) i
    ↔ StandsAt b n depth s i ∨ s.length ≤ i ∧ StandsAt b n (openAfter depth s) t (i - s.length)
  := by
  rcases Nat.lt_or_ge i s.length with hi | hi
  · have hnot : ¬s.length ≤ i := by omega
    rw [StandsAt, List.getElem?_append_left hi, List.take_append_of_le_length hi.le]
    simp only [hnot, false_and, or_false]
    apply Iff.rfl
  · have hnone : ¬StandsAt b n depth s i := by
      rintro ⟨hs, -⟩
      rw [List.getElem?_eq_none hi] at hs
      cases hs
    have htake : (s ++ t).take i = s ++ t.take (i - s.length) := by
      rw [List.take_append, List.take_of_length_le hi]
    rw [StandsAt, List.getElem?_append_right hi, htake, openAfter, List.foldl_append]
    simp only [hnone, hi, true_and, false_or]
    apply Iff.rfl

/-- The byte at the index is a closing bracket, and no bracket is open before it if `depth` brackets
are open before the text. -/
abbrev UnmatchedFrom (depth : Nat) (t : Text) (i : Nat) : Prop :=
  StandsAt Byte.closeBracket 0 depth t i

/-- The byte at the index is a closing bracket that closes nothing. -/
abbrev UnmatchedAt (t : Text) (i : Nat) : Prop := UnmatchedFrom 0 t i

/-- The byte at the index is the first closing bracket that closes nothing. -/
structure FirstUnmatchedAt (t : Text) (i : Nat) : Prop where
  unmatched : UnmatchedAt t i
  first : ∀ j < i, ¬UnmatchedAt t j

/-- There is only one first unmatched bracket. -/
theorem FirstUnmatchedAt.unique {t : Text} {i j : Nat} (hi : FirstUnmatchedAt t i)
    (hj : FirstUnmatchedAt t j) :
  i = j
  := by
  rcases Nat.lt_trichotomy i j with h | h | h
  · exact absurd hi.unmatched (hj.first i h)
  · exact h
  · exact absurd hj.unmatched (hi.first j h)

/-- What follows does not change the first unmatched bracket. -/
theorem FirstUnmatchedAt.append_right {t : Text} {i : Nat} (h : FirstUnmatchedAt t i) (v : Text) :
  FirstUnmatchedAt (t ++ v) i
  := by
  have hi : i < t.length := (List.getElem?_eq_some_iff.mp h.unmatched.1).1
  constructor
  · apply standsAt_append.mpr (Or.inl h.unmatched)
  · intro j hj hunmatched
    rcases standsAt_append.mp hunmatched with hunmatched | ⟨hle, -⟩
    · apply h.first j hj hunmatched
    · omega

/-- No closing bracket of the text is unmatched if `depth` brackets are open before it. -/
abbrev Guarded (depth : Nat) (t : Text) : Prop := ∀ i, ¬UnmatchedFrom depth t i

theorem guarded_nil (depth : Nat) :
  Guarded depth []
  := by
  rintro i ⟨h, -⟩
  cases h

/-- Texts in sequence are guarded if the second one is so by the brackets that the first one leaves
open. -/
theorem Guarded.append {depth : Nat} {s t : Text} (hs : Guarded depth s)
    (ht : Guarded (openAfter depth s) t) :
  Guarded depth (s ++ t)
  := by
  intro i h
  rcases standsAt_append.mp h with h | ⟨-, h⟩
  · apply hs i h
  · apply ht _ h

/-- A text is guarded if there is a bracket for a closing one at its beginning, and its rest is
guarded. -/
theorem Guarded.cons {depth : Nat} {b : UInt8} {t : Text}
    (hb : b = Byte.closeBracket → depth ≠ 0) (ht : Guarded (openAfterByte depth b) t) :
  Guarded depth (b :: t)
  := by
  rintro (_ | i) ⟨hbyte, hopen⟩
  · apply hb (Option.some.inj hbyte) hopen
  · apply ht i ⟨hbyte, hopen⟩

theorem ne_closeBracket_of_isBracket {b : UInt8} (hb : Byte.isBracket b = false) :
  b ≠ Byte.closeBracket
  := by
  rintro rfl
  cases hb

/-- A text that closes what is open before it has no unmatched closing brackets, and leaves the
other brackets open. -/
theorem Closes.guarded {d : Nat} {s : Text} (hs : Closes d s) (e : Nat) :
  Guarded (d + e) s ∧ openAfter (d + e) s = e
  := by
  induction hs with
  | nil => exact ⟨guarded_nil _, Nat.zero_add e⟩
  | @opening d s _ ih =>
    have hstep : openAfterByte (d + e) Byte.openBracket = d + 1 + e := by
      rw [openAfterByte_opening]
      omega
    rw [← hstep] at ih
    exact ⟨Guarded.cons (fun h => absurd h (by decide)) ih.1, ih.2⟩
  | @closing d s _ ih =>
    have hstep : openAfterByte (d + 1 + e) Byte.closeBracket = d + e := by
      rw [openAfterByte_closing]
      omega
    rw [← hstep] at ih
    exact ⟨Guarded.cons (fun _ => by omega) ih.1, ih.2⟩
  | @other d b s hb _ ih =>
    rw [← openAfterByte_other hb (d + e)] at ih
    exact ⟨Guarded.cons (fun h => absurd h (ne_closeBracket_of_isBracket hb)) ih.1, ih.2⟩

/-- A text of which the brackets match is guarded at every depth. -/
theorem Balanced.guarded {s : Text} (hs : Balanced s) (depth : Nat) :
  Guarded depth s
  := by
  have h := (Closes.guarded hs depth).1
  rwa [Nat.zero_add] at h

/-- After a text of which the brackets match, as many brackets are open as before it. -/
theorem Balanced.openAfter_eq {s : Text} (hs : Balanced s) (depth : Nat) :
  openAfter depth s = depth
  := by
  have h := (Closes.guarded hs depth).2
  rwa [Nat.zero_add] at h

/-- The end of a text that closes what is open before it closes what is open there. -/
theorem Closes.of_append {d : Nat} {s t : Text} (h : Closes d (s ++ t)) :
  Closes (openAfter d s) t
  := by
  induction s generalizing d with
  | nil => apply h
  | cons b s ih =>
    cases h with
    | opening h => apply ih h
    | closing h => apply ih h
    | other hb h =>
      have := ih h
      rwa [← openAfterByte_other hb d] at this

/-- Text without brackets at the end of a text does not close anything. -/
theorem Closes.of_append_noBrackets {d : Nat} {s t : Text} (h : Closes d (s ++ t))
    (ht : ∀ b ∈ t, Byte.isBracket b = false) :
  Closes d s
  := by
  induction s generalizing d with
  | nil =>
    have hopen := (Balanced.of_forall ht).openAfter_eq d
    have hnil : Closes (openAfter d t) [] := by
      apply Closes.of_append
      rwa [List.append_nil]
    rwa [hopen] at hnil
  | cons b s ih =>
    cases h with
    | opening h => apply Closes.opening (ih h)
    | closing h => apply Closes.closing (ih h)
    | other hb h => apply Closes.other hb (ih h)

/-- A text that closes more brackets than are open has an unmatched closing bracket. -/
theorem Closes.exists_unmatchedFrom {d : Nat} {t : Text} (h : Closes d t) {e : Nat} (he : e < d) :
  ∃ i, UnmatchedFrom e t i
  := by
  induction h generalizing e with
  | nil => cases he
  | opening _ ih =>
    obtain ⟨i, hi⟩ := ih (Nat.succ_lt_succ he)
    exact ⟨i + 1, hi⟩
  | closing _ ih =>
    cases e with
    | zero => exact ⟨0, rfl, rfl⟩
    | succ e =>
      obtain ⟨i, hi⟩ := ih (Nat.lt_of_succ_lt_succ he)
      exact ⟨i + 1, hi⟩
  | other hb _ ih =>
    obtain ⟨i, hi⟩ := ih he
    rw [← openAfterByte_other hb e] at hi
    exact ⟨i + 1, hi⟩

/-- Balanced text before a text does not matter. -/
theorem FirstUnmatchedAt.append_left {s t : Text} {i : Nat} (hs : Balanced s)
    (h : FirstUnmatchedAt t i) :
  FirstUnmatchedAt (s ++ t) (s.length + i)
  := by
  constructor
  · apply standsAt_append.mpr
    right
    rw [hs.openAfter_eq, Nat.add_sub_cancel_left]
    exact ⟨Nat.le_add_right _ _, h.unmatched⟩
  · intro j hj hunmatched
    rcases standsAt_append.mp hunmatched with hunmatched | ⟨hle, hunmatched⟩
    · apply hs.guarded 0 j hunmatched
    · rw [hs.openAfter_eq] at hunmatched
      apply h.first (j - s.length) (by omega) hunmatched

end Text

/-! ### Where layers end -/

namespace Layer

open Text

/-- If a layer does not end at a closing bracket, then no closing bracket is unmatched.  If this
holds of the layer after a group, then no closing bracket after the start of the group is
unmatched. -/
theorem guarded_of_ending (t : Text) :
  ((∀ rest, (ofText t).ending ≠ .unopened rest) → Guarded 0 t)
    ∧ ∀ depth, (∀ inner layer rest, closing depth t = (inner, some layer) →
        layer.ending ≠ .unopened rest) → Guarded (depth + 1) t
  := by
  -- The two scans call each other, so what is said about them is proved at once.
  induction t with
  | nil => exact ⟨fun _ => guarded_nil 0, fun depth _ => guarded_nil (depth + 1)⟩
  | cons b t ih =>
    obtain ⟨outside, inside⟩ := ih
    constructor
    · intro h
      rw [ofText] at h
      split at h
      · next hb =>
        obtain rfl := eq_of_beq hb
        apply Guarded.cons (fun h => absurd h (by decide))
        apply inside 0
        intro inner layer rest heq
        rw [heq] at h
        apply h rest
      · split at h
        · exact absurd rfl (h t)
        · next hopen hclose =>
          have hb : Byte.isBracket b = false := by
            simp [Byte.isBracket, hopen, hclose]
          apply Guarded.cons (fun h => absurd h (ne_closeBracket_of_isBracket hb))
          rw [openAfterByte_other hb]
          apply outside h
    · intro depth h
      rw [closing] at h
      split at h
      · next hb =>
        obtain rfl := eq_of_beq hb
        apply Guarded.cons (fun h => absurd h (by decide))
        apply inside (depth + 1)
        intro inner layer rest heq
        apply h (Byte.openBracket :: inner) layer rest
        rw [heq, keep]
      · split at h
        · next hb =>
          obtain rfl := eq_of_beq hb
          apply Guarded.cons (fun _ => Nat.add_one_ne_zero depth)
          rw [openAfterByte_closing, Nat.add_sub_cancel]
          split at h
          · next hdepth =>
            rw [hdepth]
            apply outside
            intro rest
            apply h [] (ofText t) rest rfl
          · next hdepth =>
            have hd : depth = depth - 1 + 1 := by omega
            rw [hd]
            apply inside (depth - 1)
            intro inner layer rest heq
            apply h (Byte.closeBracket :: inner) layer rest
            rw [heq, keep]
        · next hopen hclose =>
          have hb : Byte.isBracket b = false := by
            simp [Byte.isBracket, hopen, hclose]
          apply Guarded.cons (fun h => absurd h (ne_closeBracket_of_isBracket hb))
          rw [openAfterByte_other hb]
          apply inside depth
          intro inner layer rest heq
          apply h (b :: inner) layer rest
          rw [heq, keep]

/-- If a layer ends at an opening bracket, then no closing bracket after it closes it.  The same
holds of the layer after a group, and a group that is never closed has no closing bracket for it. -/
theorem guarded_of_unclosed_and_closing (t : Text) :
  (∀ rest, (ofText t).ending = .unclosed rest → Guarded 0 rest)
    ∧ ∀ depth, (∀ inner layer rest, closing depth t = (inner, some layer) →
        layer.ending = .unclosed rest → Guarded 0 rest)
      ∧ ∀ inner, closing depth t = (inner, none) → Guarded depth inner
  := by
  induction t with
  | nil =>
    refine ⟨fun rest h => ?_, fun depth => ⟨fun inner layer rest h => ?_, fun inner h => ?_⟩⟩
    · cases h
    · cases h
    · cases h
      apply guarded_nil
  | cons b t ih =>
    obtain ⟨outside, inside⟩ := ih
    constructor
    · intro rest h
      rw [ofText] at h
      split at h
      · cases hgroup : closing 0 t with
        | mk inner after =>
          rw [hgroup] at h
          cases after with
          | some layer => apply (inside 0).1 inner layer rest hgroup h
          | none =>
            obtain rfl := Ending.unclosed.inj h
            apply (inside 0).2 inner hgroup
      · split at h
        · cases h
        · apply outside rest h
    · intro depth
      rw [closing]
      split
      · next hb =>
        obtain rfl := eq_of_beq hb
        constructor
        · intro inner layer rest h
          obtain ⟨-, hlayer⟩ := Prod.mk.inj h
          apply (inside (depth + 1)).1 _ layer rest (Prod.ext rfl hlayer)
        · intro inner h
          obtain ⟨rfl, hlayer⟩ := Prod.mk.inj h
          apply Guarded.cons (fun h => absurd h (by decide))
          apply (inside (depth + 1)).2 _ (Prod.ext rfl hlayer)
      · split
        · next hb =>
          obtain rfl := eq_of_beq hb
          split
          · constructor
            · intro inner layer rest h
              obtain ⟨-, hlayer⟩ := Prod.mk.inj h
              obtain rfl := Option.some.inj hlayer
              apply outside rest
            · intro inner h
              cases h
          · next hdepth =>
            constructor
            · intro inner layer rest h
              obtain ⟨-, hlayer⟩ := Prod.mk.inj h
              apply (inside (depth - 1)).1 _ layer rest (Prod.ext rfl hlayer)
            · intro inner h
              obtain ⟨rfl, hlayer⟩ := Prod.mk.inj h
              apply Guarded.cons (fun _ => hdepth)
              apply (inside (depth - 1)).2 _ (Prod.ext rfl hlayer)
        · next hopen hclose =>
          have hb : Byte.isBracket b = false := by
            simp [Byte.isBracket, hopen, hclose]
          constructor
          · intro inner layer rest h
            obtain ⟨-, hlayer⟩ := Prod.mk.inj h
            apply (inside depth).1 _ layer rest (Prod.ext rfl hlayer)
          · intro inner h
            obtain ⟨rfl, hlayer⟩ := Prod.mk.inj h
            apply Guarded.cons (fun h => absurd h (ne_closeBracket_of_isBracket hb))
            rw [openAfterByte_other hb]
            apply (inside depth).2 _ (Prod.ext rfl hlayer)

/-- No closing bracket closes the opening one at which a layer ends. -/
theorem guarded_of_unclosed {t rest : Text} (h : (ofText t).ending = .unclosed rest) :
  Guarded 0 rest
  := (guarded_of_unclosed_and_closing t).1 rest h

/-- If the layer of a text is complete, then the brackets of the text match. -/
theorem balanced_of_complete {t : Text} (h : (ofText t).ending = .complete) :
  Balanced t
  := by
  have htext := text_ofText t
  rw [text, h, Ending.text, List.append_nil, ← Part.texts] at htext
  rw [← htext]
  apply (proper_ofText t).balanced

/-- The layer of a balanced text is complete. -/
theorem ending_of_balanced {t : Text} (h : Balanced t) :
  (ofText t).ending = .complete
  := by
  have htext := text_ofText t
  rw [text, ← Part.texts] at htext
  rw [← htext] at h
  have hend := Closes.of_append h
  rw [(proper_ofText t).balanced.openAfter_eq] at hend
  cases hending : (ofText t).ending with
  | complete => rfl
  | unopened rest =>
    rw [hending] at hend
    cases hend with
    | other hb _ => cases hb
  | unclosed rest =>
    rw [hending] at hend
    cases hend with
    | opening hrest =>
      obtain ⟨i, hi⟩ := hrest.exists_unmatchedFrom Nat.zero_lt_one
      exact absurd hi (guarded_of_unclosed hending i)
    | other hb _ => cases hb

/-- A layer that ends at a closing bracket ends at the first one that is unmatched. -/
theorem firstUnmatchedAt_of_unopened {t rest : Text} (h : (ofText t).ending = .unopened rest) :
  FirstUnmatchedAt t (Part.widths (ofText t).parts)
  := by
  have htext := text_ofText t
  rw [text, h, Ending.text, ← Part.texts] at htext
  have hclosing : FirstUnmatchedAt (Byte.closeBracket :: rest) 0 :=
    ⟨⟨rfl, rfl⟩, fun j hj => absurd hj (Nat.not_lt_zero j)⟩
  have hfirst := hclosing.append_left (proper_ofText t).balanced
  rwa [htext, Part.length_texts] at hfirst

/-- A layer ends at a closing bracket, or there are no unmatched closing brackets. -/
theorem unopened_or_guarded (t : Text) :
  (∃ rest, (ofText t).ending = .unopened rest) ∨ Guarded 0 t
  := by
  by_cases h : ∃ rest, (ofText t).ending = .unopened rest
  · left
    exact h
  · right
    apply (guarded_of_ending t).1
    intro rest hrest
    exact h ⟨rest, hrest⟩

end Layer

namespace Tree

open Text

/-! ### Errors of other kinds -/

/-- A computation that does not fail because of an unmatched bracket. -/
abbrev Spared {α : Type} : Parsed α → Prop :=
  Ends (fun _ => True) fun e => e.kind ≠ .extraRightBracket ∧ e.kind ≠ .bracketNotClosed

/-- Steps in sequence are spared if they are so one by one. -/
theorem spared_bind {α β : Type} {x : Parsed α} {f : α → Parsed β} (hx : Spared x)
    (hf : ∀ a, Spared (f a)) :
  Spared (x >>= f)
  := Ends.bind hx fun a _ => hf a

theorem spared_rejectAt {α : Type} (position : Nat) {cause : ParseCause}
    (h : cause.kind = .parseNumberFail ∨ cause.kind = .invalidSyntax) :
  Spared (rejectAt position cause : Parsed α)
  := by
  change cause.kind ≠ .extraRightBracket ∧ cause.kind ≠ .bracketNotClosed
  rcases h with h | h
  · rw [h]
    decide
  · rw [h]
    decide

theorem spared_parseWord (position : Nat) (word : Text) :
  Spared (parseWord position word)
  := by
  have hread := readsWord_parseWord position word
  generalize parseWord position word = x at hread
  cases hread with
  | wildcard _ => exact trivial
  | number _ _ => exact trivial
  | name _ => exact trivial
  | unrepresentable _ _ => apply spared_rejectAt position (Or.inl rfl)
  | empty _ => apply spared_rejectAt position (Or.inr rfl)
  | unknownForm _ => apply spared_rejectAt position (Or.inr rfl)

section Inner

variable {inner : Nat → Text → Parsed Tree}
  (hinner : ∀ position {x : Text}, Balanced x → Spared (inner position x))

include hinner

/-- If reading what stands in brackets is spared, then so is reading arguments in brackets. -/
theorem spared_parseGroups (position : Nat) {ps : List Part} (hps : Part.AllProper ps) :
  Spared (parseGroups inner position ps)
  := by
  induction ps generalizing position with
  | nil => exact trivial
  | cons p ps ih =>
    have hrest : Part.AllProper ps := fun q hq => hps q (List.mem_cons_of_mem p hq)
    cases p with
    | plain b =>
      rw [parseGroups]
      split
      · apply ih (position + 1) hrest
      · apply spared_rejectAt position (Or.inr rfl)
    | group x =>
      apply spared_bind (hinner position (hps (.group x) List.mem_cons_self))
      intro arg
      apply spared_bind (ih _ hrest)
      intro args
      exact trivial

theorem spared_parseTrimmed (position : Nat) {ps : List Part} (hps : Part.AllProper ps) :
  Spared (parseTrimmed inner position ps)
  := by
  cases itemForm ps with
  | word word =>
    rw [parseTrimmed_word]
    apply spared_parseWord
  | bracketed x => apply hinner position (hps (.group x) List.mem_cons_self)
  | groups x hword =>
    rw [parseTrimmed_call inner position hword]
    split
    · apply spared_bind (spared_parseGroups hinner _ fun p hp => hps p (List.mem_append_right _ hp))
      intro args
      exact trivial
    · apply spared_rejectAt position (Or.inr rfl)

/-- If reading what stands in brackets is spared, then so is reading an item. -/
theorem spared_parseItem (position : Nat) {ps : List Part} (hps : Part.AllProper ps) :
  Spared (parseItem inner position ps)
  := spared_parseTrimmed hinner _ fun p hp => hps p (mem_of_mem_trimBy hp)

theorem spared_parseItems (position : Nat) {items : List (List Part)}
    (hitems : ∀ item ∈ items, Part.AllProper item) :
  Spared (parseItems inner position items)
  := by
  induction items generalizing position with
  | nil => exact trivial
  | cons item items ih =>
    rw [List.forall_mem_cons] at hitems
    apply spared_bind (spared_parseItem hinner position hitems.1)
    intro t
    apply spared_bind (ih _ hitems.2)
    intro ts
    exact trivial

/-- A balanced text is read, or rejected for another reason than its brackets. -/
theorem spared_parseLayer (position : Nat) {s : Text} (hs : Balanced s) :
  Spared (parseLayer inner position s)
  := by
  have hproper : ∀ item ∈ (segments (Layer.ofText s).parts).1
      :: (segments (Layer.ofText s).parts).2, Part.AllProper item :=
    fun item hitem p hp => Layer.proper_ofText s p (of_mem_segments hitem p hp).1
  simp only [parseLayer, Layer.ending_of_balanced hs]
  split
  · apply spared_parseItem hinner _ (hproper _ List.mem_cons_self)
  · apply spared_bind (spared_parseItems hinner _ hproper)
    intro items
    exact trivial

end Inner

/-! ### Texts with and without unmatched closing brackets -/

/-- A text has no unmatched closing bracket if this holds without its surrounding blanks. -/
theorem guarded_of_trim {text : Text} (h : Guarded 0 text.trim) :
  Guarded 0 text
  := by
  obtain ⟨after, htext, hafter⟩ := exists_eq_append_trimBy_append Byte.isBlank text
  have hbefore := Balanced.of_forall (blanks_takeWhile text).noBrackets
  have hend := Balanced.of_forall (Blanks.noBrackets hafter)
  have hguarded : Guarded 0 (text.takeWhile Byte.isBlank ++ text.trim) := by
    apply (hbefore.guarded 0).append
    rw [hbefore.openAfter_eq]
    apply h
  rw [htext]
  -- Brackets of the text may still be open here, but the blanks after it close none.
  apply hguarded.append (hend.guarded _)

/-- A text without its surrounding blanks has the same first unmatched closing bracket. -/
theorem firstUnmatchedAt_of_trim {text : Text} {i : Nat} (h : FirstUnmatchedAt text.trim i) :
  FirstUnmatchedAt text (text.leadingBlanks + i)
  := by
  obtain ⟨after, htext, -⟩ := exists_eq_append_trimBy_append Byte.isBlank text
  have hbefore := Balanced.of_forall (blanks_takeWhile text).noBrackets
  have := (h.append_left hbefore).append_right after
  rwa [Text.trim, ← htext] at this

/-- A balanced text is balanced without its surrounding blanks. -/
theorem balanced_trim {text : Text} (h : Balanced text) :
  Balanced text.trim
  := by
  obtain ⟨after, htext, hafter⟩ := exists_eq_append_trimBy_append Byte.isBlank text
  have hbefore := Balanced.of_forall (blanks_takeWhile text).noBrackets
  rw [htext, List.append_assoc] at h
  have hrest := Closes.of_append h
  rw [hbefore.openAfter_eq] at hrest
  apply hrest.of_append_noBrackets (Blanks.noBrackets hafter)

/-- A text of which the brackets match gives no error about them, however deep they may be
nested. -/
theorem spared_parseInner (room position : Nat) {x : Text} (hx : Balanced x) :
  Spared (parseInner room position x)
  := by
  induction room generalizing position x with
  | zero => apply spared_rejectAt position (Or.inr rfl)
  | succ room ih => apply spared_parseLayer ih _ (balanced_trim hx)

/-- A text without unmatched closing brackets is read, or rejected for another reason. -/
theorem spared_parseWith {inner : Nat → Text → Parsed Tree}
    (hinner : ∀ position {x : Text}, Balanced x → Spared (inner position x)) (position : Nat)
    {text : Text} (h : Guarded 0 text) :
  Ends (fun _ => True) (fun e => e.kind ≠ .extraRightBracket) (parseWith inner position text)
  := by
  have weaken : ∀ {α : Type} {x : Parsed α}, Spared x →
      Ends (fun _ => True) (fun e => e.kind ≠ .extraRightBracket) x :=
    fun hx => hx.mono (fun _ h => h) (fun _ h => h.1)
  cases hending : (Layer.ofText text.trim).ending with
  | complete => apply weaken (spared_parseLayer hinner _ (Layer.balanced_of_complete hending))
  | unopened rest =>
    have hfirst := firstUnmatchedAt_of_trim (Layer.firstUnmatchedAt_of_unopened hending)
    exact absurd hfirst.unmatched (h _)
  | unclosed rest =>
    simp only [parseWith, parseLayer, hending]
    apply Ends.bind
    · apply weaken
      apply spared_parseItems hinner
      intro item hitem p hp
      apply Layer.proper_ofText _ p
      exact (of_mem_segments ((List.dropLast_sublist _).subset hitem) p hp).1
    · intro _ _
      simp [rejectAt, Ends, ParseError.kind, ParseCause.kind]

/-- A text is rejected because of an unmatched closing bracket exactly if it has one.  The position
of the error is then that of the first one, cut to 64 bits. -/
theorem parse_unmatched_closing (text : Text) (offset : Nat) :
  ((∃ e, parse text offset = .error e ∧ e.kind = .extraRightBracket) ↔ ∃ i, UnmatchedAt text i)
    ∧ ∀ i, FirstUnmatchedAt text i →
      ∃ e, parse text offset = .error e ∧ e.kind = .extraRightBracket
        ∧ e.position.toNat = (offset + i) % UInt64.size
  := by
  rcases Layer.unopened_or_guarded text.trim with ⟨rest, hending⟩ | hguarded
  · have hfirst := firstUnmatchedAt_of_trim (Layer.firstUnmatchedAt_of_unopened hending)
    have hparse : parse text offset = rejectAt (offset + text.leadingBlanks
        + Part.widths (Layer.ofText text.trim).parts) .neverOpened := by
      rw [parse, parseWith]
      simp only [parseLayer, hending]
    constructor
    · constructor
      · intro _
        exact ⟨_, hfirst.unmatched⟩
      · intro _
        exact ⟨_, hparse, rfl⟩
    · intro i hi
      obtain rfl := hi.unique hfirst
      refine ⟨_, hparse, rfl, ?_⟩
      rw [← Nat.add_assoc]
      apply UInt64.toNat_ofNat'
  · have htext := guarded_of_trim hguarded
    have hspared := spared_parseWith (spared_parseInner maxNesting) offset htext
    constructor
    · constructor
      · rintro ⟨e, hparse, hkind⟩
        rw [← parse, hparse] at hspared
        exact absurd hkind hspared
      · rintro ⟨i, hunmatched⟩
        exact absurd hunmatched (htext i)
    · intro i hi
      exact absurd hi.unmatched (htext i)

end Tree

end Sketch
