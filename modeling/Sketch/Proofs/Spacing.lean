import Sketch.Proofs.Positions

/-!
# Blanks next to punctuation

A text is spaced out by inserting blanks at its ends, and before or after its brackets and commas.
A gap function says what is inserted before each byte and at the end (`Text.spaceOut`), and gives
the new index of each byte (`Text.newIndex`).

Reading takes a text apart, so the two texts are also compared piece by piece, wherever the pieces
stand.  `Text.Spaced R` relates the pieces of the texts, where `R` relates the positions of bytes
that correspond to each other; `Part.Spaced R` does the same for lists of parts.  The layers of
spaced texts are spaced (`Layer.spaced_ofText`), and so are their segments (`Part.Spaced.segments`)
and what is left of them after trimming (`Text.Spaced.trim`).
-/

namespace Sketch

/-- Brackets and commas. -/
def Byte.isPunctuation (b : UInt8) : Bool := isBracket b || b == comma

namespace Text

/-! ### Inserting blanks -/

/-- The text with `gap i` inserted before the byte at index `i`, and at the end if `i` is the length
of the text. -/
def spaceOut (gap : Nat → Text) : Text → Text
  | [] => gap 0
  | b :: rest => gap 0 ++ b :: spaceOut (fun i => gap (i + 1)) rest

/-- The index that a byte has after the gaps are inserted. -/
def newIndex (gap : Nat → Text) : (i : Nat) → Nat
  | 0 => (gap 0).length
  | i + 1 => (gap 0).length + 1 + newIndex (fun j => gap (j + 1)) i

/-- Only blanks are inserted, and this at the ends of the text or next to punctuation. -/
structure Loosens (gap : Nat → Text) (s : Text) : Prop where
  blanks : ∀ i ≤ s.length, Blanks (gap i)
  places : ∀ i, 0 < i → i < s.length → gap i ≠ [] →
    ∃ b, (s[i - 1]? = some b ∨ s[i]? = some b) ∧ Byte.isPunctuation b = true

theorem getElem?_spaceOut (gap : Nat → Text) {s : Text} {i : Nat} (hi : i < s.length) :
  (spaceOut gap s)[newIndex gap i]? = s[i]?
  := by
  induction s generalizing gap i with
  | nil => cases hi
  | cons b rest ih =>
    cases i with
    | zero => simp [spaceOut, newIndex]
    | succ i =>
      have hrest := ih (fun j => gap (j + 1)) (Nat.lt_of_succ_lt_succ hi)
      rw [spaceOut, newIndex, List.getElem?_append_right (by omega), Nat.add_assoc,
        Nat.add_sub_cancel_left, Nat.add_comm 1, List.getElem?_cons_succ, hrest,
        List.getElem?_cons_succ]

theorem newIndex_length (gap : Nat → Text) (s : Text) :
  newIndex gap s.length = (spaceOut gap s).length
  := by
  induction s generalizing gap with
  | nil => rfl
  | cons b rest ih =>
    rw [List.length_cons, newIndex, spaceOut, List.length_append, List.length_cons, ih]
    omega

/-! ### Spaced texts -/

/-- The text `s'` from position `p'` on is the text `s` from position `p` on with blanks inserted at
its end, next to punctuation, and at its start if this is `loose`.  The positions of the bytes are
related by `R`. -/
inductive Spaced (R : Nat → Nat → Prop) : (loose : Bool) → Nat → Text → Nat → Text → Prop
  | nil {loose : Bool} {p p' : Nat} {u : Text} : Blanks u → Spaced R loose p [] p' u
  | cons {loose : Bool} {p p' : Nat} {u s s' : Text} {b : UInt8} :
    Blanks u → (u ≠ [] → loose = true ∨ Byte.isPunctuation b = true) → R p (p' + u.length) →
      Spaced R (Byte.isPunctuation b) (p + 1) s (p' + u.length + 1) s' →
        Spaced R loose p (b :: s) p' (u ++ b :: s')

variable {R : Nat → Nat → Prop} {loose : Bool} {p p' : Nat}

/-- A byte without blanks before it. -/
theorem Spaced.byte {b : UInt8} {s s' : Text} (hR : R p p')
    (hs : Spaced R (Byte.isPunctuation b) (p + 1) s (p' + 1) s') :
  Spaced R loose p (b :: s) p' (b :: s')
  := Spaced.cons Blanks.nil (fun h => absurd rfl h) hR hs

theorem spaced_of_places {gap : Nat → Text} {s : Text}
    (hblanks : ∀ i ≤ s.length, Blanks (gap i))
    (hplaces : ∀ i < s.length, gap i ≠ [] → (i = 0 ∧ loose = true)
      ∨ ∃ b, (0 < i ∧ s[i - 1]? = some b ∨ s[i]? = some b) ∧ Byte.isPunctuation b = true)
    (hR : ∀ i < s.length, R (p + i) (p' + newIndex gap i)) :
  Spaced R loose p s p' (spaceOut gap s)
  := by
  induction s generalizing gap loose p p' with
  | nil => apply Spaced.nil (hblanks 0 (Nat.le_refl 0))
  | cons c rest ih =>
    apply Spaced.cons (hblanks 0 (Nat.zero_le _))
    · intro hgap
      rcases hplaces 0 (Nat.succ_pos _) hgap with ⟨-, hloose⟩ | ⟨b, ⟨hlt, -⟩ | hb, hpunctuation⟩
      · apply Or.inl hloose
      · cases hlt
      · obtain rfl := Option.some.inj hb
        apply Or.inr hpunctuation
    · apply hR 0 (Nat.succ_pos _)
    · apply ih
      · intro i hi
        apply hblanks (i + 1) (Nat.succ_le_succ hi)
      · intro i hi hgap
        -- The byte before the rest decides whether its start is loose.
        rcases hplaces (i + 1) (Nat.succ_lt_succ hi) hgap with ⟨hzero, -⟩ | ⟨b, hb, hpunctuation⟩
        · cases hzero
        · cases i with
          | zero =>
            rcases hb with ⟨-, hb⟩ | hb
            · obtain rfl := Option.some.inj hb
              exact Or.inl ⟨rfl, hpunctuation⟩
            · exact Or.inr ⟨b, Or.inr hb, hpunctuation⟩
          | succ i =>
            rcases hb with ⟨-, hb⟩ | hb
            · exact Or.inr ⟨b, Or.inl ⟨Nat.succ_pos i, hb⟩, hpunctuation⟩
            · exact Or.inr ⟨b, Or.inr hb, hpunctuation⟩
      · intro i hi
        have := hR (i + 1) (Nat.succ_lt_succ hi)
        rw [newIndex] at this
        convert this using 1
        · omega
        · omega

/-- A text is related to the text that it is spaced out to. -/
theorem Loosens.spaced {gap : Nat → Text} {s : Text} (h : Loosens gap s) (p : Nat) :
  Spaced (fun q q' => ∃ i < s.length, q = p + i ∧ q' = p + newIndex gap i) true p s p
    (spaceOut gap s)
  := by
  apply spaced_of_places h.blanks
  · intro i hi hgap
    cases i with
    | zero => exact Or.inl ⟨rfl, rfl⟩
    | succ i =>
      obtain ⟨b, hb, hpunctuation⟩ := h.places (i + 1) (Nat.succ_pos i) hi hgap
      exact Or.inr ⟨b, hb.imp (fun hb => ⟨Nat.succ_pos i, hb⟩) (fun hb => hb), hpunctuation⟩
  · intro i hi
    exact ⟨i, hi, rfl, rfl⟩

/-! ### Trimming spaced texts -/

theorem Spaced.blanks {s s' : Text} (h : Spaced R loose p s p' s') (hs : Blanks s) :
  Blanks s'
  := by
  induction h with
  | nil hu => apply hu
  | @cons loose p p' u s s' b hu _ _ _ ih =>
    have hb : Blanks [b] := List.forall_mem_singleton.mpr (hs b List.mem_cons_self)
    apply hu.append (hb.append (ih fun c hc => hs c (List.mem_cons_of_mem b hc)))

/-- Blanks at the start of a text correspond to blanks. -/
theorem Spaced.of_blanks_append {u s s' : Text} {b : UInt8}
    (h : Spaced R loose p (u ++ b :: s) p' s') (hu : Blanks u) :
  ∃ u' t, s' = u' ++ b :: t ∧ Blanks u'
    ∧ Spaced R true (p + u.length) (b :: s) (p' + u'.length) (b :: t)
  := by
  induction u generalizing loose p p' s' with
  | nil =>
    cases h with
    | @cons _ _ _ w _ t _ hw _ hR ht => exact ⟨w, t, rfl, hw, Spaced.byte hR ht⟩
  | cons c u ih =>
    cases h with
    | @cons _ _ _ w _ t _ hw _ hR ht =>
      have hc : Blanks [c] := List.forall_mem_singleton.mpr (hu c List.mem_cons_self)
      obtain ⟨u', t', rfl, hu', hspaced⟩ := ih ht fun d hd => hu d (List.mem_cons_of_mem c hd)
      refine ⟨w ++ ([c] ++ u'), t', by simp, hw.append (hc.append hu'), ?_⟩
      convert hspaced using 1
      · rw [List.length_cons]
        omega
      · rw [List.length_append, List.length_append, List.length_singleton]
        omega

/-- Blanks at the end of a text correspond to blanks. -/
theorem Spaced.of_append_blanks {s v s' : Text} {b : UInt8}
    (h : Spaced R loose p (s ++ b :: v) p' s') (hv : Blanks v) :
  ∃ t v', s' = t ++ b :: v' ∧ Blanks v' ∧ Spaced R loose p (s ++ [b]) p' (t ++ [b])
  := by
  induction s generalizing loose p p' s' with
  | nil =>
    cases h with
    | @cons _ _ _ w _ v' _ hw hloose hR ht =>
      exact ⟨w, v', rfl, ht.blanks hv, Spaced.cons hw hloose hR (Spaced.nil Blanks.nil)⟩
  | cons c s ih =>
    cases h with
    | @cons _ _ _ w _ t _ hw hloose hR ht =>
      obtain ⟨t', v', rfl, hv', hspaced⟩ := ih ht
      refine ⟨w ++ c :: t', v', by simp, hv', ?_⟩
      have := Spaced.cons hw hloose hR hspaced
      simpa using this

/-- Spaced texts are both made of blanks, or are spaced without their surrounding blanks, of which
they may have different numbers. -/
theorem Spaced.trim {s s' : Text} (h : Spaced R true p s p' s') :
  (Blanks s ∧ Blanks s')
    ∨ Spaced R true (p + s.leadingBlanks) s.trim (p' + s'.leadingBlanks) s'.trim
  := by
  rcases forall_or_exists_solid Byte.isBlank s with hs | ⟨u, m, v, rfl, hu, hm, hv⟩
  · exact Or.inl ⟨hs, h.blanks hs⟩
  · right
    obtain ⟨b, rest, hhead, hb⟩ := hm.head
    obtain ⟨init, c, hlast, hc⟩ := hm.last
    have hstart : u ++ m ++ v = u ++ b :: (rest ++ v) := by
      rw [hhead, List.append_assoc, List.cons_append]
    have hend : b :: (rest ++ v) = init ++ c :: v := by
      rw [← List.cons_append, ← hhead, hlast, List.append_assoc, List.singleton_append]
    rw [hstart] at h
    obtain ⟨u', t, rfl, hu', h⟩ := h.of_blanks_append hu
    rw [hend] at h
    obtain ⟨t', v', htext, hv', h⟩ := h.of_append_blanks hv
    have hm' : Solid Byte.isBlank (t' ++ [c]) := by
      constructor
      · cases t' with
        | nil => exact ⟨c, [], rfl, hc⟩
        | cons d t' =>
          obtain ⟨rfl, -⟩ := List.cons.inj htext
          exact ⟨b, t' ++ [c], rfl, hb⟩
      · exact ⟨t', c, rfl, hc⟩
    have htext' : u' ++ b :: t = u' ++ (t' ++ [c]) ++ v' := by
      rw [htext, List.append_assoc, List.append_assoc, List.singleton_append]
    rw [htext', Text.trim, Text.trim, leadingBlanks, leadingBlanks, leadingBy_append_solid hu hm,
      leadingBy_append_solid hu' hm', trimBy_append_solid hu hm hv,
      trimBy_append_solid hu' hm' hv', hlast]
    apply h

end Text

/-! ### Spaced parts -/

open Text (Blanks)

namespace Part

/-- The parts `ps'` from position `p'` on are the parts `ps` from position `p` on with blanks
inserted as in texts.  They may stand at the end, around commas and groups, and at the start if this
is `loose`. -/
inductive Spaced (R : Nat → Nat → Prop) : (loose : Bool) → Nat → List Part → Nat → List Part → Prop
  | nil {loose : Bool} {p p' : Nat} {u : Text} : Blanks u → Spaced R loose p [] p' (u.map .plain)
  | byte {loose : Bool} {p p' : Nat} {u : Text} {b : UInt8} {ps ps' : List Part} :
    Blanks u → (u ≠ [] → loose = true ∨ b = Byte.comma) → R p (p' + u.length) →
      Spaced R (b == Byte.comma) (p + 1) ps (p' + u.length + 1) ps' →
        Spaced R loose p (.plain b :: ps) p' (u.map .plain ++ .plain b :: ps')
  | group {loose : Bool} {p p' : Nat} {u x x' : Text} {ps ps' : List Part} :
    Blanks u → R p (p' + u.length) → Text.Spaced R true (p + 1) x (p' + u.length + 1) x' →
      Spaced R true (p + x.length + 2) ps (p' + u.length + x'.length + 2) ps' →
        Spaced R loose p (.group x :: ps) p' (u.map .plain ++ .group x' :: ps')

end Part

namespace Layer

variable {R : Nat → Nat → Prop} {loose : Bool} {p p' : Nat}

/-- Layers end in the same way, at positions related by `R` if they end early. -/
inductive EndsAlike (R : Nat → Nat → Prop) (p p' : Nat) : Ending → Ending → Prop
  | complete : EndsAlike R p p' .complete .complete
  | unclosed {rest rest' : Text} : R p p' → EndsAlike R p p' (.unclosed rest) (.unclosed rest')
  | unopened {rest rest' : Text} : R p p' → EndsAlike R p p' (.unopened rest) (.unopened rest')

/-- The parts of two layers are spaced, and they end alike. -/
structure Spaced (R : Nat → Nat → Prop) (loose : Bool) (p : Nat) (layer : Layer) (p' : Nat)
    (layer' : Layer) : Prop where
  parts : Part.Spaced R loose p layer.parts p' layer'.parts
  ending : EndsAlike R (p + Part.widths layer.parts) (p' + Part.widths layer'.parts) layer.ending
    layer'.ending

/-- Both groups are never closed, or their texts are spaced and so are the layers after them. -/
inductive GroupSpaced (R : Nat → Nat → Prop) (loose : Bool) (p p' : Nat) :
    Text × Option Layer → Text × Option Layer → Prop
  | unclosed (x x' : Text) : GroupSpaced R loose p p' (x, none) (x', none)
  | closed {x x' : Text} {layer layer' : Layer} :
    Text.Spaced R loose p x p' x' →
      Spaced R true (p + x.length + 1) layer (p' + x'.length + 1) layer' →
        GroupSpaced R loose p p' (x, some layer) (x', some layer')

theorem ofText_blanks_append {u : Text} (hu : Blanks u) (t : Text) :
  ofText (u ++ t) = ⟨u.map .plain ++ (ofText t).parts, (ofText t).ending⟩
  := by
  induction u with
  | nil => rfl
  | cons b u ih =>
    have hb : (Part.plain b).Proper := hu.noBrackets b List.mem_cons_self
    have hrest : Blanks u := fun c hc => hu c (List.mem_cons_of_mem b hc)
    rw [List.cons_append, ← List.singleton_append, ← Part.text, ofText_append hb, ih hrest]
    rfl

theorem closing_blanks_append {u : Text} (hu : Blanks u) (depth : Nat) (t : Text) :
  closing depth (u ++ t) = (u ++ (closing depth t).1, (closing depth t).2)
  := by
  have h := closing_append (Text.Balanced.of_forall hu.noBrackets) depth t
  rwa [Nat.zero_add] at h

/-- Layers that end at once, with blanks before the end of one of them. -/
theorem Spaced.of_ending {u : Text} {ending ending' : Ending} (hu : Blanks u)
    (h : EndsAlike R p (p' + u.length) ending ending') :
  Spaced R loose p ⟨[], ending⟩ p' ⟨u.map .plain ++ [], ending'⟩
  := by
  rw [List.append_nil]
  constructor
  · apply Part.Spaced.nil hu
  · rw [Part.widths_map_plain]
    apply h

theorem Spaced.cons_byte {u : Text} {b : UInt8} {layer layer' : Layer} (hu : Blanks u)
    (hloose : u ≠ [] → loose = true ∨ b = Byte.comma) (hR : R p (p' + u.length))
    (h : Spaced R (b == Byte.comma) (p + 1) layer (p' + u.length + 1) layer') :
  Spaced R loose p (layer.cons (.plain b)) p'
    ⟨u.map .plain ++ (layer'.cons (.plain b)).parts, layer'.ending⟩
  := by
  constructor
  · apply Part.Spaced.byte hu hloose hR h.parts
  · convert h.ending using 1
    · simp only [cons, Part.widths, Part.width]
      omega
    · simp only [cons, Part.widths_append, Part.widths_map_plain, Part.widths, Part.width]
      omega
    · rfl

theorem Spaced.cons_group {u x x' : Text} {layer layer' : Layer} (hu : Blanks u)
    (hR : R p (p' + u.length)) (hx : Text.Spaced R true (p + 1) x (p' + u.length + 1) x')
    (h : Spaced R true (p + x.length + 2) layer (p' + u.length + x'.length + 2) layer') :
  Spaced R loose p (layer.cons (.group x)) p'
    ⟨u.map .plain ++ (layer'.cons (.group x')).parts, layer'.ending⟩
  := by
  constructor
  · apply Part.Spaced.group hu hR hx h.parts
  · convert h.ending using 1
    · simp only [cons, Part.widths, Part.width]
      omega
    · simp only [cons, Part.widths_append, Part.widths_map_plain, Part.widths, Part.width]
      omega
    · rfl

/-- A byte inside of a group. -/
theorem GroupSpaced.keep {u : Text} {b : UInt8} {group group' : Text × Option Layer} (hu : Blanks u)
    (hloose : u ≠ [] → loose = true ∨ Byte.isPunctuation b = true) (hR : R p (p' + u.length))
    (h : GroupSpaced R (Byte.isPunctuation b) (p + 1) (p' + u.length + 1) group group') :
  GroupSpaced R loose p p' (keep b group) (u ++ (keep b group').1, (keep b group').2)
  := by
  cases h with
  | unclosed x x' => apply GroupSpaced.unclosed (b :: x) (u ++ b :: x')
  | @closed x x' layer layer' hx hlayer =>
    apply GroupSpaced.closed
    · apply Text.Spaced.cons hu hloose hR hx
    · convert hlayer using 1
      · simp only [List.length_cons]
        omega
      · simp only [Layer.keep, List.length_append, List.length_cons]
        omega

/-- The layers of spaced texts are spaced, both outside of all brackets and inside of them. -/
theorem spaced_ofText_and_closing {s s' : Text} (h : Text.Spaced R loose p s p' s') :
  Spaced R loose p (ofText s) p' (ofText s')
    ∧ ∀ depth, GroupSpaced R loose p p' (closing depth s) (closing depth s')
  := by
  induction h with
  | @nil loose p p' u hu =>
    have hlayer := ofText_blanks_append hu []
    rw [List.append_nil] at hlayer
    constructor
    · rw [hlayer]
      apply Spaced.of_ending hu EndsAlike.complete
    · intro depth
      have hgroup := closing_blanks_append hu depth []
      rw [List.append_nil] at hgroup
      rw [hgroup]
      apply GroupSpaced.unclosed [] (u ++ [])
  | @cons loose p p' u s s' b hu hloose hR _ ih =>
    obtain ⟨outside, inside⟩ := ih
    constructor
    · rw [ofText_blanks_append hu, ofText, ofText]
      split
      · next hb =>
        obtain rfl := eq_of_beq hb
        have hgroup := inside 0
        generalize closing 0 s = group at hgroup
        generalize closing 0 s' = group' at hgroup
        cases hgroup with
        | unclosed x x' => apply Spaced.of_ending hu (EndsAlike.unclosed hR)
        | closed hx hlayer =>
          apply Spaced.cons_group hu hR hx
          convert hlayer using 1
          · omega
          · omega
      · split
        · apply Spaced.of_ending hu (EndsAlike.unopened hR)
        · next hopen hclose =>
          have hb : Byte.isPunctuation b = (b == Byte.comma) := by
            simp [Byte.isPunctuation, Byte.isBracket, hopen, hclose]
          rw [hb] at hloose outside
          apply Spaced.cons_byte hu (fun h => (hloose h).imp_right eq_of_beq) hR outside
    · intro depth
      rw [closing_blanks_append hu, closing, closing]
      split
      · apply GroupSpaced.keep hu hloose hR (inside (depth + 1))
      · split
        · next hb =>
          obtain rfl := eq_of_beq hb
          split
          · apply GroupSpaced.closed
            · rw [List.append_nil]
              apply Text.Spaced.nil hu
            · rw [List.append_nil]
              apply outside
          · apply GroupSpaced.keep hu hloose hR (inside (depth - 1))
        · apply GroupSpaced.keep hu hloose hR (inside depth)

/-- The layers of spaced texts are spaced. -/
theorem spaced_ofText {s s' : Text} (h : Text.Spaced R loose p s p' s') :
  Spaced R loose p (ofText s) p' (ofText s')
  := (spaced_ofText_and_closing h).1

end Layer

namespace Part

variable {R : Nat → Nat → Prop} {loose : Bool} {p p' : Nat}

/-- Blanks are inserted around a word. -/
structure WordSpaced (R : Nat → Nat → Prop) (p : Nat) (word : Text) (p' : Nat) (word' : Text) :
    Prop where
  surrounded : ∃ u v, word' = u ++ word ++ v ∧ Blanks u ∧ Blanks v
    ∧ ∀ i < word.length, R (p + i) (p' + u.length + i)

theorem WordSpaced.trim {word word' : Text} (h : WordSpaced R p word p' word') :
  word'.trim = word.trim
  := by
  obtain ⟨u, v, rfl, hu, hv, -⟩ := h.surrounded
  apply trimBy_surrounded hu hv

theorem WordSpaced.blanks_iff {word word' : Text} (h : WordSpaced R p word p' word') :
  Blanks word' ↔ Blanks word
  := by
  obtain ⟨u, v, rfl, hu, hv, -⟩ := h.surrounded
  constructor
  · intro hword b hb
    apply hword b (List.mem_append_left v (List.mem_append_right u hb))
  · intro hword
    apply (hu.append hword).append hv

/-- The first bytes that are not blank correspond to each other. -/
theorem WordSpaced.leadingBlanks {word word' : Text} (h : WordSpaced R p word p' word')
    (hword : ¬ Blanks word) :
  R (p + word.leadingBlanks) (p' + word'.leadingBlanks)
  := by
  obtain ⟨u, v, rfl, hu, -, hR⟩ := h.surrounded
  rw [Text.leadingBlanks, Text.leadingBlanks, leadingBy_surrounded hu hword, ← Nat.add_assoc]
  apply hR _ (leadingBy_lt hword)

/-- Nothing is inserted before or between bytes other than punctuation. -/
theorem Spaced.of_word_append {word : Text} {ps ps' : List Part}
    (hword : ∀ b ∈ word, b ≠ Byte.comma)
    (h : Spaced R false p (word.map .plain ++ ps) p' ps') :
  ∃ qs, ps' = word.map .plain ++ qs ∧ Spaced R false (p + word.length) ps (p' + word.length) qs
    ∧ ∀ i < word.length, R (p + i) (p' + i)
  := by
  induction word generalizing p p' ps' with
  | nil => exact ⟨ps', rfl, h, fun i hi => absurd hi (Nat.not_lt_zero i)⟩
  | cons b word ih =>
    have hb : b ≠ Byte.comma := hword b List.mem_cons_self
    cases h with
    | @byte _ _ _ u _ _ rest hu hloose hR hrest =>
      have hnil : u = [] := by
        by_contra hne
        rcases hloose hne with hfalse | hcomma
        · cases hfalse
        · apply hb hcomma
      subst hnil
      rw [beq_false_of_ne hb] at hrest
      obtain ⟨qs, rfl, hqs, hbytes⟩ := ih (fun c hc => hword c (List.mem_cons_of_mem b hc)) hrest
      refine ⟨qs, rfl, ?_, ?_⟩
      · convert hqs using 1
        · rw [List.length_cons]
          omega
        · rw [List.length_cons, List.length_nil]
          omega
      · intro i hi
        cases i with
        | zero => apply hR
        | succ i =>
          have := hbytes i (Nat.lt_of_succ_lt_succ hi)
          rw [List.length_nil] at this
          convert this using 1
          · omega
          · omega

/-- Before a word blanks may be inserted. -/
theorem Spaced.of_word_start {word : Text} {ps ps' : List Part}
    (hword : ∀ b ∈ word, b ≠ Byte.comma)
    (h : Spaced R true p (word.map .plain ++ ps) p' ps') :
  ∃ loose u qs, ps' = (u ++ word).map .plain ++ qs ∧ Blanks u
    ∧ Spaced R loose (p + word.length) ps (p' + (u ++ word).length) qs
    ∧ ∀ i < word.length, R (p + i) (p' + u.length + i)
  := by
  cases word with
  | nil => exact ⟨true, [], ps', rfl, Blanks.nil, h, fun i hi => absurd hi (Nat.not_lt_zero i)⟩
  | cons b word =>
    cases h with
    | @byte _ _ _ u _ _ rest hu hloose hR hrest =>
      rw [beq_false_of_ne (hword b List.mem_cons_self)] at hrest
      obtain ⟨qs, rfl, hqs, hbytes⟩ :=
        Spaced.of_word_append (fun c hc => hword c (List.mem_cons_of_mem b hc)) hrest
      refine ⟨false, u, qs, ?_, hu, ?_, ?_⟩
      · simp
      · convert hqs using 1
        · rw [List.length_cons]
          omega
        · rw [List.length_append, List.length_cons]
          omega
      · intro i hi
        cases i with
        | zero => apply hR
        | succ i =>
          convert hbytes i (Nat.lt_of_succ_lt_succ hi) using 1
          · omega
          · omega

/-- A word without groups is spaced to such a word. -/
theorem Spaced.of_word {word : Text} {ps' : List Part} (hword : ∀ b ∈ word, b ≠ Byte.comma)
    (h : Spaced R true p (word.map .plain) p' ps') :
  ∃ word', ps' = word'.map .plain ∧ WordSpaced R p word p' word'
  := by
  rw [← List.append_nil (word.map plain)] at h
  obtain ⟨loose, u, qs, rfl, hu, hqs, hR⟩ := Spaced.of_word_start hword h
  cases hqs with
  | @nil _ _ _ v hv =>
    refine ⟨u ++ word ++ v, ?_, ⟨u, v, rfl, hu, hv, hR⟩⟩
    simp

/-- A word followed by a group is spaced to such parts. -/
theorem Spaced.of_group {word x : Text} {gs ps' : List Part} (hword : ∀ b ∈ word, b ≠ Byte.comma)
    (h : Spaced R true p (word.map .plain ++ .group x :: gs) p' ps') :
  ∃ word' x' gs', ps' = word'.map .plain ++ .group x' :: gs' ∧ WordSpaced R p word p' word'
    ∧ R (p + word.length) (p' + word'.length)
    ∧ Text.Spaced R true (p + word.length + 1) x (p' + word'.length + 1) x'
    ∧ Spaced R true (p + word.length + x.length + 2) gs (p' + word'.length + x'.length + 2) gs'
  := by
  obtain ⟨loose, u, qs, rfl, hu, hqs, hR⟩ := Spaced.of_word_start hword h
  cases hqs with
  | @group _ _ _ v _ x' _ gs' hv hgroup hx hgs =>
    have hlength : p' + (u ++ word ++ v).length = p' + (u ++ word).length + v.length := by
      simp only [List.length_append]
      omega
    refine ⟨u ++ word ++ v, x', gs', ?_, ⟨u, v, rfl, hu, hv, hR⟩, ?_⟩
    · simp
    · rw [hlength]
      exact ⟨hgroup, hx, hgs⟩

/-- Blank parts are spaced to blank parts, and others to others. -/
theorem Spaced.blanks_iff {ps ps' : List Part} (h : Spaced R loose p ps p' ps') :
  (∀ q ∈ ps', q.isBlank = true) ↔ ∀ q ∈ ps, q.isBlank = true
  := by
  induction h with
  | nil hu => apply iff_of_true (Tree.forall_isBlank_map_plain hu) (fun q hq => by cases hq)
  | byte hu _ _ _ ih =>
    rw [List.forall_mem_append, List.forall_mem_cons, List.forall_mem_cons, ih]
    apply and_iff_right (Tree.forall_isBlank_map_plain hu)
  | group =>
    rw [List.forall_mem_append, List.forall_mem_cons, List.forall_mem_cons]
    simp [isBlank]

/-- Items without commas that are spaced one by one, with a comma between each two of them. -/
inductive ItemsSpaced (R : Nat → Nat → Prop) :
    Nat → List (List Part) → Nat → List (List Part) → Prop
  | nil {p p' : Nat} : ItemsSpaced R p [] p' []
  | cons {p p' : Nat} {item item' : List Part} {items items' : List (List Part)} :
    (∀ q ∈ item, q.isComma = false) → Spaced R true p item p' item' →
      ItemsSpaced R (p + widths item + 1) items (p' + widths item' + 1) items' →
        ItemsSpaced R p (item :: items) p' (item' :: items')

theorem ItemsSpaced.dropLast {items items' : List (List Part)}
    (h : ItemsSpaced R p items p' items') :
  ItemsSpaced R p items.dropLast p' items'.dropLast
  := by
  induction h with
  | nil => apply ItemsSpaced.nil
  | cons hcomma hitem hitems ih =>
    cases hitems with
    | nil => apply ItemsSpaced.nil
    | cons => apply ItemsSpaced.cons hcomma hitem ih

/-- The first segments of spaced parts are spaced, and so are the others one by one. -/
theorem Spaced.segments_split {ps ps' : List Part} (h : Spaced R loose p ps p' ps') :
  Spaced R loose p (segments ps).1 p' (segments ps').1
    ∧ ItemsSpaced R (p + widths (segments ps).1 + 1) (segments ps).2
      (p' + widths (segments ps').1 + 1) (segments ps').2
  := by
  induction h with
  | nil hu =>
    rw [segments_of_forall (Tree.Spells.blanks hu).noComma]
    exact ⟨Spaced.nil hu, ItemsSpaced.nil⟩
  | @byte loose p p' u b ps ps' hu hloose hR _ ih =>
    obtain ⟨hfirst, hothers⟩ := ih
    rw [segments_append (Tree.Spells.blanks hu).noComma, segments, segments]
    by_cases hb : b = Byte.comma
    · subst hb
      constructor
      · simp only [isComma, beq_self_eq_true, if_true, List.append_nil]
        apply Spaced.nil hu
      · simp only [isComma, beq_self_eq_true, if_true, List.append_nil, widths_map_plain]
        apply ItemsSpaced.cons
        · intro q hq
          apply (of_mem_segments List.mem_cons_self q hq).2
        · apply hfirst
        · apply hothers
    · have hcomma : (plain b).isComma = false := beq_false_of_ne hb
      simp only [hcomma, Bool.false_eq_true, if_false]
      refine ⟨Spaced.byte hu hloose hR hfirst, ?_⟩
      convert hothers using 1
      · simp only [widths, width]
        omega
      · simp only [widths_append, widths_map_plain, widths, width]
        omega
  | @group loose p p' u x x' ps ps' hu hR hx _ ih =>
    obtain ⟨hfirst, hothers⟩ := ih
    rw [segments_append (Tree.Spells.blanks hu).noComma, segments, segments]
    simp only [isComma, Bool.false_eq_true, if_false]
    refine ⟨Spaced.group hu hR hx hfirst, ?_⟩
    convert hothers using 1
    · simp only [widths, width]
      omega
    · simp only [widths_append, widths_map_plain, widths, width]
      omega

/-- The segments of spaced parts are spaced one by one. -/
theorem Spaced.segments {ps ps' : List Part} (h : Spaced R true p ps p' ps') :
  ItemsSpaced R p ((segments ps).1 :: (segments ps).2) p' ((segments ps').1 :: (segments ps').2)
  := by
  obtain ⟨hfirst, hothers⟩ := h.segments_split
  apply ItemsSpaced.cons
  · intro q hq
    apply (of_mem_segments List.mem_cons_self q hq).2
  · apply hfirst
  · apply hothers

end Part

end Sketch
