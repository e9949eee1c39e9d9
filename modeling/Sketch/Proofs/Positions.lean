import Sketch.Proofs.Recognition

/-!
# Positions of what is read

Whatever is read from a stretch of text stays within it: the spans of the tree lie in the stretch,
those of the items of a tuple and of the arguments of a call lie one after the other in the span
of the tuple or call, and errors are reported at positions in the stretch or at its end.

Positions are natural numbers here, as they are while a text is read; the spans of a tree are made
from them (`Tree.Placed`).
-/

namespace Sketch

/-- Where positions fit into spans, they are kept as they are. -/
theorem Span.toNat_ofExtent (position length : Nat) (h : position + length < UInt32.size) :
  (ofExtent position length).start.toNat = position
    ∧ (ofExtent position length).stop.toNat = position + length
  := by
  constructor
  · apply UInt32.toNat_ofNat_of_lt'
    omega
  · apply UInt32.toNat_ofNat_of_lt' h

namespace Tree

/-! ### Placed trees -/

/-- The number of bytes that the span of a tree has, at least, before and after the spans of its
children: the children of calls stand in brackets. -/
def margin : Tree → Nat
  | call _ _ _ => 1
  | _ => 0

mutual

/-- The spans of the tree are made from positions between `lo` and `hi`.  The spans of children
lie in the span of their parent. -/
inductive Placed : (lo hi : Nat) → Tree → Prop
  | node {lo hi p n : Nat} {t : Tree} :
    t.span = .ofExtent p n → lo ≤ p → 0 < n → p + n ≤ hi →
      Ranged (p + t.margin) (p + n - t.margin) t.children → Placed lo hi t

/-- The spans of the trees are made from positions between `lo` and `hi`, with at least one byte
between the spans of a tree and of the next one. -/
inductive Ranged : (lo hi : Nat) → List Tree → Prop
  | nil {lo hi : Nat} : Ranged lo hi []
  | cons {lo mid next hi : Nat} {t : Tree} {ts : List Tree} :
    Placed lo mid t → mid < next → mid ≤ hi → Ranged next hi ts → Ranged lo hi (t :: ts)

end

/-- A tree that is placed within some bounds is so within wider ones. -/
theorem Placed.mono {lo hi lo' hi' : Nat} {t : Tree} (h : Placed lo hi t) (hlo : lo' ≤ lo)
    (hhi : hi ≤ hi') :
  Placed lo' hi' t
  := by
  obtain ⟨hspan, hp, hn, hend, hchildren⟩ := h
  exact .node hspan (hlo.trans hp) hn (hend.trans hhi) hchildren

/-- There is at least one byte between the bounds of a tree. -/
theorem Placed.lt {lo hi : Nat} {t : Tree} (h : Placed lo hi t) :
  lo < hi
  := by
  obtain ⟨-, hp, hn, hend, -⟩ := h
  omega

/-- Trees that are in order from some position on are so from an earlier one on. -/
theorem Ranged.mono {lo hi lo' : Nat} {ts : List Tree} (h : Ranged lo hi ts) (hlo : lo' ≤ lo) :
  Ranged lo' hi ts
  := by
  cases h with
  | nil => apply Ranged.nil
  | cons ht hmid hhi hts => exact .cons (ht.mono hlo (Nat.le_refl _)) hmid hhi hts

/-- Each of several trees in order is within their common bounds. -/
theorem Ranged.placed :
  ∀ {lo hi : Nat} {ts : List Tree}, Ranged lo hi ts → ∀ t ∈ ts, Placed lo hi t
  | _, _, _, .nil, _, ht => absurd ht List.not_mem_nil
  | _, hi, _, .cons hfirst hmid hhi hrest, t, ht => by
    rcases List.mem_cons.mp ht with rfl | ht
    · apply hfirst.mono (Nat.le_refl _) hhi
    · apply (hrest.placed t ht).mono _ (Nat.le_refl hi)
      have := hfirst.lt
      omega

/-- The spans of all nodes of a placed tree lie where the tree does. -/
theorem Placed.nodes {lo hi : Nat} {t : Tree} (h : Placed lo hi t) :
  ∀ m ∈ t.nodes, Placed lo hi m
  := by
  have of_children : ∀ t : Tree, Placed lo hi t →
      (∀ c ∈ t.children, Placed lo hi c → ∀ m ∈ c.nodes, Placed lo hi m) →
        ∀ m ∈ t.nodes, Placed lo hi m := by
    intro t h ih
    rw [forall_nodes]
    use h
    intro c hc
    apply ih c hc
    obtain ⟨-, hp, -, hend, hchildren⟩ := h
    apply (hchildren.placed c hc).mono
    · omega
    · omega
  induction t using Tree.induction with
  | tuple items s ih => exact of_children _ h ih
  | call n args s ih => exact of_children _ h ih
  | _ => exact List.forall_mem_singleton.mpr h

/-- Where positions fit into spans, the span of a placed tree is not empty, and lies where the tree
does. -/
theorem Placed.span_bounds {lo hi : Nat} {t : Tree} (h : Placed lo hi t) (hhi : hi < UInt32.size) :
  lo ≤ t.span.start.toNat ∧ t.span.start.toNat < t.span.stop.toNat ∧ t.span.stop.toNat ≤ hi
  := by
  obtain ⟨hspan, hlo, hn, hend, -⟩ := h
  obtain ⟨hstart, hstop⟩ := Span.toNat_ofExtent _ _ (Nat.lt_of_le_of_lt hend hhi)
  rw [hspan, hstart, hstop]
  omega

/-- If there is room for one more byte, then the span of a placed tree also belongs to a command. -/
theorem Placed.span_within {lo hi : Nat} {t : Tree} (h : Placed lo hi t)
    (hhi : hi < UInt32.size - 1) :
  t.span.isPlaced = true ∧ lo ≤ t.span.start.toNat
    ∧ t.span.start.toNat < t.span.stop.toNat ∧ t.span.stop.toNat ≤ hi
  := by
  have hbounds := h.span_bounds (Nat.lt_of_lt_pred hhi)
  refine ⟨?_, hbounds⟩
  rw [Span.isPlaced, bne_iff_ne]
  intro hnowhere
  rw [hnowhere] at hbounds
  have hstart : Span.nowhere.start.toNat = 4294967295 := rfl
  have hsize : UInt32.size = 4294967296 := rfl
  omega

end Tree

/-! ### Widths of parts -/

namespace Part

/-- The width of a part is the length of its text. -/
theorem length_text (p : Part) :
  p.text.length = p.width
  := by
  cases p with
  | plain b => rfl
  | group inner => simp [text, Text.bracketed, width]

theorem length_texts (ps : List Part) :
  (texts ps).length = widths ps
  := by
  induction ps with
  | nil => rfl
  | cons p ps ih => rw [texts_cons, List.length_append, length_text, ih, widths]

/-- The widths of parts in sequence are added. -/
@[simp]
theorem widths_append (ps qs : List Part) :
  widths (ps ++ qs) = widths ps + widths qs
  := by
  rw [← length_texts, texts_append, List.length_append, length_texts, length_texts]

/-- Plain bytes are one byte wide. -/
@[simp]
theorem widths_map_plain (t : Text) :
  widths (t.map plain) = t.length
  := by
  rw [← length_texts, texts_map_plain]

/-- Blank parts are one byte wide. -/
theorem widths_of_isBlank {ps : List Part} (h : ∀ p ∈ ps, p.isBlank = true) :
  widths ps = ps.length
  := by
  induction ps with
  | nil => rfl
  | cons p ps ih =>
    have hp := h p List.mem_cons_self
    rw [widths, ih fun q hq => h q (List.mem_cons_of_mem p hq), List.length_cons, Nat.add_comm]
    cases p with
    | plain b => rfl
    | group inner => cases hp

/-- The number of bytes of items, each counted with a comma after it. -/
def extent : List (List Part) → Nat
  | [] => 0
  | item :: items => widths item + 1 + extent items

/-- The segments of a text, each with a comma after it, are one byte longer than the text. -/
theorem extent_segments (ps : List Part) :
  extent ((segments ps).1 :: (segments ps).2) = widths ps + 1
  := by
  induction ps with
  | nil => rfl
  | cons p ps ih =>
    rw [extent] at ih
    rw [segments]
    cases hcomma : p.isComma with
    | true =>
      have hwidth : p.width = 1 := by
        cases p with
        | plain b => rfl
        | group inner => cases hcomma
      simp only [if_true, extent, widths, hwidth]
      omega
    | false =>
      simp only [Bool.false_eq_true, if_false, extent, widths]
      omega

theorem extent_dropLast_le (items : List (List Part)) :
  extent items.dropLast ≤ extent items
  := by
  induction items with
  | nil => apply Nat.le_refl
  | cons item items ih =>
    cases items with
    | nil => apply Nat.zero_le
    | cons next items =>
      rw [List.dropLast_cons_cons, extent, extent]
      omega

end Part

namespace Tree

open Grammar Text

/-! ### Reading within a stretch of text -/

/-- The error is reported at a position between `lo` and `hi`. -/
def ErrorAt (lo hi : Nat) (e : ParseError) : Prop :=
  ∃ p, e.position = .ofNat p ∧ lo ≤ p ∧ p ≤ hi

/-- An error that is within some bounds is so within wider ones. -/
theorem ErrorAt.mono {lo hi lo' hi' : Nat} {e : ParseError} (h : ErrorAt lo hi e)
    (hlo : lo' ≤ lo) (hhi : hi ≤ hi') :
  ErrorAt lo' hi' e
  := by
  obtain ⟨p, hposition, hp, hp'⟩ := h
  exact ⟨p, hposition, hlo.trans hp, hp'.trans hhi⟩

/-- Where positions fit into spans, the span of an error is the byte at its position. -/
theorem ErrorAt.span_within {lo hi : Nat} {e : ParseError} (h : ErrorAt lo hi e)
    (hhi : hi < UInt32.size - 1) :
  e.position.toNat ≤ hi ∧ e.span.start.toNat = e.position.toNat
    ∧ e.span.stop.toNat = e.position.toNat + 1
  := by
  obtain ⟨p, hposition, -, hp⟩ := h
  have hsize : UInt32.size = 4294967296 := rfl
  have htoNat : e.position.toNat = p := by
    rw [hposition]
    apply UInt64.toNat_ofNat_of_lt'
    have : UInt64.size = 18446744073709551616 := rfl
    omega
  rw [ParseError.span, htoNat]
  refine ⟨hp, ?_, ?_⟩
  · apply UInt32.toNat_ofNat_of_lt'
    omega
  · apply UInt32.toNat_ofNat_of_lt'
    omega

/-- The tree that is read is placed between `lo` and `hi`, or the error is reported there. -/
abbrev ReadsWithin (lo hi : Nat) : Parsed Tree → Prop := Ends (Placed lo hi) (ErrorAt lo hi)

/-- What is read within some bounds is read within wider ones. -/
theorem ReadsWithin.mono {lo hi lo' hi' : Nat} {x : Parsed Tree} (h : ReadsWithin lo hi x)
    (hlo : lo' ≤ lo) (hhi : hi ≤ hi') :
  ReadsWithin lo' hi' x
  := Ends.mono h (fun _ ht => ht.mono hlo hhi) (fun _ he => he.mono hlo hhi)

/-- A text is rejected at the position that is given for this. -/
theorem errorAt_rejectAt {α : Type} {good : α → Prop} {lo hi position : Nat} (hlo : lo ≤ position)
    (hhi : position ≤ hi) (cause : ParseCause) :
  Ends good (ErrorAt lo hi) (rejectAt position cause : Parsed α)
  := ⟨position, rfl, hlo, hhi⟩

/-- Computations in sequence report errors where either of them does. -/
theorem errorAt_bind {α β : Type} {good : α → Prop} {good' : β → Prop} {lo hi lo' hi' : Nat}
    {x : Parsed α} {f : α → Parsed β} (hx : Ends good (ErrorAt lo hi) x) (hlo : lo' ≤ lo)
    (hhi : hi ≤ hi') (hf : ∀ a, good a → Ends good' (ErrorAt lo' hi') (f a)) :
  Ends good' (ErrorAt lo' hi') (x >>= f)
  := Ends.bind (hx.mono (fun _ ha => ha) (fun _ he => he.mono hlo hhi)) hf

/-- A word is read within its extent. -/
theorem readsWithin_parseWord (position : Nat) (word : Text) :
  ReadsWithin position (position + word.length) (parseWord position word)
  := by
  have placed : ∀ {t : Tree}, t.span = .ofExtent position word.length → t.children = [] →
      IsWord word → Placed position (position + word.length) t := by
    intro t hspan hchildren hword
    apply Placed.node hspan (Nat.le_refl _) (List.length_pos_iff.mpr hword.ne_nil) (Nat.le_refl _)
    rw [hchildren]
    apply Ranged.nil
  have rejected : ∀ cause, ReadsWithin position (position + word.length)
      (rejectAt position cause) := fun cause =>
    errorAt_rejectAt (Nat.le_refl _) (Nat.le_add_right _ _) cause
  have hread := readsWord_parseWord position word
  generalize parseWord position word = x at hread
  cases hread with
  | @wildcard kind hword => apply placed rfl rfl (hword ▸ IsWord.wildcard kind)
  | number hliteral _ => apply placed rfl rfl hliteral.isWord
  | name hname => apply placed rfl rfl (IsWord.of_isName hname)
  | unrepresentable _ _ => apply rejected
  | empty _ => apply rejected
  | unknownForm _ => apply rejected

/-- What stands in brackets is read from between them, and a failure to do so may concern the
opening bracket. -/
def ReadsInner (inner : Nat → Text → Parsed Tree) : Prop :=
  ∀ position text, Ends (Placed (position + 1) (position + 1 + text.length))
    (ErrorAt position (position + 1 + text.length)) (inner position text)

section Inner

variable {inner : Nat → Text → Parsed Tree} (hinner : ReadsInner inner)

include hinner

/-- Arguments in brackets are read in order, between the first and the last bracket. -/
theorem readsWithin_parseGroups (position : Nat) (ps : List Part) :
  Ends (Ranged (position + 1) (position + Part.widths ps - 1))
    (ErrorAt position (position + Part.widths ps)) (parseGroups inner position ps)
  := by
  induction ps generalizing position with
  | nil => exact Ranged.nil
  | cons p ps ih =>
    cases p with
    | plain b =>
      rw [parseGroups]
      split
      · have hwidths : position + Part.widths (.plain b :: ps)
            = position + 1 + Part.widths ps := by
          simp only [Part.widths, Part.width]
          omega
        rw [hwidths]
        apply (ih (position + 1)).mono
        · intro args hargs
          apply hargs.mono (Nat.le_succ _)
        · intro e he
          apply he.mono (Nat.le_succ _) (Nat.le_refl _)
      · apply errorAt_rejectAt (Nat.le_refl _) (Nat.le_add_right _ _)
    | group text =>
      have hwidths : position + Part.widths (.group text :: ps)
          = position + text.length + 2 + Part.widths ps := by
        simp only [Part.widths, Part.width]
        omega
      rw [parseGroups, hwidths]
      apply errorAt_bind (hinner position text) (Nat.le_refl _) (by omega)
      intro arg harg
      apply errorAt_bind (ih (position + text.length + 2)) (by omega) (Nat.le_refl _)
      intro args hargs
      exact Ranged.cons harg (by omega) (by omega) hargs

theorem readsWithin_parseTrimmed (position : Nat) (ps : List Part) :
  ReadsWithin position (position + Part.widths ps) (parseTrimmed inner position ps)
  := by
  cases itemForm ps with
  | word word =>
    rw [parseTrimmed_word, Part.widths_map_plain]
    apply readsWithin_parseWord
  | bracketed x =>
    have hwidths : position + Part.widths [.group x] = position + 1 + x.length + 1 := by
      simp only [Part.widths, Part.width]
      omega
    rw [parseTrimmed_bracketed, hwidths]
    apply (hinner position x).mono
    · intro t ht
      apply ht.mono (Nat.le_succ _) (Nat.le_succ _)
    · intro e he
      apply he.mono (Nat.le_refl _) (Nat.le_succ _)
  | groups x hword =>
    rw [parseTrimmed_call inner position hword, Part.widths_append, Part.widths_map_plain]
    split
    · apply errorAt_bind (readsWithin_parseGroups hinner _ _) (by omega) (by omega)
      intro args hargs
      refine Placed.node rfl (Nat.le_refl _) ?_ (Nat.le_refl _) ?_
      · simp only [Part.widths, Part.width]
        omega
      · rw [← Nat.add_assoc]
        apply hargs.mono
        simp only [margin]
        omega
    · apply errorAt_rejectAt (Nat.le_refl _) (Nat.le_add_right _ _)

/-- An item is read within its extent, blanks included. -/
theorem readsWithin_parseItem (position : Nat) (ps : List Part) :
  ReadsWithin position (position + Part.widths ps) (parseItem inner position ps)
  := by
  obtain ⟨e, hps, he⟩ := exists_eq_append_trimBy_append Part.isBlank ps
  have hleading : Part.widths (ps.takeWhile Part.isBlank) = leadingBy Part.isBlank ps := by
    apply Part.widths_of_isBlank
    intro p hp
    apply List.all_eq_true.mp List.all_takeWhile p hp
  have hwidths : Part.widths ps
      = leadingBy Part.isBlank ps + Part.widths (trimBy Part.isBlank ps) + Part.widths e := by
    rw [← hleading, ← Part.widths_append, ← Part.widths_append, ← hps]
  rw [parseItem]
  apply (readsWithin_parseTrimmed hinner _ _).mono
  · omega
  · omega

/-- Items are read in order, within their extent. -/
theorem readsWithin_parseItems (position : Nat) (items : List (List Part)) :
  Ends (Ranged position (position + Part.extent items - 1))
    (ErrorAt position (position + Part.extent items - 1)) (parseItems inner position items)
  := by
  induction items generalizing position with
  | nil => exact Ranged.nil
  | cons item items ih =>
    have hextent : position + Part.extent (item :: items)
        = position + Part.widths item + 1 + Part.extent items := by
      rw [Part.extent]
      omega
    rw [parseItems, hextent]
    apply errorAt_bind (readsWithin_parseItem hinner position item) (Nat.le_refl _) (by omega)
    intro t ht
    apply errorAt_bind (ih (position + Part.widths item + 1)) (by omega) (Nat.le_refl _)
    intro ts hts
    exact Ranged.cons ht (by omega) (by omega) hts

/-- If what stands in brackets is read within them, then a layer is read within its extent. -/
theorem readsWithin_parseLayer (position : Nat) (text : Text) :
  ReadsWithin position (position + text.length) (parseLayer inner position text)
  := by
  have htext := congrArg List.length (Layer.text_ofText text)
  rw [Layer.text, ← Part.texts, List.length_append, Part.length_texts] at htext
  have hextent := Part.extent_segments (Layer.ofText text).parts
  simp only [parseLayer]
  split
  · apply errorAt_rejectAt (Nat.le_add_right _ _)
    omega
  · have hbefore := Part.extent_dropLast_le
      ((segments (Layer.ofText text).parts).1 :: (segments (Layer.ofText text).parts).2)
    apply errorAt_bind (readsWithin_parseItems hinner _ _) (Nat.le_refl _)
    · omega
    · intro _ _
      apply errorAt_rejectAt (Nat.le_add_right _ _)
      omega
  · next hending =>
    rw [hending, Layer.Ending.text, List.length_nil, Nat.add_zero] at htext
    split
    · next hothers =>
      rw [hothers, Part.extent, Part.extent] at hextent
      apply (readsWithin_parseItem hinner _ _).mono (Nat.le_refl _)
      omega
    · next hothers =>
      have hend : position + Part.extent
          ((segments (Layer.ofText text).parts).1 :: (segments (Layer.ofText text).parts).2) - 1
            = position + text.length := by
        omega
      have hitems := readsWithin_parseItems hinner position
        ((segments (Layer.ofText text).parts).1 :: (segments (Layer.ofText text).parts).2)
      rw [hend] at hitems
      apply hitems.bind
      intro items hitems
      refine Placed.node rfl (Nat.le_refl _) ?_ (Nat.le_refl _) hitems
      obtain ⟨next, rest, hcons⟩ := List.exists_cons_of_ne_nil hothers
      rw [hcons, Part.extent, Part.extent] at hextent
      omega

end Inner

theorem readsWithin_parseWith {inner : Nat → Text → Parsed Tree} (hinner : ReadsInner inner)
    (position : Nat) (text : Text) :
  ReadsWithin position (position + text.length) (parseWith inner position text)
  := by
  obtain ⟨after, htext, -⟩ := exists_eq_append_trimBy_append Byte.isBlank text
  have hlength : text.length = leadingBy Byte.isBlank text + text.trim.length + after.length := by
    conv_lhs => rw [htext]
    rw [List.length_append, List.length_append]
    rfl
  have hleading : text.leadingBlanks = leadingBy Byte.isBlank text := rfl
  rw [parseWith]
  apply (readsWithin_parseLayer hinner _ _).mono
  · omega
  · omega

/-- What stands in brackets is read within them, however deep brackets may be nested. -/
theorem readsInner_parseInner (room : Nat) :
  ReadsInner (parseInner room)
  := by
  induction room with
  | zero =>
    intro position text
    apply errorAt_rejectAt (Nat.le_refl _)
    omega
  | succ room ih =>
    intro position text
    apply Ends.mono (readsWithin_parseWith ih (position + 1) text)
    · intro t ht
      apply ht
    · intro e he
      apply he.mono (Nat.le_succ _) (Nat.le_refl _)

/-- A tree read from a text is placed in it, and errors are reported in it or at its end. -/
theorem readsWithin_parse (text : Text) (offset : Nat) :
  ReadsWithin offset (offset + text.length) (parse text offset)
  := readsWithin_parseWith (readsInner_parseInner maxNesting) offset text

end Tree

end Sketch
