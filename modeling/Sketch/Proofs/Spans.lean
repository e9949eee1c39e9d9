import Sketch.Proofs.Positions
import Sketch.Proofs.WrittenBack

/-!
# Spans of what is read

The span of a node says which stretch of the text the node was read from.  Two things make this
precise.

Read on its own, the stretch gives the node again, with all the spans below it
(`Tree.parse_slice_span`).  A stretch lies inside of fewer brackets than the text it comes from, so
there is more room for it, and more room does not change what is read (`Tree.Extends`).

The spans of a tree are nested like its nodes: those of children lie properly inside of the span of
their parent, one after the other with at least one byte between them (`Tree.parse_spans_nest`).
-/

namespace Sketch

/-! ### Stretches of text -/

namespace Span

/-- The bytes that a span stands for in a text that starts at the given position. -/
def slice (s : Span) (offset : Nat) (text : Text) : Text :=
  (text.drop (s.start.toNat - offset)).take (s.stop.toNat - s.start.toNat)

/-- The extent of a piece of a text that is not too long cuts out this piece. -/
theorem slice_ofExtent {offset : Nat} {before piece after : Text}
    (h : offset + (before ++ piece ++ after).length < UInt32.size) :
  (ofExtent (offset + before.length) piece.length).slice offset (before ++ piece ++ after) = piece
  := by
  rw [List.length_append, List.length_append] at h
  obtain ⟨hstart, hstop⟩ := toNat_ofExtent (offset + before.length) piece.length (by omega)
  rw [slice, hstart, hstop, Nat.add_sub_cancel_left, Nat.add_sub_cancel_left, List.append_assoc,
    List.drop_left, List.take_left]

end Span

namespace Tree

open Grammar Text

/-! ### More room -/

/-- Whatever `inner` reads, `inner'` reads in the same way. -/
def Extends (inner inner' : Nat → Text → Parsed Tree) : Prop :=
  ∀ position text t, inner position text = .ok t → inner' position text = .ok t

section Extends

variable {inner inner' : Nat → Text → Parsed Tree} (hinner : Extends inner inner') {position : Nat}

include hinner

theorem Extends.parseGroups {ps : List Part} {ts : List Tree}
    (h : parseGroups inner position ps = .ok ts) :
  parseGroups inner' position ps = .ok ts
  := by
  induction ps generalizing position ts with
  | nil => apply h
  | cons p ps ih =>
    cases p with
    | plain b =>
      rw [Tree.parseGroups] at h ⊢
      split at h
      · next hb =>
        rw [if_pos hb]
        apply ih h
      · cases h
    | group text =>
      obtain ⟨arg, harg, h⟩ := bind_eq_ok_iff.mp h
      obtain ⟨args, hargs, h⟩ := bind_eq_ok_iff.mp h
      refine bind_eq_ok_iff.mpr ⟨arg, hinner _ _ _ harg, ?_⟩
      exact bind_eq_ok_iff.mpr ⟨args, ih hargs, h⟩

/-- What is read successfully is read in the same way if more can be read in brackets. -/
theorem Extends.parseTrimmed {ps : List Part} {t : Tree}
    (h : parseTrimmed inner position ps = .ok t) :
  parseTrimmed inner' position ps = .ok t
  := by
  cases itemForm ps with
  | word word =>
    rw [parseTrimmed_word] at h ⊢
    apply h
  | bracketed x => apply hinner _ _ _ h
  | groups x hword =>
    rw [parseTrimmed_call _ position hword] at h ⊢
    split at h
    · next hname =>
      obtain ⟨args, hargs, h⟩ := bind_eq_ok_iff.mp h
      rw [if_pos hname, hinner.parseGroups hargs]
      apply h
    · cases h

theorem Extends.parseItem {ps : List Part} {t : Tree} (h : parseItem inner position ps = .ok t) :
  parseItem inner' position ps = .ok t
  := hinner.parseTrimmed h

theorem Extends.parseItems {items : List (List Part)} {ts : List Tree}
    (h : parseItems inner position items = .ok ts) :
  parseItems inner' position items = .ok ts
  := by
  induction items generalizing position ts with
  | nil => apply h
  | cons item items ih =>
    obtain ⟨t, ht, h⟩ := bind_eq_ok_iff.mp h
    obtain ⟨ts', hts', h⟩ := bind_eq_ok_iff.mp h
    refine bind_eq_ok_iff.mpr ⟨t, hinner.parseItem ht, ?_⟩
    exact bind_eq_ok_iff.mpr ⟨ts', ih hts', h⟩

/-- A layer that is read successfully is read in the same way if more can be read in brackets. -/
theorem Extends.parseLayer {s : Text} {t : Tree} (h : parseLayer inner position s = .ok t) :
  parseLayer inner' position s = .ok t
  := by
  obtain ⟨ps, hps, rfl⟩ := exists_proper_of_parseLayer h
  rw [parseLayer_texts _ position hps] at h ⊢
  rcases hothers : (segments ps).2 with _ | ⟨second, others⟩
  · rw [hothers] at h
    apply hinner.parseItem h
  · rw [hothers] at h
    obtain ⟨items, hitems, h⟩ := bind_eq_ok_iff.mp h
    exact bind_eq_ok_iff.mpr ⟨items, hinner.parseItems hitems, h⟩

theorem Extends.parseWith {s : Text} {t : Tree} (h : parseWith inner position s = .ok t) :
  parseWith inner' position s = .ok t
  := hinner.parseLayer h

end Extends

/-- With more room, what was read before is read in the same way. -/
theorem extends_parseInner {room room' : Nat} (h : room ≤ room') :
  Extends (parseInner room) (parseInner room')
  := by
  induction room generalizing room' with
  | zero =>
    intro position text t ht
    cases ht
  | succ room ih =>
    obtain ⟨more, rfl⟩ := Nat.exists_eq_add_of_lt h
    intro position text t ht
    exact (ih (Nat.le_add_right room more)).parseWith ht

/-! ### The texts of nodes -/

/-- Every node of the tree is what is read from the stretch of the text that its span stands for.
The text starts at the given position. -/
def Sourced (position : Nat) (text : Text) (t : Tree) : Prop :=
  ∀ m ∈ t.nodes, ∃ before piece after, text = before ++ piece ++ after
    ∧ m.span = .ofExtent (position + before.length) piece.length
    ∧ parse piece (position + before.length) = .ok m

/-- A tree that comes from a text comes from a longer one with other bytes before it. -/
theorem Sourced.append_left {position : Nat} {before text : Text} {t : Tree}
    (h : Sourced (position + before.length) text t) :
  Sourced position (before ++ text) t
  := by
  intro m hm
  obtain ⟨before', piece, after, rfl, hspan, hparse⟩ := h m hm
  have hposition : position + before.length + before'.length
      = position + (before ++ before').length := by
    rw [List.length_append, Nat.add_assoc]
  rw [hposition] at hspan hparse
  refine ⟨before ++ before', piece, after, ?_, hspan, hparse⟩
  simp only [List.append_assoc]

/-- A tree that comes from a text comes from a longer one with other bytes after it. -/
theorem Sourced.append_right {position : Nat} {text : Text} {t : Tree}
    (h : Sourced position text t) (after : Text) :
  Sourced position (text ++ after) t
  := by
  intro m hm
  obtain ⟨before, piece, after', rfl, hspan, hparse⟩ := h m hm
  refine ⟨before, piece, after' ++ after, ?_, hspan, hparse⟩
  simp only [List.append_assoc]

/-- A tree is read from the whole text, and the trees below it from stretches of the text. -/
theorem Sourced.of_children {position : Nat} {text : Text} {t : Tree}
    (hspan : t.span = .ofExtent position text.length) (hparse : parse text position = .ok t)
    (hchildren : ∀ c ∈ t.children, Sourced position text c) :
  Sourced position text t
  := by
  rw [Sourced, forall_nodes]
  exact ⟨⟨[], text, [], (List.append_nil text).symm, hspan, hparse⟩, hchildren⟩

/-- A word is read as a tree without children that spans all of it. -/
theorem leaf_of_parseWord {position : Nat} {word : Text} {t : Tree}
    (h : parseWord position word = .ok t) :
  IsWord word ∧ t.span = .ofExtent position word.length ∧ t.children = []
  := by
  have hread := readsWord_parseWord position word
  rw [h] at hread
  cases hread with
  | @wildcard kind hword => exact ⟨hword ▸ IsWord.wildcard kind, rfl, rfl⟩
  | number hliteral _ => exact ⟨hliteral.isWord, rfl, rfl⟩
  | name hname => exact ⟨IsWord.of_isName hname, rfl, rfl⟩

/-- What is read from a word comes from this word. -/
theorem sourced_parseWord {position : Nat} {word : Text} {t : Tree}
    (h : parseWord position word = .ok t) :
  Sourced position word t
  := by
  obtain ⟨hword, hspan, hchildren⟩ := leaf_of_parseWord h
  apply Sourced.of_children hspan
  · rw [parse, parseWith_spells (Spells.word hword) hword.solid, parseTrimmed_word]
    apply h
  · rw [hchildren]
    apply List.forall_mem_nil

/-- What `inner` reads would also be read with all the room there is, and its nodes are what is read
from their stretches of the text between the brackets. -/
structure ReadsNodes (inner : Nat → Text → Parsed Tree) : Prop where
  full : Extends inner (parseInner maxNesting)
  nodes : ∀ {position : Nat} {text : Text} {t : Tree},
    inner position text = .ok t → Sourced (position + 1) text t

section Nodes

variable {inner : Nat → Text → Parsed Tree} (hinner : ReadsNodes inner) {position : Nat}

include hinner

/-- What is read in brackets comes from the text with its brackets. -/
theorem sourced_group {x : Text} {t : Tree} (h : inner position x = .ok t) :
  Sourced position (Text.bracketed x) t
  := by
  have hbrackets : Text.bracketed x = [Byte.openBracket] ++ (x ++ [Byte.closeBracket]) := rfl
  rw [hbrackets]
  apply Sourced.append_left
  apply (hinner.nodes h).append_right

theorem sourced_parseGroups {ps : List Part} {ts : List Tree}
    (h : parseGroups inner position ps = .ok ts) :
  ∀ t ∈ ts, Sourced position (Part.texts ps) t
  := by
  induction ps generalizing position ts with
  | nil =>
    obtain rfl := Except.ok.inj h
    apply List.forall_mem_nil
  | cons p ps ih =>
    rw [Part.texts_cons]
    cases p with
    | plain b =>
      rw [parseGroups] at h
      split at h
      · intro t ht
        apply Sourced.append_left
        apply ih h t ht
      · cases h
    | group x =>
      obtain ⟨arg, harg, h⟩ := bind_eq_ok_iff.mp h
      obtain ⟨args, hargs, h⟩ := bind_eq_ok_iff.mp h
      obtain rfl := Except.ok.inj h
      rw [List.forall_mem_cons]
      constructor
      · apply (sourced_group hinner harg).append_right
      · intro t ht
        apply Sourced.append_left
        rw [Part.length_text]
        apply ih hargs t ht

/-- What is read from parts without blanks around them comes from their text. -/
theorem sourced_parseTrimmed {ps : List Part} (hps : Spells ps (Part.texts ps))
    (hsolid : Solid Part.isBlank ps) {t : Tree} (h : parseTrimmed inner position ps = .ok t) :
  Sourced position (Part.texts ps) t
  := by
  -- This is of use for calls only: the span of a command in brackets leaves out the brackets.
  have hparse : parse (Part.texts ps) position = .ok t := by
    rw [parse, parseWith_spells hps (Part.solid_texts hsolid)]
    apply hinner.full.parseTrimmed h
  cases itemForm ps with
  | word word =>
    rw [parseTrimmed_word] at h
    rw [Part.texts_map_plain]
    apply sourced_parseWord h
  | bracketed x => simpa [Part.text] using sourced_group hinner h
  | @groups word gs x hword =>
    rw [parseTrimmed_call inner position hword] at h
    split at h
    · obtain ⟨args, hargs, h⟩ := bind_eq_ok_iff.mp h
      obtain rfl := Except.ok.inj h
      apply Sourced.of_children _ hparse
      · rw [Part.texts_append, Part.texts_map_plain]
        intro arg harg
        apply Sourced.append_left
        apply sourced_parseGroups hinner hargs arg harg
      · rw [Part.length_texts]
        rfl
    · cases h

theorem sourced_parseItem {ps : List Part} (hps : Spells ps (Part.texts ps)) {t : Tree}
    (h : parseItem inner position ps = .ok t) :
  Sourced position (Part.texts ps) t
  := by
  obtain ⟨e, htrim, -⟩ := exists_eq_append_trimBy_append Part.isBlank ps
  have hleading : (Part.texts (ps.takeWhile Part.isBlank)).length
      = leadingBy Part.isBlank ps := by
    rw [Part.length_texts]
    apply Part.widths_of_isBlank
    intro p hp
    apply List.all_eq_true.mp List.all_takeWhile p hp
  have htrimmed : Spells (trimBy Part.isBlank ps) (Part.texts (trimBy Part.isBlank ps)) :=
    hps.of_subset fun p hp => mem_of_mem_trimBy hp
  -- Blanks alone are not an item, so something is left after trimming.
  have hsolid : Solid Part.isBlank (trimBy Part.isBlank ps) := by
    apply solid_trimBy
    intro hnil
    rw [parseItem, hnil] at h
    cases h
  rw [htrim, Part.texts_append, Part.texts_append]
  apply Sourced.append_right
  apply Sourced.append_left
  rw [hleading]
  apply sourced_parseTrimmed hinner htrimmed hsolid h

/-- What is read from items comes from their text, with the commas between them. -/
theorem sourced_parseItems {first : List Part} {others : List (List Part)}
    (hspells : ∀ item ∈ first :: others, Spells item (Part.texts item)) {ts : List Tree}
    (h : parseItems inner position (first :: others) = .ok ts) :
  ∀ t ∈ ts, Sourced position
    (Part.texts first ++ others.flatMap fun item => Byte.comma :: Part.texts item) t
  := by
  induction others generalizing position first ts with
  | nil =>
    obtain ⟨t, ht, h⟩ := bind_eq_ok_iff.mp h
    obtain rfl := Except.ok.inj h
    rw [List.flatMap_nil, List.append_nil, List.forall_mem_singleton]
    apply sourced_parseItem hinner (hspells first List.mem_cons_self) ht
  | cons second others ih =>
    obtain ⟨t, ht, h⟩ := bind_eq_ok_iff.mp h
    obtain ⟨ts', hts', h⟩ := bind_eq_ok_iff.mp h
    obtain rfl := Except.ok.inj h
    rw [List.forall_mem_cons]
    constructor
    · apply Sourced.append_right
      apply sourced_parseItem hinner (hspells first List.mem_cons_self) ht
    · intro u hu
      have hrest := ih (fun item hitem => hspells item (List.mem_cons_of_mem first hitem)) hts' u hu
      have hlength : position + Part.widths first + 1
          = position + (Part.texts first ++ [Byte.comma]).length := by
        rw [List.length_append, Part.length_texts]
        rfl
      rw [hlength] at hrest
      simpa using hrest.append_left

theorem sourced_parseLayer {s : Text} (hsolid : Solid Byte.isBlank s) {t : Tree}
    (h : parseLayer inner position s = .ok t) :
  Sourced position s t
  := by
  have hparse : parse s position = .ok t := by
    rw [parse, parseWith_solid hsolid]
    apply hinner.full.parseLayer h
  obtain ⟨ps, hps, rfl⟩ := exists_proper_of_parseLayer h
  have hspells : ∀ item ∈ (segments ps).1 :: (segments ps).2, Spells item (Part.texts item) := by
    intro item hitem
    have hparts := of_mem_segments hitem
    exact ⟨rfl, fun p hp => hps p (hparts p hp).1, fun p hp => (hparts p hp).2⟩
  rw [parseLayer_texts inner position hps] at h
  split at h
  · next hothers =>
    rw [texts_segments, hothers, List.flatMap_nil, List.append_nil]
    apply sourced_parseItem hinner (hspells _ List.mem_cons_self) h
  · obtain ⟨items, hitems, h⟩ := bind_eq_ok_iff.mp h
    obtain rfl := Except.ok.inj h
    apply Sourced.of_children rfl hparse
    rw [texts_segments]
    apply sourced_parseItems hinner hspells hitems

theorem sourced_parseWith {s : Text} {t : Tree} (h : parseWith inner position s = .ok t) :
  Sourced position s t
  := by
  obtain ⟨e, hs, -⟩ := exists_eq_append_trimBy_append Byte.isBlank s
  have hsolid : Solid Byte.isBlank s.trim := by
    apply solid_trimBy
    intro hnil
    rw [parseWith, Text.trim, hnil] at h
    cases h
  rw [hs]
  apply Sourced.append_right
  apply Sourced.append_left
  apply sourced_parseLayer hinner hsolid h

end Nodes

/-- What is read in brackets comes from there, however deep brackets may be nested. -/
theorem readsNodes_parseInner {room : Nat} (h : room ≤ maxNesting) :
  ReadsNodes (parseInner room)
  := by
  induction room with
  | zero =>
    use extends_parseInner h
    intro position text t ht
    cases ht
  | succ room ih =>
    use extends_parseInner h
    intro position text t ht
    apply sourced_parseWith (ih (Nat.le_of_succ_le h)) ht

/-- All nodes of a tree are what is read from their stretches of the text. -/
theorem sourced_parse {text : Text} {offset : Nat} {t : Tree} (h : parse text offset = .ok t) :
  Sourced offset text t
  := sourced_parseWith (readsNodes_parseInner (Nat.le_refl maxNesting)) h

/-- Where positions fit into spans, each node of a tree is what is read from the stretch of the text
that its span stands for, with the same spans at the node and below it. -/
theorem parse_slice_span {text : Text} {offset : Nat} {t : Tree}
    (hfit : offset + text.length < UInt32.size) (h : parse text offset = .ok t) {m : Tree}
    (hm : m ∈ t.nodes) :
  offset ≤ m.span.start.toNat ∧ m.span.start.toNat ≤ m.span.stop.toNat
    ∧ m.span.stop.toNat ≤ offset + text.length
    ∧ parse (m.span.slice offset text) m.span.start.toNat = .ok m
  := by
  obtain ⟨before, piece, after, rfl, hspan, hparse⟩ := sourced_parse h m hm
  have hslice := Span.slice_ofExtent hfit
  rw [List.length_append, List.length_append] at hfit ⊢
  obtain ⟨hstart, hstop⟩ := Span.toNat_ofExtent (offset + before.length) piece.length (by omega)
  rw [hspan, hslice, hstart, hstop]
  exact ⟨by omega, by omega, by omega, hparse⟩

/-- In ` f( (a, b) )(c)`, the first argument comes from `a, b`. -/
theorem parse_slice_span_argument :
  ∃ t pair, parse (utf8 " f( (a, b) )(c)") 7 = .ok t ∧ pair ∈ t.nodes
    ∧ pair.span.slice 7 (utf8 " f( (a, b) )(c)") = utf8 "a, b"
    ∧ parse (pair.span.slice 7 (utf8 " f( (a, b) )(c)")) pair.span.start.toNat = .ok pair
  := by
  have hfit : 7 + (utf8 " f( (a, b) )(c)").length < UInt32.size := by decide
  obtain ⟨pair, hpair⟩ : ∃ pair, pair
      = tuple [name (utf8 "a") ⟨12, 13⟩, name (utf8 "b") ⟨15, 16⟩] ⟨12, 16⟩ := ⟨_, rfl⟩
  have hparse : parse (utf8 " f( (a, b) )(c)") 7
      = .ok (call (utf8 "f") [pair, name (utf8 "c") ⟨20, 21⟩] ⟨8, 22⟩) := by
    rw [hpair]
    rfl
  have hslice : pair.span.slice 7 (utf8 " f( (a, b) )(c)") = utf8 "a, b" := by
    rw [hpair]
    rfl
  have hnode : pair ∈ (call (utf8 "f") [pair, name (utf8 "c") ⟨20, 21⟩] ⟨8, 22⟩).nodes :=
    mem_nodes_child List.mem_cons_self
  exact ⟨_, pair, hparse, hnode, hslice, (parse_slice_span hfit hparse hnode).2.2.2⟩

/-! ### Nested spans -/

/-- Each tree ends before the next one starts. -/
theorem Ranged.pairwise {hi : Nat} (hhi : hi < UInt32.size) :
  ∀ {lo : Nat} {ts : List Tree}, Ranged lo hi ts →
    ts.Pairwise fun a b => a.span.stop < b.span.start
  | _, _, .nil => List.Pairwise.nil
  | _, _, .cons ht hmid hle hts => by
    apply List.Pairwise.cons _ (Ranged.pairwise hhi hts)
    intro u hu
    have htbounds := ht.span_bounds (by omega)
    have hubounds := (hts.placed u hu).span_bounds hhi
    rw [UInt32.lt_iff_toNat_lt]
    omega

/-- None of several trees takes up the whole stretch that they are in. -/
theorem Ranged.proper {lo hi : Nat} {ts : List Tree} (h : Ranged lo hi ts) (hhi : hi < UInt32.size)
    (htwo : 2 ≤ ts.length) :
  ∀ t ∈ ts, lo < t.span.start.toNat ∨ t.span.stop.toNat < hi
  := by
  cases h with
  | nil => apply List.forall_mem_nil
  | @cons lo mid next hi t ts ht hmid hle hts =>
    rw [List.forall_mem_cons]
    constructor
    · right
      rw [List.length_cons, Nat.succ_le_succ_iff] at htwo
      obtain ⟨u, hu⟩ := List.exists_mem_of_length_pos htwo
      have htbounds := ht.span_bounds (by omega)
      have hubounds := (hts.placed u hu).lt
      omega
    · intro u hu
      left
      have htbounds := ht.lt
      have hubounds := (hts.placed u hu).span_bounds hhi
      omega

/-- The span of a node is not empty and lies between `lo` and `hi`, and the spans of the children of
the node lie in it properly, one after the other. -/
structure Nests (lo hi : Nat) (m : Tree) : Prop where
  lower : lo ≤ m.span.start.toNat
  nonempty : m.span.start < m.span.stop
  upper : m.span.stop.toNat ≤ hi
  /-- Children lie in their parent. -/
  within : ∀ c ∈ m.children, m.span.start ≤ c.span.start ∧ c.span.stop ≤ m.span.stop
  /-- No child is all of its parent. -/
  proper : ∀ c ∈ m.children, c.span ≠ m.span
  /-- The arguments of a call neither start where it starts nor end where it ends. -/
  arguments : ∀ n args s, m = .call n args s →
    ∀ c ∈ args, s.start < c.span.start ∧ c.span.stop < s.stop
  /-- Each child ends before the next one starts. -/
  ordered : m.children.Pairwise fun a b => a.span.stop < b.span.start

/-- The children of a node with several items, or in brackets, lie properly in its span. -/
theorem Placed.nests {lo hi : Nat} {m : Tree} (h : Placed lo hi m) (hregular : m.regular = true)
    (hhi : hi < UInt32.size) :
  Nests lo hi m
  := by
  obtain ⟨hlower, hnonempty, hupper⟩ := h.span_bounds hhi
  obtain ⟨hspan, -, -, hend, hchildren⟩ := h
  rename_i p n
  obtain ⟨hstart, hstop⟩ := Span.toNat_ofExtent _ _ (Nat.lt_of_le_of_lt hend hhi)
  rw [← hspan] at hstart hstop
  have hfit : p + n - m.margin < UInt32.size := by omega
  have hchild : ∀ c ∈ m.children, p + m.margin ≤ c.span.start.toNat
      ∧ c.span.start.toNat < c.span.stop.toNat ∧ c.span.stop.toNat ≤ p + n - m.margin :=
    fun c hc => (hchildren.placed c hc).span_bounds hfit
  -- An item of a tuple has others beside it, and the arguments of a call stand in brackets.
  have hproper : ∀ c ∈ m.children, p < c.span.start.toNat ∨ c.span.stop.toNat < p + n := by
    cases m with
    | tuple items s => exact hchildren.proper hfit (of_decide_eq_true hregular)
    | call f args s =>
      intro c hc
      left
      apply (hchild c hc).1
    | _ => apply List.forall_mem_nil
  refine ⟨hlower, UInt32.lt_iff_toNat_lt.mpr hnonempty, hupper, ?_, ?_, ?_, hchildren.pairwise hfit⟩
  · intro c hc
    have := hchild c hc
    rw [UInt32.le_iff_toNat_le, UInt32.le_iff_toNat_le]
    omega
  · intro c hc heq
    have := hproper c hc
    rw [heq] at this
    omega
  · rintro f args s rfl c hc
    have := hchild c hc
    simp only [margin] at this
    rw [span] at hstart hstop
    rw [UInt32.lt_iff_toNat_lt, UInt32.lt_iff_toNat_lt]
    omega

/-- Where positions fit into spans, the spans of a tree are nested and ordered like its nodes. -/
theorem parse_spans_nest {text : Text} {offset : Nat} {t : Tree}
    (hfit : offset + text.length < UInt32.size) (h : parse text offset = .ok t) :
  ∀ m ∈ t.nodes, Nests offset (offset + text.length) m
  := by
  have hplaced : Placed offset (offset + text.length) t := by
    have := readsWithin_parse text offset
    rw [h] at this
    apply this
  have hregular : t.Regular := by
    obtain ⟨hcommand, -⟩ := (parseWith_parseInner_iff maxNesting offset text t.bare).mp ⟨t, h, rfl⟩
    apply regular_bare_iff.mp (regular_of_command hcommand)
  intro m hm
  apply (hplaced.nodes m hm).nests (hregular m hm) hfit

/-- In `(x), f ( y )`, read at the last position where this is possible, the call and its argument
are nested. -/
theorem parse_spans_nest_call :
  let text := utf8 "(x), f ( y )"
  let x := name (utf8 "x") ⟨4294967284, 4294967285⟩
  let f := call (utf8 "f") [name (utf8 "y") ⟨4294967292, 4294967293⟩] ⟨4294967288, 4294967295⟩
  parse text 4294967283 = .ok (tuple [x, f] ⟨4294967283, 4294967295⟩)
    ∧ Nests 4294967283 4294967295 f
  := by
  intro text x f
  have hfit : 4294967283 + text.length < UInt32.size := by decide
  have hparse : parse text 4294967283 = .ok (tuple [x, f] ⟨4294967283, 4294967295⟩) := rfl
  have hf : f ∈ (tuple [x, f] ⟨4294967283, 4294967295⟩).nodes := by
    apply mem_nodes_child
    apply List.mem_cons_of_mem x List.mem_cons_self
  exact ⟨hparse, parse_spans_nest hfit hparse f hf⟩

end Tree

end Sketch
