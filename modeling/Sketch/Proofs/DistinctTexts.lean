import Sketch.Figure.Basic
import Sketch.Proofs.Messages

/-!
# Figures and trees with the same text

The text of a figure, and the outline of a tree, say all there is to know apart from spans, and from
the digits of numbers that are not written.  Figures with the same text are of the same kind, and
have as many vertices and coordinates, with the same texts.  Trees with the same outline are of the
same shape, with the same names and wildcards, and with numbers of the same texts, if there is no
double quote in their names (`same_texts`).

Texts are read from left to right for this.  A word or a number ends before the first byte that
cannot stand in it, a name in quotes before the next quote, and a list at its closing bracket.
-/

namespace Sketch

open Text

/-- The byte `[`. -/
def Byte.openSquare : UInt8 := 91

/-- The byte `]`. -/
def Byte.closeSquare : UInt8 := 93

/-- The byte `"`. -/
def Byte.quote : UInt8 := 34

/-- The numbers are written in the same way. -/
def SameText (x y : Number) : Prop := numberText x = numberText y

/-- Figures of the same kind, with as many vertices and coordinates, whose numbers are related. -/
inductive Figure.Agree (R : Number → Number → Prop) : Figure → Figure → Prop
  | point {p q : Coordinates} : List.Forall₂ R p q → Agree R (.point p) (.point q)
  | line {p p' q q' : Coordinates} :
    List.Forall₂ R p p' → List.Forall₂ R q q' → Agree R (.line p q) (.line p' q')
  | curve {ps qs : List Coordinates} :
    List.Forall₂ (List.Forall₂ R) ps qs → Agree R (.curve ps) (.curve qs)

/-- Trees of the same shape, with the same names and wildcards, whose numbers are related. -/
inductive Tree.Agree (R : Number → Number → Prop) : Tree → Tree → Prop
  | number {x y : Number} {r s : Span} : R x y → Agree R (.number x r) (.number y s)
  | name {n : Text} {r s : Span} : Agree R (.name n r) (.name n s)
  | tuple {ts us : List Tree} {r s : Span} :
    List.Forall₂ (Agree R) ts us → Agree R (.tuple ts r) (.tuple us s)
  | call {n : Text} {ts us : List Tree} {r s : Span} :
    List.Forall₂ (Agree R) ts us → Agree R (.call n ts r) (.call n us s)
  | wildcard {kind : Wildcard} {r s : Span} : Agree R (.wildcard kind r) (.wildcard kind s)

/-! ### Texts from left to right -/

/-- A text splits in only one way at the first byte that does not satisfy `p`. -/
theorem split_at_first {p : UInt8 → Bool} {w w' s s' : Text} {d d' : UInt8}
    (hw : ∀ b ∈ w, p b = true) (hw' : ∀ b ∈ w', p b = true) (hd : p d = false)
    (hd' : p d' = false) (h : w ++ d :: s = w' ++ d' :: s') :
  w = w' ∧ d :: s = d' :: s'
  := by
  have htake := congrArg (List.takeWhile p) h
  rw [List.takeWhile_append_of_pos hw, List.takeWhile_append_of_pos hw',
    List.takeWhile_cons_of_neg (ne_true_of_eq_false hd),
    List.takeWhile_cons_of_neg (ne_true_of_eq_false hd'), List.append_nil, List.append_nil] at htake
  subst htake
  exact ⟨rfl, List.append_cancel_left h⟩

/-- The text starts with a byte that does not stand in words and numbers. -/
def Text.Delimited (t : Text) : Prop := ∃ b rest, t = b :: rest ∧ Byte.isFigure b = false

theorem delimited_cons {b : UInt8} (hb : Byte.isFigure b = false) (t : Text) :
  Delimited (b :: t)
  := ⟨b, t, rfl, hb⟩

/-- A text that begins with bytes of numbers does not begin with any other byte. -/
theorem append_ne_of_figures {w : Text} (hw : Figures w) (hne : w ≠ []) {c : UInt8}
    (hc : Byte.isFigure c = false) (s t : Text) :
  w ++ s ≠ c :: t
  := by
  intro h
  obtain ⟨b, rest, rfl⟩ := List.exists_cons_of_ne_nil hne
  have hfigure := hw b List.mem_cons_self
  rw [(List.cons.inj h).1, hc] at hfigure
  cases hfigure

section TellsApart

variable {α : Type} {R : α → α → Prop} {f : α → Text}

/-- Where the texts of `a` and `b` are followed by a delimiter, they are not mistaken for each other
unless `a` and `b` are related. -/
def TellsApart (R : α → α → Prop) (f : α → Text) (a b : α) : Prop :=
  ∀ s t, Delimited s → Delimited t → f a ++ s = f b ++ t → R a b ∧ s = t

/-- Texts that are made of bytes of numbers end where these bytes end. -/
theorem TellsApart.of_figures (hf : ∀ a, Figures (f a)) (a b : α) :
  TellsApart (fun a b => f a = f b) f a b
  := by
  rintro _ _ ⟨d, s, rfl, hd⟩ ⟨d', s', rfl, hd'⟩ h
  exact split_at_first (hf a) (hf b) hd hd' h

/-- The texts after the first one, each with the comma before it. -/
def commaTail (ts : List Text) : Text := ts.flatMap fun t => Byte.comma :: Byte.space :: t

theorem commaTail_cons (t : Text) (ts : List Text) :
  commaTail (t :: ts) = Byte.comma :: Byte.space :: (t ++ commaTail ts)
  := rfl

theorem commaSeparated_cons (t : Text) (ts : List Text) :
  commaSeparated (t :: ts) = t ++ commaTail ts
  := by
  induction ts generalizing t with
  | nil => rw [commaSeparated, List.intercalate_singleton, commaTail, List.flatMap_nil,
      List.append_nil]
  | cons u ts ih =>
    have hsep : utf8 ", " = [Byte.comma, Byte.space] := by decide
    rw [commaSeparated, List.intercalate_cons_cons, ← commaSeparated, ih, hsep, commaTail_cons,
      List.append_assoc]
    rfl

variable {c : UInt8} (hc : Byte.isFigure c = false) (hcomma : c ≠ Byte.comma)

include hc

/-- A comma or the closing byte delimits what stands before it. -/
theorem delimited_commaTail (ts : List Text) (s : Text) :
  Delimited (commaTail ts ++ c :: s)
  := by
  cases ts with
  | nil => exact delimited_cons hc s
  | cons t ts => exact delimited_cons rfl _

include hcomma

/-- If the elements are told apart by their texts, then so are lists by their texts after a first
comma. -/
theorem forall₂_of_commaTail {as bs : List α}
    (h : ∀ a ∈ as, ∀ b ∈ bs, TellsApart R f a b) {s t : Text}
    (heq : commaTail (as.map f) ++ c :: s = commaTail (bs.map f) ++ c :: t) :
  List.Forall₂ R as bs ∧ s = t
  := by
  induction as generalizing bs with
  | nil =>
    cases bs with
    | nil => exact ⟨.nil, (List.cons.inj heq).2⟩
    | cons b bs => exact absurd (List.cons.inj heq).1 hcomma
  | cons a as ih =>
    cases bs with
    | nil => exact absurd (List.cons.inj heq).1.symm hcomma
    | cons b bs =>
      rw [List.map_cons, List.map_cons, commaTail_cons, commaTail_cons] at heq
      have hfirst : f a ++ commaTail (as.map f) ++ c :: s
          = f b ++ commaTail (bs.map f) ++ c :: t := (List.cons.inj (List.cons.inj heq).2).2
      rw [List.append_assoc, List.append_assoc] at hfirst
      obtain ⟨hab, hrest⟩ := h a List.mem_cons_self b List.mem_cons_self _ _
        (delimited_commaTail hc _ s) (delimited_commaTail hc _ t) hfirst
      obtain ⟨hall, hst⟩ := ih (fun a' ha' b' hb' =>
        h a' (List.mem_cons_of_mem a ha') b' (List.mem_cons_of_mem b hb')) hrest
      exact ⟨.cons hab hall, hst⟩

/-- The members of a list can be told apart if this is so for each of them and none of them starts
like the end of the list. -/
theorem forall₂_of_commaSeparated {as bs : List α} (hstart : ∀ a s t, f a ++ s ≠ c :: t)
    (h : ∀ a ∈ as, ∀ b ∈ bs, TellsApart R f a b) {s t : Text}
    (heq : commaSeparated (as.map f) ++ c :: s = commaSeparated (bs.map f) ++ c :: t) :
  List.Forall₂ R as bs ∧ s = t
  := by
  cases as with
  | nil =>
    cases bs with
    | nil => exact ⟨.nil, (List.cons.inj heq).2⟩
    | cons b bs =>
      rw [List.map_cons, commaSeparated_cons, List.append_assoc] at heq
      exact absurd heq.symm (hstart b _ _)
  | cons a as =>
    cases bs with
    | nil =>
      rw [List.map_cons, commaSeparated_cons, List.append_assoc] at heq
      exact absurd heq (hstart a _ _)
    | cons b bs =>
      -- With a comma before each of them, both lists are tails.
      apply forall₂_of_commaTail hc hcomma h
      rw [List.map_cons, List.map_cons, commaSeparated_cons, commaSeparated_cons] at heq
      exact congrArg (fun rest => Byte.comma :: Byte.space :: rest) heq

end TellsApart

/-! ### Figures -/

/-- Numbers are told apart by their texts, up to those with the same text. -/
theorem tellsApart_numberText (x y : Number) :
  TellsApart SameText numberText x y
  := TellsApart.of_figures figures_numberText x y

/-- The text of a number does not begin with a byte that numbers do not have. -/
theorem numberText_append_ne {c : UInt8} (hc : Byte.isFigure c = false) (x : Number) (s t : Text) :
  numberText x ++ s ≠ c :: t
  := append_ne_of_figures (figures_numberText x) (numberText_ne_nil x) hc s t

theorem bracketed_append (t s : Text) :
  bracketed t ++ s = Byte.openBracket :: (t ++ Byte.closeBracket :: s)
  := by
  rw [bracketed, List.cons_append, List.cons_append, List.append_assoc, List.singleton_append]

/-- Lists between round brackets are told apart by their members. -/
theorem forall₂_of_bracketed {α : Type} {R : α → α → Prop} {f : α → Text} {as bs : List α}
    (hstart : ∀ a s t, f a ++ s ≠ Byte.closeBracket :: t) (h : ∀ a b, TellsApart R f a b)
    {s t : Text}
    (heq : bracketed (commaSeparated (as.map f)) ++ s
      = bracketed (commaSeparated (bs.map f)) ++ t) :
  List.Forall₂ R as bs ∧ s = t
  := by
  rw [bracketed_append, bracketed_append] at heq
  exact forall₂_of_commaSeparated rfl (by decide) hstart (fun a _ b _ => h a b)
    (List.cons.inj heq).2

/-- Coordinates are told apart by their texts, up to numbers with the same text. -/
theorem tellsApart_numbersText (p q : Coordinates) :
  TellsApart (List.Forall₂ SameText) numbersText p q
  := by
  intro s t _ _ h
  exact forall₂_of_bracketed (numberText_append_ne rfl) tellsApart_numberText h

theorem numbersText_append_ne (p : Coordinates) (s t : Text) :
  numbersText p ++ s ≠ Byte.closeBracket :: t
  := by
  intro h
  rw [numbersText, bracketed_append] at h
  exact absurd (List.cons.inj h).1 (by decide)

/-- A word ends at the bracket that follows it. -/
theorem split_word {w w' t t' s s' : Text} (hw : Figures w) (hw' : Figures w')
    (h : w ++ bracketed t ++ s = w' ++ bracketed t' ++ s') :
  w = w' ∧ bracketed t ++ s = bracketed t' ++ s'
  := by
  rw [List.append_assoc, List.append_assoc] at h
  rw [bracketed_append, bracketed_append] at h ⊢
  exact split_at_first hw hw' rfl rfl h

/-- Lists whose members have the same texts one by one have the same list of texts. -/
theorem map_eq_of_forall₂ {α : Type} {R : α → α → Prop} {f : α → Text} {as bs : List α}
    (h : List.Forall₂ R as bs) (hR : ∀ a ∈ as, ∀ b, R a b → f a = f b) :
  as.map f = bs.map f
  := by
  induction h with
  | nil => rfl
  | @cons a b as bs hab _ ih =>
    rw [List.map_cons, List.map_cons, hR a List.mem_cons_self b hab,
      ih fun c hc => hR c (List.mem_cons_of_mem a hc)]

/-- Coordinates of which the numbers have the same texts have the same text. -/
theorem numbersText_of_forall₂ {p q : Coordinates} (h : List.Forall₂ SameText p q) :
  numbersText p = numbersText q
  := by
  rw [numbersText, numbersText, map_eq_of_forall₂ h fun _ _ _ hxy => hxy]

namespace Figure

/-- The kinds of figures. -/
inductive Kind where
  | point
  | line
  | curve
deriving DecidableEq

/-- The word that the text of a figure starts with. -/
def Kind.word : Kind → Text
  | point => utf8 "point"
  | line => utf8 "line"
  | curve => utf8 "curve"

theorem Kind.figures_word (k : Kind) :
  Figures k.word
  := by
  cases k <;> exact Figures.of_all rfl

/-- The kind of a figure is told by its word. -/
theorem Kind.word_injective :
  Function.Injective word
  := by
  intro k l
  cases k <;> cases l <;> decide

/-- The kind of a figure. -/
def kind : Figure → Kind
  | .point _ => .point
  | .line _ _ => .line
  | .curve _ => .curve

/-- What the text of a figure has between its brackets. -/
def details : Figure → Text
  | .point p => commaSeparated (p.map numberText)
  | .line p q => commaSeparated ([p, q].map numbersText)
  | .curve ps => commaSeparated (ps.map numbersText)

/-- A figure is written as the word for its kind and its details in brackets. -/
theorem text_eq (f : Figure) :
  f.text = f.kind.word ++ bracketed f.details
  := by
  cases f <;> rfl

/-- Figures with the same text agree. -/
theorem agree_of_text {f g : Figure} (h : f.text = g.text) :
  f.Agree SameText g
  := by
  rw [text_eq, text_eq, ← List.append_nil (_ ++ bracketed f.details),
    ← List.append_nil (_ ++ bracketed g.details)] at h
  obtain ⟨hword, h⟩ := split_word f.kind.figures_word g.kind.figures_word h
  have hkind := Kind.word_injective hword
  cases f with
  | point p =>
    cases g with
    | point q => exact .point (forall₂_of_bracketed (numberText_append_ne rfl)
        tellsApart_numberText h).1
    | _ => cases hkind
  | line p q =>
    cases g with
    | line p' q' =>
      have hboth := (forall₂_of_bracketed numbersText_append_ne tellsApart_numbersText h).1
      rw [List.forall₂_cons, List.forall₂_cons] at hboth
      exact .line hboth.1 hboth.2.1
    | _ => cases hkind
  | curve ps =>
    cases g with
    | curve qs => exact .curve (forall₂_of_bracketed numbersText_append_ne
        tellsApart_numbersText h).1
    | _ => cases hkind

/-- Figures that agree up to the texts of numbers have the same text. -/
theorem Agree.text_eq {f g : Figure} (h : f.Agree SameText g) :
  f.text = g.text
  := by
  cases h with
  | point hp => rw [text, text, numbersText_of_forall₂ hp]
  | line hp hq => rw [text, text, numbersText_of_forall₂ hp, numbersText_of_forall₂ hq]
  | curve hps => rw [text, text, map_eq_of_forall₂ hps fun _ _ _ hpq => numbersText_of_forall₂ hpq]

end Figure

/-! ### Trees -/

/-- The word for the values that a wildcard stands for. -/
def Wildcard.word : Wildcard → Text
  | number => utf8 "Number"
  | tuple => utf8 "NumberTuple"

theorem Wildcard.figures_word (v : Wildcard) :
  Figures v.word
  := by
  cases v <;> exact Figures.of_all rfl

/-- The kind of a wildcard is told by its word. -/
theorem Wildcard.word_injective :
  Function.Injective word
  := by
  intro v w
  cases v <;> cases w <;> decide

namespace Tree

/-- No name of the tree contains a double quote. -/
def QuoteFree (t : Tree) : Prop := ∀ n ∈ t.names, Byte.quote ∉ n

theorem QuoteFree.of_mem_children {t c : Tree} (h : t.QuoteFree) (hc : c ∈ t.children) :
  c.QuoteFree
  := by
  intro n hn
  apply h n (mem_names_of_mem_nodes (mem_nodes_child hc) hn)

/-- There are no quotes in the name at the root of a tree without quotes in its names. -/
theorem QuoteFree.notMem {t : Tree} {n : Text} (h : t.QuoteFree) (hn : t.rootName? = some n) :
  Byte.quote ∉ n
  := h n (mem_names_of_rootName? (mem_nodes_self t) hn)

/-- The kinds of trees. -/
inductive Kind where
  | number
  | name
  | tuple
  | call
  | wildcard
deriving DecidableEq

/-- The word that the outline of a tree starts with. -/
def Kind.word : Kind → Text
  | number => utf8 "Number"
  | name => utf8 "Identifier"
  | tuple => utf8 "Expression"
  | call => utf8 "Function"
  | wildcard => utf8 "Variable"

theorem Kind.figures_word (k : Kind) :
  Figures k.word
  := by
  cases k <;> exact Figures.of_all rfl

theorem Kind.word_injective :
  Function.Injective word
  := by
  intro k l
  cases k <;> cases l <;> decide

theorem Kind.word_ne_nil (k : Kind) :
  k.word ≠ []
  := by
  cases k <;> decide

/-- The kind of a tree. -/
def kind : Tree → Kind
  | .number _ _ => .number
  | .name _ _ => .name
  | .tuple _ _ => .tuple
  | .call _ _ _ => .call
  | .wildcard _ _ => .wildcard

/-- The outlines of trees between square brackets. -/
def outlines (ts : List Tree) : Text :=
  Byte.openSquare :: commaSeparated (ts.map outline) ++ [Byte.closeSquare]

theorem outlines_append (ts : List Tree) (s : Text) :
  outlines ts ++ s
    = Byte.openSquare :: (commaSeparated (ts.map outline) ++ Byte.closeSquare :: s)
  := by
  rw [outlines, List.cons_append, List.cons_append, List.append_assoc, List.singleton_append]

theorem doubleQuoted_append (n s : Text) :
  doubleQuoted n ++ s = Byte.quote :: (n ++ Byte.quote :: s)
  := by
  have hquote : utf8 "\"" = [Byte.quote] := by decide
  rw [doubleQuoted, hquote, List.append_assoc, List.append_assoc, List.singleton_append,
    List.singleton_append]

/-- What the outline of a tree has between its brackets. -/
def details : Tree → Text
  | .number x _ => numberText x
  | .name n _ => doubleQuoted n
  | .tuple items _ => outlines items
  | .call n args _ => doubleQuoted n ++ Byte.comma :: Byte.space :: outlines args
  | .wildcard v _ => v.word

/-- A tree is outlined as the word for its kind and its details in brackets. -/
theorem outline_eq (t : Tree) :
  t.outline = t.kind.word ++ bracketed t.details
  := by
  cases t with
  | number x s => rfl
  | name n s => rfl
  | tuple items s =>
    rw [outline, outlineEach_eq_map, List.append_assoc, details, bracketed, List.cons_append,
      outlines_append]
    rfl
  | call n args s =>
    rw [outline, outlineEach_eq_map, List.append_assoc, List.append_assoc, List.append_assoc,
      details, bracketed, List.cons_append, List.append_assoc, List.cons_append, List.cons_append,
      outlines_append]
    rfl
  | wildcard v s => cases v <;> rfl

/-- An outline does not begin with a closing bracket. -/
theorem outline_append_ne (t : Tree) (s r : Text) :
  t.outline ++ s ≠ Byte.closeSquare :: r
  := by
  rw [outline_eq, List.append_assoc]
  exact append_ne_of_figures t.kind.figures_word t.kind.word_ne_nil rfl _ r

/-- A name ends at the quote that follows it. -/
theorem split_doubleQuoted {m n s t : Text} (hm : Byte.quote ∉ m) (hn : Byte.quote ∉ n)
    (h : doubleQuoted m ++ s = doubleQuoted n ++ t) :
  m = n ∧ s = t
  := by
  rw [doubleQuoted_append, doubleQuoted_append] at h
  have hne {w : Text} (hw : Byte.quote ∉ w) : ∀ b ∈ w, (b != Byte.quote) = true := by
    intro b hb
    rw [bne_iff_ne]
    rintro rfl
    exact hw hb
  obtain ⟨hmn, hst⟩ := split_at_first (hne hm) (hne hn) rfl rfl (List.cons.inj h).2
  exact ⟨hmn, (List.cons.inj hst).2⟩

/-- Trees with the same outline are of the same kind, with the same text between their brackets. -/
theorem split_outline {t u : Tree} {s r : Text} (h : t.outline ++ s = u.outline ++ r) :
  t.kind = u.kind ∧ t.details ++ Byte.closeBracket :: s = u.details ++ Byte.closeBracket :: r
  := by
  rw [outline_eq, outline_eq] at h
  obtain ⟨hword, h⟩ := split_word t.kind.figures_word u.kind.figures_word h
  rw [bracketed_append, bracketed_append] at h
  exact ⟨Kind.word_injective hword, (List.cons.inj h).2⟩

/-- Lists of trees are told apart by their members. -/
theorem forall₂_of_outlines {ts us : List Tree}
    (h : ∀ t ∈ ts, ∀ u ∈ us, TellsApart (Agree SameText) outline t u) {s r : Text}
    (heq : outlines ts ++ s = outlines us ++ r) :
  List.Forall₂ (Agree SameText) ts us ∧ s = r
  := by
  rw [outlines_append, outlines_append] at heq
  exact forall₂_of_commaSeparated rfl (by decide) outline_append_ne h (List.cons.inj heq).2

/-- Trees are told apart by their outlines, whatever follows them. -/
theorem tellsApart_outline {t u : Tree} (ht : t.QuoteFree) (hu : u.QuoteFree) :
  TellsApart (Agree SameText) outline t u
  := by
  -- The induction is on the first tree; the second one, and what follows both, varies with it.
  intro s r hs hr h
  induction t using Tree.induction generalizing u s r with
  | number x p =>
    obtain ⟨hkind, h⟩ := split_outline h
    cases u with
    | number y q =>
      obtain ⟨hxy, hend⟩ := tellsApart_numberText x y _ _ (delimited_cons rfl s)
        (delimited_cons rfl r) h
      exact ⟨.number hxy, (List.cons.inj hend).2⟩
    | _ => cases hkind
  | name n p =>
    obtain ⟨hkind, h⟩ := split_outline h
    cases u with
    | name m q =>
      obtain ⟨rfl, hend⟩ := split_doubleQuoted (ht.notMem rfl) (hu.notMem rfl) h
      exact ⟨.name, (List.cons.inj hend).2⟩
    | _ => cases hkind
  | tuple ts p ih =>
    obtain ⟨hkind, h⟩ := split_outline h
    cases u with
    | tuple us q =>
      obtain ⟨hall, hend⟩ := forall₂_of_outlines (fun t htm u hum =>
        ih t htm (ht.of_mem_children htm) (hu.of_mem_children hum)) h
      exact ⟨.tuple hall, (List.cons.inj hend).2⟩
    | _ => cases hkind
  | call n ts p ih =>
    obtain ⟨hkind, h⟩ := split_outline h
    cases u with
    | call m us q =>
      rw [details, details, List.append_assoc, List.append_assoc] at h
      obtain ⟨rfl, hargs⟩ := split_doubleQuoted (ht.notMem rfl) (hu.notMem rfl) h
      obtain ⟨hall, hend⟩ := forall₂_of_outlines (fun t htm u hum =>
        ih t htm (ht.of_mem_children htm) (hu.of_mem_children hum))
        (List.cons.inj (List.cons.inj hargs).2).2
      exact ⟨.call hall, (List.cons.inj hend).2⟩
    | _ => cases hkind
  | wildcard v p =>
    obtain ⟨hkind, h⟩ := split_outline h
    cases u with
    | wildcard w q =>
      obtain ⟨hword, hend⟩ := TellsApart.of_figures Wildcard.figures_word v w _ _
        (delimited_cons rfl s) (delimited_cons rfl r) h
      cases Wildcard.word_injective hword
      exact ⟨.wildcard, (List.cons.inj hend).2⟩
    | _ => cases hkind

/-- Trees with the same outline agree. -/
theorem agree_of_outline {t u : Tree} (ht : t.QuoteFree) (hu : u.QuoteFree)
    (h : t.outline = u.outline) :
  t.Agree SameText u
  := by
  -- A delimiter stands after both outlines, as it would inside a list.
  apply And.left
  apply tellsApart_outline ht hu [Byte.closeSquare] [Byte.closeSquare] (delimited_cons rfl [])
    (delimited_cons rfl [])
  rw [h]

/-- Trees that agree up to the texts of numbers have the same outline. -/
theorem Agree.outline_eq {t u : Tree} (h : t.Agree SameText u) :
  t.outline = u.outline
  := by
  induction t using Tree.induction generalizing u with
  | tuple ts p ih =>
    cases h with
    | tuple hall => rw [outline, outline, outlineEach_eq_map, outlineEach_eq_map,
        map_eq_of_forall₂ hall fun t ht u h => ih t ht h]
  | call n ts p ih =>
    cases h with
    | call hall => rw [outline, outline, outlineEach_eq_map, outlineEach_eq_map,
        map_eq_of_forall₂ hall fun t ht u h => ih t ht h]
  | number x p =>
    cases h with
    | number hxy => rw [outline, outline, hxy]
  | name n p =>
    cases h with
    | name => rfl
  | wildcard v p =>
    cases h with
    | wildcard => rfl

end Tree

/-- Figures have the same text just when they are of the same kind and have as many vertices and
coordinates, with the same texts.  Trees without a double quote in their names have the same outline
just when they are of the same shape, with the same names and wildcards, and their numbers have the
same texts. -/
theorem same_texts :
  (∀ f g : Figure, f.text = g.text ↔ f.Agree SameText g)
    ∧ ∀ t u : Tree, t.QuoteFree → u.QuoteFree → (t.outline = u.outline ↔ t.Agree SameText u)
  := by
  constructor
  · intro f g
    exact ⟨Figure.agree_of_text, Figure.Agree.text_eq⟩
  · intro t u ht hu
    exact ⟨Tree.agree_of_outline ht hu, Tree.Agree.outline_eq⟩

/-- The number after `1` has its text, and two NaNs of the same sign have the same text.  Two NaNs
of different signs are told apart. -/
theorem same_texts_nested :
  let t := Tree.call (utf8 "f") [.tuple [.number 1 ⟨2, 3⟩, .number ⟨0x7ff8000000000000⟩ ⟨5, 6⟩,
    .name (utf8 "a") ⟨8, 9⟩] ⟨2, 9⟩, .tuple [] .nowhere, .wildcard .tuple .nowhere] ⟨0, 10⟩
  let u := Tree.call (utf8 "f") [.tuple [.number ⟨0x3ff0000000000001⟩ .nowhere,
    .number ⟨0x7ff8000000000001⟩ .nowhere, .name (utf8 "a") .nowhere] .nowhere,
    .tuple [] .nowhere, .wildcard .tuple .nowhere] .nowhere
  let f := Figure.point [⟨0x7ff8000000000000⟩]
  let g := Figure.point [⟨0xfff8000000000000⟩]
  t.QuoteFree ∧ u.QuoteFree ∧ t.Agree SameText u
    ∧ f.text = utf8 "point(nan)" ∧ g.text = utf8 "point(-nan)" ∧ ¬ f.Agree SameText g
  := by
  intro t u f g
  have hnames : ∀ n ∈ [utf8 "f", utf8 "a"], Byte.quote ∉ n := by decide
  have houtline : t.outline = u.outline := by decide +kernel
  have hf : f.text = utf8 "point(nan)" := rfl
  have hg : g.text = utf8 "point(-nan)" := rfl
  have hne : f.text ≠ g.text := by
    rw [hf, hg]
    decide
  exact ⟨hnames, hnames, (same_texts.2 t u hnames hnames).mp houtline, hf, hg,
    fun h => hne ((same_texts.1 f g).mpr h)⟩

end Sketch
