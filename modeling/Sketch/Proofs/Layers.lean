import Sketch.Command.Layer
import Mathlib.Data.List.TakeWhile
import Mathlib.Tactic.Use

/-!
# Balanced texts and their layers

A text is balanced if each of its brackets is matched within it, and its nesting is the greatest
number of brackets that are open at once.  The layer of a balanced text is complete, and a list
of parts is the layer of its text as soon as its groups are balanced (`Layer.ofText_texts`).  So
splitting a text into parts, splitting the parts at commas and trimming blanks can all be
computed from the way a text is put together.
-/

namespace Sketch

/-! ### Solid lists -/

/-- A list is solid if it has elements, and those at its two ends do not satisfy `p`. -/
structure Solid {α : Type} (p : α → Bool) (ℓ : List α) : Prop where
  /-- The first element does not satisfy `p`. -/
  head : ∃ x rest, ℓ = x :: rest ∧ p x = false
  /-- The last element does not satisfy `p`. -/
  last : ∃ init x, ℓ = init ++ [x] ∧ p x = false

section Solid

variable {α : Type} {p : α → Bool}

/-- Lists with elements, none of which satisfies `p`, are solid. -/
theorem Solid.of_forall {ℓ : List α} (hne : ℓ ≠ []) (h : ∀ x ∈ ℓ, p x = false) :
  Solid p ℓ
  := by
  constructor
  · obtain ⟨x, rest, rfl⟩ := List.exists_cons_of_ne_nil hne
    exact ⟨x, rest, rfl, h x List.mem_cons_self⟩
  · obtain ⟨init, x, rfl⟩ := List.eq_nil_or_concat ℓ |>.resolve_left hne
    refine ⟨init, x, List.concat_eq_append, h x ?_⟩
    simp

/-- What stands between two solid lists does not matter. -/
theorem Solid.append_append {ℓ m : List α} (hℓ : Solid p ℓ) (u : List α) (hm : Solid p m) :
  Solid p (ℓ ++ u ++ m)
  := by
  constructor
  · obtain ⟨x, rest, rfl, hx⟩ := hℓ.head
    refine ⟨x, rest ++ u ++ m, ?_, hx⟩
    simp
  · obtain ⟨init, x, rfl, hx⟩ := hm.last
    refine ⟨ℓ ++ u ++ init, x, ?_, hx⟩
    simp

/-- What is dropped at the beginning ends where the solid part begins. -/
theorem dropWhile_append_solid {u m : List α} (hu : ∀ x ∈ u, p x = true)
    (hm : ∃ x rest, m = x :: rest ∧ p x = false) :
  (u ++ m).dropWhile p = m
  := by
  obtain ⟨x, rest, rfl, hx⟩ := hm
  rw [List.dropWhile_append_of_pos hu]
  apply List.dropWhile_cons_of_neg
  simp [hx]

/-- What is trimmed at the end begins where the solid part ends. -/
theorem trimEndBy_append_solid {m v : List α} (hv : ∀ x ∈ v, p x = true)
    (hm : ∃ init x, m = init ++ [x] ∧ p x = false) :
  trimEndBy p (m ++ v) = m
  := by
  obtain ⟨init, x, rfl, hx⟩ := hm
  rw [trimEndBy, List.reverse_append, dropWhile_append_solid, List.reverse_reverse]
  · intro y hy
    apply hv y (List.mem_reverse.mp hy)
  · exact ⟨x, init.reverse, by simp, hx⟩

/-- Trimming a solid list with elements satisfying `p` on both sides gives the solid list. -/
theorem trimBy_append_solid {u m v : List α} (hu : ∀ x ∈ u, p x = true) (hm : Solid p m)
    (hv : ∀ x ∈ v, p x = true) :
  trimBy p (u ++ m ++ v) = m
  := by
  obtain ⟨x, rest, rfl, hx⟩ := hm.head
  rw [trimBy, List.append_assoc, dropWhile_append_solid hu ⟨x, rest ++ v, List.cons_append, hx⟩]
  apply trimEndBy_append_solid hv hm.last

/-- A solid list has nothing to be trimmed. -/
theorem Solid.trimBy_eq {m : List α} (hm : Solid p m) :
  trimBy p m = m
  := by
  simpa using trimBy_append_solid (u := []) (v := []) (by simp) hm (by simp)

/-- The length of what comes before the solid part. -/
theorem leadingBy_append_solid {u m v : List α} (hu : ∀ x ∈ u, p x = true) (hm : Solid p m) :
  leadingBy p (u ++ m ++ v) = u.length
  := by
  obtain ⟨x, rest, rfl, hx⟩ := hm.head
  rw [leadingBy, List.append_assoc, List.takeWhile_append_of_pos hu, List.cons_append,
    List.takeWhile_cons_of_neg (by simp [hx]), List.append_nil]

theorem head_dropWhile {ℓ : List α} (h : ℓ.dropWhile p ≠ []) :
  ∃ x rest, ℓ.dropWhile p = x :: rest ∧ p x = false
  := by
  use (ℓ.dropWhile p).head h, (ℓ.dropWhile p).tail
  exact ⟨(List.cons_head_tail h).symm, List.head_dropWhile_not p h⟩

/-- What is left of a list after trimming is solid, if anything is left. -/
theorem solid_trimBy {ℓ : List α} (h : trimBy p ℓ ≠ []) :
  Solid p (trimBy p ℓ)
  := by
  constructor
  · obtain ⟨e, he, -⟩ := exists_eq_trimEndBy_append p (ℓ.dropWhile p)
    obtain ⟨y, ys, hy⟩ := List.exists_cons_of_ne_nil h
    rw [← trimBy, hy] at he
    have hne : ℓ.dropWhile p ≠ [] := by
      simp [he]
    obtain ⟨x, rest, hx, hpx⟩ := head_dropWhile hne
    obtain ⟨rfl, -⟩ := List.cons.inj (hx.symm.trans he)
    exact ⟨x, ys, hy, hpx⟩
  · rw [trimBy, trimEndBy, ne_eq, List.reverse_eq_nil_iff] at h
    obtain ⟨x, rest, hx, hpx⟩ := head_dropWhile h
    refine ⟨rest.reverse, x, ?_, hpx⟩
    rw [trimBy, trimEndBy, hx, List.reverse_cons]

/-- Nothing is left if everything is trimmed. -/
theorem trimEndBy_eq_nil_iff {ℓ : List α} :
  trimEndBy p ℓ = [] ↔ ∀ x ∈ ℓ, p x = true
  := by
  rw [trimEndBy, List.reverse_eq_nil_iff, List.dropWhile_eq_nil_iff]
  simp only [List.mem_reverse]

/-- A list all of whose elements satisfy `p` is trimmed as a whole. -/
theorem trimBy_of_forall {ℓ : List α} (h : ∀ x ∈ ℓ, p x = true) :
  trimBy p ℓ = []
  := by
  rw [trimBy, List.dropWhile_eq_nil_iff.mpr h]
  rfl

theorem leadingBy_of_forall {ℓ : List α} (h : ∀ x ∈ ℓ, p x = true) :
  leadingBy p ℓ = ℓ.length
  := by
  rw [leadingBy, List.takeWhile_eq_self_iff.mpr h]

/-- All elements of a list satisfy `p`, or it is a solid list with elements satisfying `p` on both
sides. -/
theorem forall_or_exists_solid (p : α → Bool) (ℓ : List α) :
  (∀ x ∈ ℓ, p x = true) ∨ ∃ u m v, ℓ = u ++ m ++ v ∧ (∀ x ∈ u, p x = true) ∧ Solid p m
    ∧ ∀ x ∈ v, p x = true
  := by
  obtain ⟨e, hℓ, he⟩ := exists_eq_append_trimBy_append p ℓ
  have hstart : ∀ x ∈ ℓ.takeWhile p, p x = true :=
    fun x hx => List.all_eq_true.mp List.all_takeWhile x hx
  by_cases htrim : trimBy p ℓ = []
  · left
    rw [htrim, List.append_nil] at hℓ
    intro x hx
    rw [hℓ] at hx
    rcases List.mem_append.mp hx with hx | hx
    · apply hstart x hx
    · apply he x hx
  · right
    exact ⟨ℓ.takeWhile p, trimBy p ℓ, e, hℓ, hstart, solid_trimBy htrim, he⟩

/-- Elements satisfying `p` around a list are trimmed with those at its ends. -/
theorem trimBy_surrounded {u ℓ v : List α} (hu : ∀ x ∈ u, p x = true) (hv : ∀ x ∈ v, p x = true) :
  trimBy p (u ++ ℓ ++ v) = trimBy p ℓ
  := by
  rcases forall_or_exists_solid p ℓ with hℓ | ⟨u', m, v', rfl, hu', hm, hv'⟩
  · have hall : ∀ x ∈ u ++ ℓ ++ v, p x = true :=
      List.forall_mem_append.mpr ⟨List.forall_mem_append.mpr ⟨hu, hℓ⟩, hv⟩
    rw [trimBy_of_forall hall, trimBy_of_forall hℓ]
  · have hassoc : u ++ (u' ++ m ++ v') ++ v = (u ++ u') ++ m ++ (v' ++ v) := by
      simp
    rw [hassoc, trimBy_append_solid hu' hm hv', trimBy_append_solid _ hm]
    · exact List.forall_mem_append.mpr ⟨hv', hv⟩
    · exact List.forall_mem_append.mpr ⟨hu, hu'⟩

/-- A map commutes with trimming. -/
theorem trimBy_map {β : Type} (f : β → α) (ℓ : List β) :
  trimBy p (ℓ.map f) = (trimBy (p ∘ f) ℓ).map f
  := by
  rw [trimBy, trimEndBy, List.dropWhile_map, ← List.map_reverse, List.dropWhile_map,
    ← List.map_reverse, trimBy, trimEndBy]

theorem leadingBy_map {β : Type} (f : β → α) (ℓ : List β) :
  leadingBy p (ℓ.map f) = leadingBy (p ∘ f) ℓ
  := by
  rw [leadingBy, List.takeWhile_map, List.length_map, leadingBy]

theorem dropWhile_append_cons {x : α} (hx : p x = false) (ℓ m : List α) :
  (ℓ ++ x :: m).dropWhile p = ℓ.dropWhile p ++ x :: m
  := by
  rw [List.dropWhile_append]
  split
  · next h => rw [List.isEmpty_iff.mp h, List.dropWhile_cons_of_neg (by simp [hx]), List.nil_append]
  · rfl

/-- Trimming stops at an element that does not satisfy `p`. -/
theorem trimBy_append_cons {x : α} (hx : p x = false) (ℓ m : List α) :
  trimBy p (ℓ ++ x :: m) = ℓ.dropWhile p ++ x :: trimEndBy p m
  := by
  rw [trimBy, dropWhile_append_cons hx, trimEndBy, List.reverse_append, List.reverse_cons,
    List.append_assoc, List.singleton_append, dropWhile_append_cons hx, List.reverse_append,
    List.reverse_cons, List.reverse_reverse, List.append_assoc, List.singleton_append, trimEndBy]

/-- Counting stops at an element that does not satisfy `p`. -/
theorem leadingBy_append_cons {x : α} (hx : p x = false) (ℓ m : List α) :
  leadingBy p (ℓ ++ x :: m) = leadingBy p ℓ
  := by
  rw [leadingBy, leadingBy, List.takeWhile_append]
  split
  · next h => rw [List.takeWhile_cons_of_neg (by simp [hx]), List.append_nil, h]
  · rfl

/-- Not everything is leading if something is left. -/
theorem leadingBy_lt {ℓ : List α} (h : ¬ ∀ x ∈ ℓ, p x = true) :
  leadingBy p ℓ < ℓ.length
  := by
  apply Nat.lt_of_le_of_ne (List.takeWhile_prefix p).length_le
  intro hlength
  apply h
  rw [← List.takeWhile_eq_self_iff]
  exact (List.takeWhile_prefix p).eq_of_length hlength

/-- Elements satisfying `p` in front of a list are counted, if the list does not consist of such
elements. -/
theorem leadingBy_surrounded {u ℓ : List α} (hu : ∀ x ∈ u, p x = true)
    (hℓ : ¬ ∀ x ∈ ℓ, p x = true) (v : List α) :
  leadingBy p (u ++ ℓ ++ v) = u.length + leadingBy p ℓ
  := by
  have hlt : ¬ (ℓ.takeWhile p).length = ℓ.length := Nat.ne_of_lt (leadingBy_lt hℓ)
  rw [leadingBy, List.append_assoc, List.takeWhile_append_of_pos hu, List.length_append,
    List.takeWhile_append, if_neg hlt, leadingBy]

theorem mem_of_mem_trimBy {ℓ : List α} {x : α} (h : x ∈ trimBy p ℓ) :
  x ∈ ℓ
  := by
  obtain ⟨e, hℓ, -⟩ := exists_eq_append_trimBy_append p ℓ
  rw [hℓ]
  exact List.mem_append_left e (List.mem_append_right _ h)

end Solid

/-! ### Balanced texts -/

/-- Whether a byte is one of the two brackets. -/
def Byte.isBracket (b : UInt8) : Bool := b == openBracket || b == closeBracket

namespace Text

/-- `Closes depth t`: read after `depth` opening brackets, `t` closes these brackets and those it
opens itself, and no others. -/
inductive Closes : Nat → Text → Prop
  | nil : Closes 0 []
  | opening {depth : Nat} {t : Text} :
    Closes (depth + 1) t → Closes depth (Byte.openBracket :: t)
  | closing {depth : Nat} {t : Text} :
    Closes depth t → Closes (depth + 1) (Byte.closeBracket :: t)
  | other {depth : Nat} {b : UInt8} {t : Text} :
    Byte.isBracket b = false → Closes depth t → Closes depth (b :: t)

/-- A text is balanced if each of its brackets is matched within it. -/
abbrev Balanced (t : Text) : Prop := Closes 0 t

/-- The brackets that texts in sequence close are added. -/
theorem Closes.append {d e : Nat} {s t : Text} (hs : Closes d s) (ht : Closes e t) :
  Closes (d + e) (s ++ t)
  := by
  induction hs with
  | nil => simpa using ht
  | opening _ ih =>
    apply Closes.opening
    rw [Nat.add_right_comm]
    apply ih
  | closing _ ih =>
    rw [Nat.add_right_comm]
    apply Closes.closing ih
  | other hb _ ih => apply Closes.other hb ih

/-- Texts with matching brackets in sequence have matching brackets. -/
theorem Balanced.append {s t : Text} (hs : Balanced s) (ht : Balanced t) :
  Balanced (s ++ t)
  := Closes.append hs ht

/-- A balanced text between brackets is balanced. -/
theorem Balanced.bracketed {s : Text} (hs : Balanced s) :
  Balanced (Text.bracketed s)
  := by
  apply Closes.opening
  apply Closes.append hs (Closes.closing Closes.nil)

/-- A text without brackets is balanced. -/
theorem Balanced.of_forall {t : Text} (h : ∀ b ∈ t, Byte.isBracket b = false) :
  Balanced t
  := by
  induction t with
  | nil => apply Closes.nil
  | cons b t ih =>
    apply Closes.other (h b List.mem_cons_self)
    apply ih
    intro c hc
    apply h c (List.mem_cons_of_mem b hc)

/-- The greatest number of brackets that are open at once while a text is read, if `depth`
brackets are open before it.  A bracket that closes nothing does not count. -/
def nestingFrom : (depth : Nat) → Text → Nat
  | depth, [] => depth
  | depth, b :: rest =>
    if b == Byte.openBracket then nestingFrom (depth + 1) rest
    else if b == Byte.closeBracket then max depth (nestingFrom (depth - 1) rest)
    else nestingFrom depth rest

/-- The greatest number of brackets of a text that are open at once. -/
def nesting (t : Text) : Nat := nestingFrom 0 t

@[simp]
theorem nestingFrom_nil (d : Nat) :
  nestingFrom d [] = d
  := rfl

@[simp]
theorem nestingFrom_opening (d : Nat) (t : Text) :
  nestingFrom d (Byte.openBracket :: t) = nestingFrom (d + 1) t
  := rfl

@[simp]
theorem nestingFrom_closing (d : Nat) (t : Text) :
  nestingFrom d (Byte.closeBracket :: t) = max d (nestingFrom (d - 1) t)
  := rfl

theorem nestingFrom_other {b : UInt8} (hb : Byte.isBracket b = false) (d : Nat) (t : Text) :
  nestingFrom d (b :: t) = nestingFrom d t
  := by
  simp only [Byte.isBracket, Bool.or_eq_false_iff] at hb
  simp [nestingFrom, hb.1, hb.2]

/-- The nesting from some depth on is at least this depth. -/
theorem le_nestingFrom (d : Nat) (t : Text) :
  d ≤ nestingFrom d t
  := by
  induction t generalizing d with
  | nil => simp
  | cons b t ih =>
    rw [nestingFrom]
    split
    · have := ih (d + 1)
      omega
    · split
      · omega
      · apply ih d

/-- Brackets that are open before a text and closed after it add to the nesting of the text. -/
theorem Closes.nestingFrom_append {d : Nat} {s : Text} (hs : Closes d s) (e : Nat) (t : Text) :
  nestingFrom (d + e) (s ++ t) = max (nestingFrom d s + e) (nestingFrom e t)
  := by
  -- The `d` brackets are closed one by one, while the `e` brackets stay open all the time.
  induction hs with
  | nil =>
    have := le_nestingFrom e t
    simp
    omega
  | @opening d s _ ih =>
    rw [List.cons_append, nestingFrom_opening, nestingFrom_opening, Nat.add_right_comm, ih]
  | @closing d s _ ih =>
    rw [List.cons_append, nestingFrom_closing, nestingFrom_closing, Nat.add_right_comm,
      Nat.add_sub_cancel, Nat.add_sub_cancel, ih]
    omega
  | other hb _ ih => rw [List.cons_append, nestingFrom_other hb, nestingFrom_other hb, ih]

/-- Texts in sequence are nested as deep as the deeper one, if the brackets of the first one
match. -/
theorem nesting_append {s : Text} (hs : Balanced s) (t : Text) :
  nesting (s ++ t) = max (nesting s) (nesting t)
  := Closes.nestingFrom_append hs 0 t

theorem nesting_other {b : UInt8} (hb : Byte.isBracket b = false) (t : Text) :
  nesting (b :: t) = nesting t
  := nestingFrom_other hb 0 t

/-- Brackets around a text nest it one deeper, if its own brackets match. -/
theorem nesting_bracketed {s : Text} (hs : Balanced s) :
  nesting (Text.bracketed s) = nesting s + 1
  := by
  have h := Closes.nestingFrom_append hs 1 [Byte.closeBracket]
  rw [Nat.zero_add] at h
  rw [nesting, Text.bracketed, List.cons_append, nestingFrom_opening, Nat.zero_add, h, nesting]
  simp

/-- A text without brackets is not nested. -/
theorem nesting_of_forall {t : Text} (h : ∀ b ∈ t, Byte.isBracket b = false) :
  nesting t = 0
  := by
  induction t with
  | nil => rfl
  | cons b t ih =>
    rw [nesting_other (h b List.mem_cons_self)]
    apply ih
    intro c hc
    apply h c (List.mem_cons_of_mem b hc)

end Text

/-! ### Layers of balanced texts -/

namespace Part

/-- The text of a list of parts. -/
def texts (parts : List Part) : Text := parts.flatMap text

@[simp]
theorem texts_nil :
  texts [] = []
  := rfl

@[simp]
theorem texts_cons (p : Part) (ps : List Part) :
  texts (p :: ps) = p.text ++ texts ps
  := List.flatMap_cons

@[simp]
theorem texts_append (ps qs : List Part) :
  texts (ps ++ qs) = texts ps ++ texts qs
  := List.flatMap_append

@[simp]
theorem texts_map_plain (t : Text) :
  texts (t.map plain) = t
  := by
  induction t with
  | nil => rfl
  | cons b t ih => simp [text, ih]

/-- A part is proper if it occurs in layers: it is not a lone bracket, and what is inside its
brackets is balanced. -/
def Proper : Part → Prop
  | plain b => Byte.isBracket b = false
  | group inner => Text.Balanced inner

theorem Proper.balanced :
  ∀ {p : Part}, p.Proper → Text.Balanced p.text
  | plain _, h => Text.Closes.other h Text.Closes.nil
  | group _, h => Text.Balanced.bracketed h

/-- A list of parts is proper if all of them are. -/
abbrev AllProper (parts : List Part) : Prop := ∀ p ∈ parts, p.Proper

theorem AllProper.nil :
  AllProper []
  := fun _ h => absurd h List.not_mem_nil

theorem AllProper.cons {p : Part} {ps : List Part} (hp : p.Proper) (hps : AllProper ps) :
  AllProper (p :: ps)
  := by
  rintro q hq
  rcases List.mem_cons.mp hq with rfl | hq
  · apply hp
  · apply hps q hq

theorem AllProper.append {ps qs : List Part} (hp : AllProper ps) (hq : AllProper qs) :
  AllProper (ps ++ qs)
  := by
  rintro r hr
  rcases List.mem_append.mp hr with hr | hr
  · apply hp r hr
  · apply hq r hr

theorem AllProper.map_plain {t : Text} (h : ∀ b ∈ t, Byte.isBracket b = false) :
  AllProper (t.map plain)
  := by
  intro p hp
  obtain ⟨b, hb, rfl⟩ := List.mem_map.mp hp
  apply h b hb

/-- The text of proper parts has matching brackets. -/
theorem AllProper.balanced {ps : List Part} (h : AllProper ps) :
  Text.Balanced (texts ps)
  := by
  induction ps with
  | nil => apply Text.Closes.nil
  | cons p ps ih =>
    rw [texts_cons]
    apply Text.Balanced.append (h p List.mem_cons_self).balanced
    apply ih
    intro q hq
    apply h q (List.mem_cons_of_mem p hq)

/-- At most `n` brackets of a list of parts are open at once exactly when less than `n` are open at
once inside each of its groups. -/
theorem nesting_texts_le {ps : List Part} (h : AllProper ps) (n : Nat) :
  (texts ps).nesting ≤ n ↔ ∀ inner, group inner ∈ ps → inner.nesting < n
  := by
  induction ps with
  | nil => simp [Text.nesting]
  | cons p ps ih =>
    have hp := h p List.mem_cons_self
    have hps : AllProper ps := fun q hq => h q (List.mem_cons_of_mem p hq)
    rw [texts_cons, Text.nesting_append hp.balanced, Nat.max_le, ih hps]
    cases p with
    | plain b =>
      have hb : Text.nesting [b] = 0 := by
        apply Text.nesting_of_forall
        intro c hc
        rw [List.mem_singleton.mp hc]
        apply hp
      simp [text, hb]
    | group inner =>
      have hinner := Text.nesting_bracketed hp
      simp only [text, hinner, Nat.succ_le_iff, List.mem_cons, group.injEq]
      constructor
      · rintro ⟨hn, hall⟩ x (rfl | hx)
        · apply hn
        · apply hall x hx
      · intro hall
        exact ⟨hall inner (Or.inl rfl), fun x hx => hall x (Or.inr hx)⟩

/-- If the text of a list of parts is solid, then so is the list. -/
theorem solid_of_texts {ps : List Part} (h : Solid Byte.isBlank (texts ps)) :
  Solid isBlank ps
  := by
  constructor
  · obtain ⟨b, rest, hb, hblank⟩ := h.head
    cases ps with
    | nil => simp at hb
    | cons p ps =>
      use p, ps, rfl
      cases p with
      | plain c =>
        obtain ⟨rfl, -⟩ := List.cons.inj hb
        apply hblank
      | group inner => rfl
  · obtain ⟨init, b, hb, hblank⟩ := h.last
    rcases List.eq_nil_or_concat ps with rfl | ⟨qs, p, rfl⟩
    · simp at hb
    · use qs, p, List.concat_eq_append
      cases p with
      | plain c =>
        simp only [List.concat_eq_append, texts_append, texts_cons, text, texts_nil,
          List.append_nil] at hb
        obtain ⟨-, hc⟩ := List.append_inj' hb rfl
        obtain ⟨rfl, -⟩ := List.cons.inj hc
        apply hblank
      | group inner => rfl

/-- The text of a solid list of parts is solid. -/
theorem solid_texts {ps : List Part} (h : Solid isBlank ps) :
  Solid Byte.isBlank (texts ps)
  := by
  constructor
  · obtain ⟨p, rest, rfl, hp⟩ := h.head
    cases p with
    | plain b => exact ⟨b, texts rest, rfl, hp⟩
    | group inner =>
      refine ⟨Byte.openBracket, inner ++ [Byte.closeBracket] ++ texts rest, ?_, rfl⟩
      simp [text, Text.bracketed]
  · obtain ⟨init, p, rfl, hp⟩ := h.last
    cases p with
    | plain b =>
      refine ⟨texts init, b, ?_, hp⟩
      simp [text]
    | group inner =>
      refine ⟨texts init ++ Byte.openBracket :: inner, Byte.closeBracket, ?_, rfl⟩
      simp [text, Text.bracketed]

end Part

namespace Layer

/-- A group goes on after a text that closes what it opens. -/
theorem closing_append {d : Nat} {s : Text} (hs : Text.Closes d s) (e : Nat) (t : Text) :
  closing (d + e) (s ++ t) = (s ++ (closing e t).1, (closing e t).2)
  := by
  induction hs with
  | nil => simp
  | @opening d s _ ih =>
    rw [List.cons_append, closing, if_pos (by rfl), Nat.add_right_comm, ih]
    rfl
  | @closing d s _ ih =>
    have hne : ¬ d + 1 + e = 0 := by omega
    rw [List.cons_append, closing, if_neg (by decide), if_pos (by rfl), if_neg hne,
      Nat.add_right_comm, Nat.add_sub_cancel, ih]
    rfl
  | other hb _ ih =>
    simp only [Byte.isBracket, Bool.or_eq_false_iff] at hb
    rw [List.cons_append, closing, if_neg (by simp [hb.1]), if_neg (by simp [hb.2]), ih]
    rfl

/-- A proper part in front of a text comes first in its layer. -/
theorem ofText_append {p : Part} (hp : p.Proper) (t : Text) :
  ofText (p.text ++ t) = (ofText t).cons p
  := by
  cases p with
  | plain b =>
    simp only [Part.Proper, Byte.isBracket, Bool.or_eq_false_iff] at hp
    rw [Part.text, List.cons_append, ofText, if_neg (by simp [hp.1]), if_neg (by simp [hp.2])]
    rfl
  | group inner =>
    have h : closing 0 (inner ++ Byte.closeBracket :: t) = (inner, some (ofText t)) := by
      rw [← Nat.add_zero 0, closing_append hp 0, closing]
      simp [Byte.closeBracket, Byte.openBracket]
    have htext : (Part.group inner).text ++ t
        = Byte.openBracket :: (inner ++ Byte.closeBracket :: t) := by
      simp [Part.text, Text.bracketed]
    rw [htext, ofText, if_pos (by rfl), h]

/-- A list of proper parts is the layer of its text. -/
theorem ofText_texts {ps : List Part} (h : Part.AllProper ps) :
  ofText (Part.texts ps) = ⟨ps, .complete⟩
  := by
  induction ps with
  | nil => rfl
  | cons p ps ih =>
    rw [Part.texts_cons, ofText_append (h p List.mem_cons_self), ih]
    · rfl
    · intro q hq
      apply h q (List.mem_cons_of_mem p hq)

/-- All parts of a layer are proper, and the text before the end of a group closes what it
opens. -/
theorem proper_ofText_and_closing (t : Text) :
  Part.AllProper (ofText t).parts
    ∧ ∀ depth inner layer, closing depth t = (inner, some layer) →
      Text.Closes depth inner ∧ Part.AllProper layer.parts
  := by
  -- The two scans call each other, so what is said about them is proved at once.
  induction t with
  | nil =>
    use Part.AllProper.nil
    simp [closing]
  | cons b t ih =>
    obtain ⟨outside, inside⟩ := ih
    constructor
    · rw [ofText]
      split
      · split
        · next inner layer heq =>
          obtain ⟨hinner, hlayer⟩ := inside 0 inner layer heq
          exact Part.AllProper.cons hinner hlayer
        · apply Part.AllProper.nil
      · split
        · apply Part.AllProper.nil
        · next hopen hclose =>
          apply Part.AllProper.cons _ outside
          simp [Part.Proper, Byte.isBracket, hopen, hclose]
    · intro depth inner layer h
      rw [closing] at h
      split at h
      · next hb =>
        obtain rfl := eq_of_beq hb
        obtain ⟨rfl, hlayer⟩ := Prod.mk.inj h
        obtain ⟨hinner, hproper⟩ := inside (depth + 1) _ layer (Prod.ext rfl hlayer)
        exact ⟨Text.Closes.opening hinner, hproper⟩
      · split at h
        · next hb =>
          obtain rfl := eq_of_beq hb
          split at h
          · next hdepth =>
            obtain ⟨rfl, hlayer⟩ := Prod.mk.inj h
            obtain rfl := Option.some.inj hlayer
            exact ⟨hdepth ▸ Text.Closes.nil, outside⟩
          · next hdepth =>
            obtain ⟨rfl, hlayer⟩ := Prod.mk.inj h
            obtain ⟨hinner, hproper⟩ := inside (depth - 1) _ layer (Prod.ext rfl hlayer)
            have hd : depth = depth - 1 + 1 := by omega
            rw [hd]
            exact ⟨Text.Closes.closing hinner, hproper⟩
        · next hopen hclose =>
          obtain ⟨rfl, hlayer⟩ := Prod.mk.inj h
          obtain ⟨hinner, hproper⟩ := inside depth _ layer (Prod.ext rfl hlayer)
          refine ⟨Text.Closes.other ?_ hinner, hproper⟩
          simp [Byte.isBracket, hopen, hclose]

/-- All parts of a layer are proper. -/
theorem proper_ofText (t : Text) :
  Part.AllProper (ofText t).parts
  := (proper_ofText_and_closing t).1

end Layer

/-! ### Segments -/

/-- Parts without commas in front of a list of parts belong to its first segment. -/
theorem segments_append {ps : List Part} (h : ∀ p ∈ ps, p.isComma = false) (qs : List Part) :
  segments (ps ++ qs) = (ps ++ (segments qs).1, (segments qs).2)
  := by
  induction ps with
  | nil => rfl
  | cons p ps ih =>
    rw [List.cons_append, segments, ih, h p List.mem_cons_self]
    · rfl
    · intro q hq
      apply h q (List.mem_cons_of_mem p hq)

/-- Parts without commas make up one segment. -/
theorem segments_of_forall {ps : List Part} (h : ∀ p ∈ ps, p.isComma = false) :
  segments ps = (ps, [])
  := by
  have hsegments := segments_append h []
  rwa [segments, List.append_nil] at hsegments

/-- Parts without commas that are followed by a comma make up the first segment. -/
theorem segments_append_comma {ps : List Part} (h : ∀ p ∈ ps, p.isComma = false)
    (qs : List Part) :
  segments (ps ++ .plain Byte.comma :: qs) = (ps, (segments qs).1 :: (segments qs).2)
  := by
  rw [segments_append h]
  exact congrArg (·, (segments qs).1 :: (segments qs).2) (List.append_nil ps)

/-- A list of parts is its segments with commas between them. -/
theorem texts_segments (ps : List Part) :
  Part.texts ps
    = Part.texts (segments ps).1
      ++ (segments ps).2.flatMap fun segment => Byte.comma :: Part.texts segment
  := by
  induction ps with
  | nil => rfl
  | cons p ps ih =>
    rw [Part.texts_cons, ih, segments]
    cases p with
    | group inner => simp [Part.isComma]
    | plain b =>
      by_cases hb : b = Byte.comma
      · simp [Part.isComma, Part.text, hb]
      · simp [Part.isComma, hb]

/-- Every group is in some segment. -/
theorem exists_mem_segments {ps : List Part} {inner : Text} (h : .group inner ∈ ps) :
  ∃ segment ∈ (segments ps).1 :: (segments ps).2, .group inner ∈ segment
  := by
  induction ps with
  | nil => simp at h
  | cons p ps ih =>
    rw [segments]
    dsimp only
    rcases List.mem_cons.mp h with rfl | h
    · use .group inner :: (segments ps).1
      simp [Part.isComma]
    · obtain ⟨segment, hsegment, hmem⟩ := ih h
      split
      · use segment, List.mem_cons_of_mem _ hsegment
      · rcases List.mem_cons.mp hsegment with rfl | hsegment
        · use p :: (segments ps).1, List.mem_cons_self
          apply List.mem_cons_of_mem p hmem
        · use segment, List.mem_cons_of_mem _ hsegment

/-- The segments of a list of parts are made of these parts, and have no commas. -/
theorem of_mem_segments {ps segment : List Part}
    (hsegment : segment ∈ (segments ps).1 :: (segments ps).2) :
  ∀ p ∈ segment, p ∈ ps ∧ p.isComma = false
  := by
  intro p hp
  induction ps generalizing segment with
  | nil =>
    obtain rfl := List.mem_singleton.mp hsegment
    cases hp
  | cons q ps ih =>
    have later : ∀ {segment}, segment ∈ (segments ps).1 :: (segments ps).2 → p ∈ segment →
        p ∈ q :: ps ∧ p.isComma = false := by
      intro segment hsegment hp
      obtain ⟨hmem, hcomma⟩ := ih hsegment hp
      exact ⟨List.mem_cons_of_mem q hmem, hcomma⟩
    rw [segments] at hsegment
    dsimp only at hsegment
    split at hsegment
    · rcases List.mem_cons.mp hsegment with rfl | hsegment
      · cases hp
      · apply later hsegment hp
    · next hcomma =>
      rcases List.mem_cons.mp hsegment with rfl | hsegment
      · rcases List.mem_cons.mp hp with rfl | hp
        · exact ⟨List.mem_cons_self, Bool.eq_false_iff.mpr hcomma⟩
        · apply later List.mem_cons_self hp
      · apply later (List.mem_cons_of_mem _ hsegment) hp

end Sketch
