import Sketch.Proofs.UnmatchedBrackets
import Mathlib.Order.Bounds.Basic

/-!
# Brackets nested too deeply

A command of the grammar is read unless its brackets are nested too deeply, and then it is rejected
at the first opening bracket that has too many brackets open before it
(`Tree.parse_nesting_limit`).

With enough room every command is read, so it suffices to compare reading with little room to
reading with more (`Tree.Limits`).  The first goes through the same text in the same order, up to a
bracket for which there is no room.  Every opening bracket is met once, and the ones met before it
are those that stand before it in the text.
-/

namespace Sketch

namespace Tree

open Grammar Text

/-! ### Reading up to a limit -/

/-- What becomes of a text that is correct apart from the nesting of its brackets, if `depth`
brackets are open before it.  The first opening bracket with `limit` brackets open before it is
rejected, and if there is none then the text is read. -/
inductive ReadsToLimit (limit depth position : Nat) (s : Text) {α : Type} : Parsed α → Prop
  | exceeded {i : Nat} :
    IsLeast {i | StandsAt Byte.openBracket limit depth s i} i →
      ReadsToLimit limit depth position s (rejectAt (position + i) .tooDeep)
  | within {a : α} :
    (∀ i, ¬StandsAt Byte.openBracket limit depth s i) →
      ReadsToLimit limit depth position s (.ok a)

section Texts

variable {α β : Type} {limit depth position : Nat} {s t : Text}

/-- Texts in sequence are read in sequence. -/
theorem ReadsToLimit.bind {x : Parsed α} {f : α → Parsed β}
    (hx : ReadsToLimit limit depth position s x)
    (hf : ∀ a, ReadsToLimit limit (openAfter depth s) (position + s.length) t (f a)) :
  ReadsToLimit limit depth position (s ++ t) (x >>= f)
  := by
  cases hx with
  | @exceeded i hi =>
    -- What follows is not looked at any more.
    apply ReadsToLimit.exceeded
    constructor
    · apply standsAt_append.mpr (Or.inl hi.1)
    · intro j hj
      rcases standsAt_append.mp hj with hj | ⟨hle, -⟩
      · apply hi.2 hj
      · have hlt : i < s.length := (List.getElem?_eq_some_iff.mp hi.1.1).1
        omega
  | @within a hnone =>
    have hrest := hf a
    change ReadsToLimit limit depth position (s ++ t) (f a)
    generalize f a = y at hrest
    cases hrest with
    | @exceeded i hi =>
      rw [Nat.add_assoc]
      apply ReadsToLimit.exceeded
      constructor
      · apply standsAt_append.mpr
        right
        rw [Nat.add_sub_cancel_left]
        exact ⟨Nat.le_add_right _ _, hi.1⟩
      · intro j hj
        rcases standsAt_append.mp hj with hj | ⟨hle, hj⟩
        · exact absurd hj (hnone j)
        · have := hi.2 hj
          omega
    | within hnone' =>
      apply ReadsToLimit.within
      intro j hj
      rcases standsAt_append.mp hj with hj | ⟨-, hj⟩
      · apply hnone j hj
      · apply hnone' _ hj

/-- Changing what is read does not change where the limit is reached. -/
theorem ReadsToLimit.map {x : Parsed α} (hx : ReadsToLimit limit depth position s x) (g : α → β) :
  ReadsToLimit limit depth position s (x >>= fun a => pure (g a))
  := by
  cases hx with
  | exceeded hi => exact .exceeded hi
  | within hnone => exact .within hnone

/-- A text without brackets has nothing to be rejected. -/
theorem ReadsToLimit.of_noBrackets (hs : ∀ b ∈ s, Byte.isBracket b = false) (a : α) :
  ReadsToLimit limit depth position s (.ok a)
  := by
  apply ReadsToLimit.within
  rintro i ⟨hi, -⟩
  cases hs _ (List.mem_of_getElem? hi)

/-- Text without brackets before a text only moves it. -/
theorem ReadsToLimit.before (hs : ∀ b ∈ s, Byte.isBracket b = false) {x : Parsed α}
    (hx : ReadsToLimit limit depth (position + s.length) t x) :
  ReadsToLimit limit depth position (s ++ t) x
  := by
  have hopen := (Balanced.of_forall hs).openAfter_eq depth
  exact (ReadsToLimit.of_noBrackets hs ()).bind (f := fun _ => x) fun _ => hopen.symm ▸ hx

/-- Text without brackets after a text does not matter. -/
theorem ReadsToLimit.after {x : Parsed α} (hx : ReadsToLimit limit depth position s x)
    (ht : ∀ b ∈ t, Byte.isBracket b = false) :
  ReadsToLimit limit depth position (s ++ t) x
  := by
  have hbind := hx.bind (f := pure) fun a => ReadsToLimit.of_noBrackets ht a
  rwa [bind_pure] at hbind

end Texts

/-! ### Reading with less room -/

/-- Whatever `wide` reads in brackets, `narrow` reads up to the limit. -/
def Limits (limit depth : Nat) (wide narrow : Nat → Text → Parsed Tree) : Prop :=
  ∀ position x t, Balanced x → wide position x = .ok t →
    ReadsToLimit limit depth position (Text.bracketed x) (narrow position x)

section Limits

variable {limit depth : Nat} {wide narrow : Nat → Text → Parsed Tree}
  (hinner : Limits limit depth wide narrow) {position : Nat}

include hinner

/-- Arguments in brackets that are read with much room are read up to the limit with less. -/
theorem Limits.parseGroups {ps : List Part} (hps : Part.AllProper ps) {ts : List Tree}
    (h : parseGroups wide position ps = .ok ts) :
  ReadsToLimit limit depth position (Part.texts ps) (parseGroups narrow position ps)
  := by
  induction ps generalizing position ts with
  | nil => exact ReadsToLimit.of_noBrackets (List.forall_mem_nil _) []
  | cons p ps ih =>
    have hp := hps p List.mem_cons_self
    have hrest : Part.AllProper ps := fun q hq => hps q (List.mem_cons_of_mem p hq)
    rw [Part.texts_cons]
    cases p with
    | plain b =>
      rw [Tree.parseGroups] at h ⊢
      split at h
      · next hb =>
        rw [if_pos hb]
        apply ReadsToLimit.before (List.forall_mem_singleton.mpr hp)
        apply ih hrest h
      · cases h
    | group x =>
      obtain ⟨arg, harg, h⟩ := bind_eq_ok_iff.mp h
      obtain ⟨args, hargs, -⟩ := bind_eq_ok_iff.mp h
      apply (hinner _ _ _ hp harg).bind
      intro arg'
      have hopen : openAfter depth (Text.bracketed x) = depth :=
        (Balanced.bracketed hp).openAfter_eq depth
      have hlength : position + (Text.bracketed x).length = position + x.length + 2 :=
        congrArg (position + ·) (Part.length_text (.group x))
      rw [hopen, hlength]
      exact (ih hrest hargs).map fun args' => arg' :: args'

theorem Limits.parseTrimmed {ps : List Part} (hps : Part.AllProper ps) {t : Tree}
    (h : parseTrimmed wide position ps = .ok t) :
  ReadsToLimit limit depth position (Part.texts ps) (parseTrimmed narrow position ps)
  := by
  cases itemForm ps with
  | word word =>
    rw [parseTrimmed_word] at h ⊢
    rw [h, Part.texts_map_plain]
    apply ReadsToLimit.of_noBrackets
    intro b hb
    apply hps (.plain b) (List.mem_map_of_mem hb)
  | bracketed x =>
    have hread := hinner _ _ _ (hps (.group x) List.mem_cons_self) h
    rwa [← Part.text, ← List.append_nil (Part.text _)] at hread
  | @groups word gs x hword =>
    have hplain : ∀ b ∈ word, Byte.isBracket b = false := by
      intro b hb
      apply hps (.plain b) (List.mem_append_left _ (List.mem_map_of_mem hb))
    have hgroups : Part.AllProper (.group x :: gs) := fun p hp => hps p (List.mem_append_right _ hp)
    rw [parseTrimmed_call _ position hword] at h ⊢
    rw [Part.texts_append, Part.texts_map_plain]
    split at h
    · next hname =>
      obtain ⟨args, hargs, -⟩ := bind_eq_ok_iff.mp h
      rw [if_pos hname]
      apply ReadsToLimit.before hplain
      apply (hinner.parseGroups hgroups hargs).map
    · cases h

theorem Limits.parseItem {ps : List Part} (hps : Part.AllProper ps) {t : Tree}
    (h : parseItem wide position ps = .ok t) :
  ReadsToLimit limit depth position (Part.texts ps) (parseItem narrow position ps)
  := by
  obtain ⟨e, htrim, he⟩ := exists_eq_append_trimBy_append Part.isBlank ps
  have hstart : ∀ p ∈ ps.takeWhile Part.isBlank, p.isBlank = true :=
    fun p hp => List.all_eq_true.mp List.all_takeWhile p hp
  have hread := hinner.parseTrimmed (fun p hp => hps p (mem_of_mem_trimBy hp)) h
  have hleading : leadingBy Part.isBlank ps
      = (Part.texts (ps.takeWhile Part.isBlank)).length := by
    rw [Part.length_texts, Part.widths_of_isBlank hstart, leadingBy]
  rw [hleading] at hread
  have hbefore := hread.before (blanks_texts hstart).noBrackets
  have hafter := hbefore.after (blanks_texts he).noBrackets
  rw [← Part.texts_append, ← Part.texts_append, ← htrim, ← hleading] at hafter
  apply hafter

theorem Limits.parseItems {first : List Part} {others : List (List Part)}
    (hproper : ∀ item ∈ first :: others, Part.AllProper item) {ts : List Tree}
    (h : parseItems wide position (first :: others) = .ok ts) :
  ReadsToLimit limit depth position
    (Part.texts first ++ others.flatMap fun item => Byte.comma :: Part.texts item)
    (parseItems narrow position (first :: others))
  := by
  induction others generalizing position first ts with
  | nil =>
    obtain ⟨t, ht, -⟩ := bind_eq_ok_iff.mp h
    rw [List.flatMap_nil, List.append_nil]
    exact (hinner.parseItem (hproper first List.mem_cons_self) ht).map fun t => [t]
  | cons second others ih =>
    rw [List.forall_mem_cons] at hproper
    obtain ⟨t, ht, h⟩ := bind_eq_ok_iff.mp h
    obtain ⟨ts', hts', -⟩ := bind_eq_ok_iff.mp h
    apply (hinner.parseItem hproper.1 ht).bind
    intro t'
    rw [(hproper.1).balanced.openAfter_eq, Part.length_texts]
    have hcomma : ∀ b ∈ [Byte.comma], Byte.isBracket b = false :=
      List.forall_mem_singleton.mpr rfl
    exact (ReadsToLimit.before hcomma (ih hproper.2 hts')).map fun ts => t' :: ts

/-- A layer that is read with much room is read up to the limit with less. -/
theorem Limits.parseLayer {s : Text} {t : Tree} (h : parseLayer wide position s = .ok t) :
  ReadsToLimit limit depth position s (parseLayer narrow position s)
  := by
  obtain ⟨ps, hps, rfl⟩ := exists_proper_of_parseLayer h
  have hproper : ∀ item ∈ (segments ps).1 :: (segments ps).2, Part.AllProper item :=
    fun item hitem p hp => hps p (of_mem_segments hitem p hp).1
  rw [parseLayer_texts _ position hps] at h ⊢
  nth_rewrite 1 [texts_segments]
  rcases hothers : (segments ps).2 with _ | ⟨second, others⟩
  · rw [hothers] at h
    rw [List.flatMap_nil, List.append_nil]
    apply hinner.parseItem (hproper _ List.mem_cons_self) h
  · rw [hothers] at h hproper
    obtain ⟨items, hitems, -⟩ := bind_eq_ok_iff.mp h
    apply (hinner.parseItems hproper hitems).map

theorem Limits.parseWith {s : Text} {t : Tree} (h : parseWith wide position s = .ok t) :
  ReadsToLimit limit depth position s (parseWith narrow position s)
  := by
  obtain ⟨e, hs, he⟩ := exists_eq_append_trimBy_append Byte.isBlank s
  have hread := hinner.parseLayer h
  have hbefore := ReadsToLimit.before (blanks_takeWhile s).noBrackets hread
  have hafter := hbefore.after (Blanks.noBrackets he)
  rw [Text.trim, ← hs] at hafter
  apply hafter

end Limits

/-- If there is room up to the limit, then what is read with any room is read up to the limit. -/
theorem limits_parseInner {limit depth : Nat} (wideRoom room : Nat) (h : depth + room = limit) :
  Limits limit depth (parseInner wideRoom) (parseInner room)
  := by
  induction room generalizing wideRoom depth with
  | zero =>
    intro position x t _ _
    -- The opening bracket itself is the first one without room.
    have hfirst : IsLeast {i | StandsAt Byte.openBracket limit depth (Text.bracketed x) i} 0 :=
      ⟨⟨rfl, h⟩, fun i _ => Nat.zero_le i⟩
    exact ReadsToLimit.exceeded hfirst
  | succ room ih =>
    intro position x t hx hread
    cases wideRoom with
    | zero => cases hread
    | succ wideRoom =>
      rw [parseInner] at hread ⊢
      have hinside := (ih wideRoom (by omega : depth + 1 + room = limit)).parseWith hread
      have hopening : ReadsToLimit limit depth position [Byte.openBracket] (.ok ()) := by
        apply ReadsToLimit.within
        rintro (_ | i) ⟨hbyte, hopen⟩
        · have : depth = limit := hopen
          omega
        · cases hbyte
      have hclosing : ∀ u, ReadsToLimit limit (openAfter (depth + 1) x) (position + 1 + x.length)
          [Byte.closeBracket] (.ok u : Parsed Tree) := by
        intro u
        apply ReadsToLimit.within
        rintro (_ | i) ⟨hbyte, -⟩
        · cases hbyte
        · cases hbyte
      have hrest := hinside.bind (f := pure) hclosing
      rw [bind_pure] at hrest
      exact hopening.bind fun _ => hrest

/-- A command of the grammar is read if none of its opening brackets has 256 brackets open before
it.  Otherwise it is rejected at the first such bracket, whose position is cut to 64 bits. -/
theorem parse_nesting_limit {s : Text} {t : Tree} (h : Command s t) (offset : Nat) :
  ((∃ i, StandsAt Byte.openBracket 256 0 s i) →
      ∃ i, IsLeast {i | StandsAt Byte.openBracket 256 0 s i} i
        ∧ ∃ e, parse s offset = .error e ∧ e.kind = .invalidSyntax ∧ e.cause = .tooDeep
          ∧ e.position.toNat = (offset + i) % UInt64.size)
    ∧ ((∀ i, ¬StandsAt Byte.openBracket 256 0 s i) → ∃ u, parse s offset = .ok u)
  := by
  obtain ⟨u, hu, -⟩ := (parseWith_parseInner_iff s.nesting offset s t).mpr ⟨h, Nat.le_refl _⟩
  have hread := (limits_parseInner s.nesting maxNesting (Nat.zero_add _)).parseWith hu
  rw [← parse] at hread
  generalize parse s offset = x at hread
  cases hread with
  | @exceeded i hi =>
    constructor
    · intro _
      exact ⟨i, hi, _, rfl, rfl, rfl, UInt64.toNat_ofNat'⟩
    · intro hnone
      exact absurd hi.1 (hnone i)
  | @within v hnone =>
    constructor
    · rintro ⟨i, hi⟩
      exact absurd hi (hnone i)
    · intro _
      exact ⟨v, rfl⟩

theorem openAfter_replicate (depth n : Nat) :
  openAfter depth (List.replicate n Byte.openBracket) = depth + n
  := by
  induction n generalizing depth with
  | zero => rfl
  | succ n ih =>
    have hnext := ih (depth + 1)
    rw [Nat.add_assoc, Nat.add_comm 1 n] at hnext
    apply hnext

/-- The first bracket that follows `n` opening brackets in a row has these open before it. -/
theorem isLeast_standsAt_replicate (n : Nat) {u : Text} (hu : ∀ b ∈ u, Byte.isBracket b = false)
    (t : Text) :
  IsLeast {i | StandsAt Byte.openBracket n 0
    (List.replicate n Byte.openBracket ++ (u ++ Byte.openBracket :: t)) i} (n + u.length)
  := by
  have hopen : openAfter n u = n := (Balanced.of_forall hu).openAfter_eq n
  constructor
  · apply standsAt_append.mpr
    rw [openAfter_replicate, List.length_replicate, Nat.zero_add, Nat.add_sub_cancel_left]
    refine Or.inr ⟨Nat.le_add_right _ _, standsAt_append.mpr (Or.inr ?_)⟩
    rw [Nat.sub_self, hopen]
    exact ⟨Nat.le_refl _, rfl, rfl⟩
  · intro i hi
    rcases standsAt_append.mp hi with ⟨hbyte, hdepth⟩ | ⟨hle, hi⟩
    · have hlt := (List.getElem?_eq_some_iff.mp hbyte).1
      rw [List.take_replicate, openAfter_replicate] at hdepth
      rw [List.length_replicate] at hlt
      omega
    · rw [List.length_replicate] at hle hi
      rcases standsAt_append.mp hi with ⟨hbyte, -⟩ | ⟨hle', -⟩
      · cases hu _ (List.mem_of_getElem? hbyte)
      · omega

/-- Brackets around a command do not change what it means. -/
theorem command_replicate {s : Text} {t : Tree} (h : Command s t) (n : Nat) :
  Command (List.replicate n Byte.openBracket ++ s ++ List.replicate n Byte.closeBracket) t
  := by
  induction n with
  | zero =>
    rw [List.replicate_zero, List.replicate_zero, List.nil_append, List.append_nil]
    apply h
  | succ n ih =>
    have hbrackets := Command.item (Primary.bracketed ih).item
    rw [List.replicate_succ, List.replicate_succ']
    simpa [Text.bracketed] using hbrackets

/-- In `((…(f(x), y)…))` with 256 brackets around `f(x), y`, the bracket after `f` is reported. -/
theorem parse_nesting_limit_call :
  let s := List.replicate 256 Byte.openBracket ++ utf8 "f(x), y"
    ++ List.replicate 256 Byte.closeBracket
  (∃ t, Command s t) ∧ IsLeast {i | StandsAt Byte.openBracket 256 0 s i} 257
    ∧ ∃ e, parse s 7 = .error e ∧ e.kind = .invalidSyntax ∧ e.position.toNat = 264
  := by
  intro s
  obtain ⟨t, ht⟩ : ∃ t, Command s t :=
    ⟨_, command_replicate (command_of_parse (s := utf8 "f(x), y") rfl).1 256⟩
  have hleast : IsLeast {i | StandsAt Byte.openBracket 256 0 s i} 257 := by
    have hname : ∀ b ∈ utf8 "f", Byte.isBracket b = false := List.forall_mem_singleton.mpr rfl
    have hsplit : ∀ r : Text, utf8 "f(x), y" ++ r
        = utf8 "f" ++ Byte.openBracket :: (utf8 "x), y" ++ r) := fun r => rfl
    simp only [s, List.append_assoc _ (utf8 "f(x), y"), hsplit]
    apply isLeast_standsAt_replicate 256 hname
  obtain ⟨i, hi, e, he, hkind, -, hposition⟩ := (parse_nesting_limit ht 7).1 ⟨257, hleast.1⟩
  obtain rfl := hi.unique hleast
  exact ⟨⟨t, ht⟩, hleast, e, he, hkind, hposition⟩

end Tree

end Sketch
