import Sketch.Command.Parser
import Sketch.Proofs.Grammar
import Sketch.Proofs.Outcome

/-!
# Reading recognises the grammar

A command is read layer by layer: a layer is cut into segments at its commas, each segment is
classified by its parts, and what stands in brackets is left to `inner`, which reads the next
layer.  So every function of the reader is looked at for an arbitrary `inner`.

If `inner` only reads commands of the grammar, so does each function that uses it.  If a text is
read, then `inner` reads the contents of all its groups, which bounds the nesting of the text.
Conversely, if `inner` reads all commands that are not nested too deeply, then a derivation in
the grammar gives the parts of a text, and the functions read them one by one.

The reader that has room for `room` levels of brackets is obtained by iteration, and induction on
`room` turns these three facts into one equivalence (`Tree.parseWith_parseInner_iff`).
-/

namespace Sketch

namespace Tree

open Grammar Text

/-! ### Reading by the form of an item -/

/-- The forms of an item: a word, something in brackets, or brackets after a word or followed by
anything. -/
inductive ItemForm : List Part → Prop
  | word (word : Text) : ItemForm (word.map .plain)
  | bracketed (x : Text) : ItemForm [.group x]
  | groups {word : Text} {gs : List Part} (x : Text) :
    word ≠ [] ∨ gs ≠ [] → ItemForm (word.map .plain ++ .group x :: gs)

/-- Every list of parts has one of the forms of an item. -/
theorem itemForm (ps : List Part) :
  ItemForm ps
  := by
  induction ps with
  | nil => exact ItemForm.word []
  | cons p ps ih =>
    cases p with
    | plain b =>
      cases ih with
      | word word => exact ItemForm.word (b :: word)
      | bracketed x => exact ItemForm.groups x (Or.inl (List.cons_ne_nil b []))
      | @groups word gs x _ => exact ItemForm.groups x (Or.inl (List.cons_ne_nil b word))
    | group x =>
      cases ps with
      | nil => exact ItemForm.bracketed x
      | cons q ps => exact @ItemForm.groups [] (q :: ps) x (Or.inr (List.cons_ne_nil q ps))

theorem filterMap_plain?_map_plain (word : Text) :
  (word.map Part.plain).filterMap Part.plain? = word
  := by
  induction word with
  | nil => rfl
  | cons b word ih => simp [Part.plain?, ih]

section Equations

variable (inner : Nat → Text → Parsed Tree) (position : Nat)

/-- Plain bytes on their own are a word. -/
theorem parseTrimmed_word (word : Text) :
  parseTrimmed inner position (word.map .plain) = parseWord position word
  := by
  have hplain : ∀ p ∈ word.map Part.plain, p.plain?.isSome = true := by
    intro p hp
    obtain ⟨b, -, rfl⟩ := List.mem_map.mp hp
    rfl
  unfold parseTrimmed
  split
  · next x h =>
    have := hplain (.group x) (h ▸ List.mem_singleton.mpr rfl)
    cases this
  · rw [List.takeWhile_eq_self_iff.mpr hplain, List.dropWhile_eq_nil_iff.mpr hplain,
      filterMap_plain?_map_plain]

/-- A pair of brackets on its own is read as what stands inside of it. -/
theorem parseTrimmed_bracketed (x : Text) :
  parseTrimmed inner position [.group x] = inner position x
  := rfl

/-- Brackets after a word, or followed by anything, are read as the arguments of a call. -/
theorem parseTrimmed_call {word : Text} {gs : List Part} (h : word ≠ [] ∨ gs ≠ []) (x : Text) :
  parseTrimmed inner position (word.map .plain ++ .group x :: gs)
    = if word.trim.isName then do
        let args ← parseGroups inner (position + word.length) (.group x :: gs)
        return .call word.trim args
          (.ofExtent position (Part.widths (word.map .plain ++ .group x :: gs)))
      else
        rejectAt position (.noFunctionName word.trim)
  := by
  have hplain : ∀ p ∈ word.map Part.plain, p.plain?.isSome = true := by
    intro p hp
    obtain ⟨b, -, rfl⟩ := List.mem_map.mp hp
    rfl
  have htake : (word.map Part.plain ++ .group x :: gs).takeWhile (·.plain?.isSome)
      = word.map .plain := by
    rw [List.takeWhile_append_of_pos hplain]
    simp [Part.plain?]
  have hdrop : (word.map Part.plain ++ .group x :: gs).dropWhile (·.plain?.isSome)
      = .group x :: gs := by
    rw [List.dropWhile_append_of_pos hplain]
    simp [Part.plain?]
  unfold parseTrimmed
  split
  · next y heq =>
    exfalso
    cases word with
    | nil =>
      obtain ⟨-, rfl⟩ := List.cons.inj heq
      simp at h
    | cons b word => cases heq
  · rw [htake, hdrop, filterMap_plain?_map_plain]

/-- The layer of proper parts is complete, and its segments are read as items. -/
theorem parseLayer_texts {ps : List Part} (h : Part.AllProper ps) :
  parseLayer inner position (Part.texts ps)
    = match (segments ps).2 with
      | [] => parseItem inner position (segments ps).1
      | _ => do
        let items ← parseItems inner position ((segments ps).1 :: (segments ps).2)
        return .tuple items (.ofExtent position (Part.texts ps).length)
  := by
  have hlayer := Layer.ofText_texts h
  unfold parseLayer
  generalize Layer.ofText (Part.texts ps) = layer at hlayer ⊢
  subst hlayer
  rfl

end Equations

/-- A layer that is read has no unmatched brackets. -/
theorem exists_proper_of_parseLayer {inner : Nat → Text → Parsed Tree} {position : Nat}
    {s : Text} {t : Tree} (h : parseLayer inner position s = .ok t) :
  ∃ ps, Part.AllProper ps ∧ s = Part.texts ps
  := by
  use (Layer.ofText s).parts, Layer.proper_ofText s
  have htext := Layer.text_ofText s
  rw [Layer.text] at htext
  simp only [parseLayer] at h
  split at h
  · cases h
  · obtain ⟨_, -, h⟩ := bind_eq_ok_iff.mp h
    cases h
  · next hending =>
    rw [hending, Layer.Ending.text, List.append_nil] at htext
    apply htext.symm

/-! ### What is read is in the grammar -/

/-- What becomes of a word. -/
inductive ReadsWord (position : Nat) (word : Text) : Parsed Tree → Prop
  | wildcard {kind : Wildcard} :
    word = kind.text → ReadsWord position word
      (.ok (.wildcard kind (.ofExtent position word.length)))
  | number {x : Number} :
    Literal word → readNumber? word = some x → ReadsWord position word
      (.ok (.number x (.ofExtent position word.length)))
  | name :
    word.isName = true → ReadsWord position word (.ok (.name word (.ofExtent position word.length)))
  | unrepresentable :
    Literal word → readNumber? word = none → ReadsWord position word
      (rejectAt position (.unrepresentable word))
  | empty : word = [] → ReadsWord position word (rejectAt position .empty)
  | unknownForm : word ≠ [] → ReadsWord position word (rejectAt position (.unknownForm word))

/-- Every word is read in one of the ways that there are for words. -/
theorem readsWord_parseWord (position : Nat) (word : Text) :
  ReadsWord position word (parseWord position word)
  := by
  rw [parseWord]
  split
  · next hword => apply ReadsWord.wildcard (eq_of_beq hword)
  · split
    · next hword => apply ReadsWord.wildcard (eq_of_beq hword)
    · split
      · next hplain =>
        have hliteral := (isPlainNumber_iff word).mp hplain
        cases hx : readNumber? word with
        | some x => apply ReadsWord.number hliteral hx
        | none => apply ReadsWord.unrepresentable hliteral hx
      · split
        · next hname => apply ReadsWord.name hname
        · split
          · next hempty => apply ReadsWord.empty (List.isEmpty_iff.mp hempty)
          · next hne => apply ReadsWord.unknownForm (fun hnil => hne (List.isEmpty_iff.mpr hnil))

/-- The words that are read are wildcards, numbers and names of the grammar. -/
theorem primary_of_parseWord {position : Nat} {word : Text} {t : Tree}
    (h : parseWord position word = .ok t) :
  Primary word t.bare
  := by
  have hread := readsWord_parseWord position word
  rw [h] at hread
  cases hread with
  | @wildcard kind hword =>
    rw [hword]
    apply Primary.wildcard kind
  | number hliteral hx => apply Primary.number hliteral hx
  | name hname => apply Primary.name hname

theorem blanks_takeWhile (s : Text) :
  Blanks (s.takeWhile Byte.isBlank)
  := by
  intro b hb
  apply List.all_eq_true.mp List.all_takeWhile b hb

section Soundness

variable {inner : Nat → Text → Parsed Tree}
  (sound : ∀ {position : Nat} {s : Text} {t : Tree}, inner position s = .ok t → Command s t.bare)

include sound

/-- Arguments are read from groups that are separated by blanks, and from blanks there are none. -/
theorem groups_of_parseGroups {position : Nat} {ps : List Part} {ts : List Tree}
    (h : parseGroups inner position ps = .ok ts) :
  (ts = [] ∧ Blanks (Part.texts ps)) ∨
    ∃ u s v, Part.texts ps = u ++ s ++ v ∧ Blanks u ∧ Groups s (ts.map bare) ∧ Blanks v
  := by
  induction ps generalizing position ts with
  | nil => apply Or.inl ⟨(Except.ok.inj h).symm, Blanks.nil⟩
  | cons p ps ih =>
    cases p with
    | plain b =>
      rw [parseGroups] at h
      split at h
      · next hb =>
        have hblank : Blanks [b] := List.forall_mem_singleton.mpr hb
        rcases ih h with ⟨hts, hps⟩ | ⟨u, s, v, hps, hu, hs, hv⟩
        · apply Or.inl ⟨hts, hblank.append hps⟩
        · refine Or.inr ⟨b :: u, s, v, ?_, hblank.append hu, hs, hv⟩
          simp [Part.text, hps]
      · cases h
    | group x =>
      rw [parseGroups] at h
      obtain ⟨arg, harg, h⟩ := bind_eq_ok_iff.mp h
      obtain ⟨args, hargs, h⟩ := bind_eq_ok_iff.mp h
      obtain rfl := Except.ok.inj h
      right
      rcases ih hargs with ⟨rfl, hps⟩ | ⟨u, s, v, hps, hu, hs, hv⟩
      · exact ⟨[], Text.bracketed x, Part.texts ps, rfl, Blanks.nil, Groups.last (sound harg), hps⟩
      · refine ⟨[], Text.bracketed x ++ u ++ s, v, ?_, Blanks.nil, ?_, hv⟩
        · simp [Part.text, hps]
        · apply Groups.more (sound harg) hu hs

/-- The blanks at the ends are those between the segment and a name, and those after its last
group. -/
theorem primary_of_parseTrimmed {position : Nat} {ps : List Part} {t : Tree}
    (h : parseTrimmed inner position ps = .ok t) :
  ∃ u s v, Part.texts ps = u ++ s ++ v ∧ Blanks u ∧ Primary s t.bare ∧ Blanks v
  := by
  cases itemForm ps with
  | word word =>
    rw [parseTrimmed_word] at h
    exact ⟨[], word, [], by simp, Blanks.nil, primary_of_parseWord h, Blanks.nil⟩
  | bracketed x =>
    exact ⟨[], Text.bracketed x, [], by simp [Part.text], Blanks.nil,
      Primary.bracketed (sound h), Blanks.nil⟩
  | @groups word gs x hword =>
    rw [parseTrimmed_call inner position hword] at h
    split at h
    · next hname =>
      obtain ⟨args, hargs, h⟩ := bind_eq_ok_iff.mp h
      obtain rfl := Except.ok.inj h
      obtain ⟨e, he, hblank⟩ := exists_eq_append_trimBy_append Byte.isBlank word
      rcases groups_of_parseGroups sound hargs with ⟨-, hgs⟩ | ⟨u, s, v, hs, hu, hgroups, hv⟩
      · have := hgs Byte.openBracket (by simp [Part.text, Text.bracketed])
        cases this
      · refine ⟨word.takeWhile Byte.isBlank, word.trim ++ (e ++ u) ++ s, v, ?_, ?_, ?_, hv⟩
        · rw [Part.texts_append, Part.texts_map_plain, hs]
          nth_rewrite 1 [he]
          simp [Text.trim]
        · apply blanks_takeWhile
        · rw [bare_call]
          apply Primary.call hname (Blanks.append hblank hu) hgroups
    · cases h

omit sound in
/-- The texts of blank parts are blanks. -/
theorem blanks_texts {ps : List Part} (h : ∀ p ∈ ps, p.isBlank = true) :
  Blanks (Part.texts ps)
  := by
  intro b hb
  obtain ⟨p, hp, hb⟩ := List.mem_flatMap.mp hb
  have hblank := h p hp
  cases p with
  | plain c =>
    rw [List.mem_singleton.mp hb]
    apply hblank
  | group x => cases hblank

/-- What is read as an item is an item of the grammar. -/
theorem item_of_parseItem {position : Nat} {ps : List Part} {t : Tree}
    (h : parseItem inner position ps = .ok t) :
  Item (Part.texts ps) t.bare
  := by
  obtain ⟨e, hps, he⟩ := exists_eq_append_trimBy_append Part.isBlank ps
  obtain ⟨u, s, v, htrim, hu, hs, hv⟩ := primary_of_parseTrimmed sound h
  have hstart : Blanks (Part.texts (ps.takeWhile Part.isBlank)) := by
    apply blanks_texts
    intro p hp
    apply List.all_eq_true.mp List.all_takeWhile p hp
  have hitem := Item.primary (hstart.append hu) hs (hv.append (blanks_texts he))
  rw [hps, Part.texts_append, Part.texts_append, htrim]
  simpa using hitem

/-- What is read as several items are items of the grammar, with commas between them. -/
theorem items_of_parseItems {position : Nat} {first : List Part} {others : List (List Part)}
    {ts : List Tree} (h : parseItems inner position (first :: others) = .ok ts) :
  Items (Part.texts first ++ others.flatMap fun item => Byte.comma :: Part.texts item)
    (ts.map bare)
  := by
  induction others generalizing position first ts with
  | nil =>
    obtain ⟨t, ht, h⟩ := bind_eq_ok_iff.mp h
    obtain ⟨ts', hts', h⟩ := bind_eq_ok_iff.mp h
    obtain rfl := Except.ok.inj h
    obtain rfl := Except.ok.inj hts'
    simpa using Items.last (item_of_parseItem sound ht)
  | cons second others ih =>
    obtain ⟨t, ht, h⟩ := bind_eq_ok_iff.mp h
    obtain ⟨ts', hts', h⟩ := bind_eq_ok_iff.mp h
    obtain rfl := Except.ok.inj h
    simpa using Items.more (item_of_parseItem sound ht) (ih hts')

omit sound in
/-- There is a tree for each item. -/
theorem length_of_parseItems {position : Nat} {items : List (List Part)} {ts : List Tree}
    (h : parseItems inner position items = .ok ts) :
  ts.length = items.length
  := by
  induction items generalizing position ts with
  | nil =>
    obtain rfl := Except.ok.inj h
    rfl
  | cons item items ih =>
    obtain ⟨t, -, h⟩ := bind_eq_ok_iff.mp h
    obtain ⟨ts', hts', h⟩ := bind_eq_ok_iff.mp h
    obtain rfl := Except.ok.inj h
    rw [List.length_cons, List.length_cons, ih hts']

/-- If what is read in brackets are commands of the grammar, then so is what is read as a layer. -/
theorem command_of_parseLayer {position : Nat} {s : Text} {t : Tree}
    (h : parseLayer inner position s = .ok t) :
  Command s t.bare
  := by
  obtain ⟨ps, hps, rfl⟩ := exists_proper_of_parseLayer h
  rw [parseLayer_texts inner position hps] at h
  rw [texts_segments]
  split at h
  · next hothers =>
    rw [hothers, List.flatMap_nil, List.append_nil]
    apply Command.item (item_of_parseItem sound h)
  · next hothers =>
    obtain ⟨items, hitems, h⟩ := bind_eq_ok_iff.mp h
    obtain rfl := Except.ok.inj h
    rw [bare_tuple]
    apply Command.tuple (items_of_parseItems sound hitems)
    rw [List.length_map, length_of_parseItems hitems, List.length_cons]
    have := List.length_pos_iff.mpr hothers
    omega

theorem command_of_parseWith {position : Nat} {s : Text} {t : Tree}
    (h : parseWith inner position s = .ok t) :
  Command s t.bare
  := by
  obtain ⟨e, hs, he⟩ := exists_eq_append_trimBy_append Byte.isBlank s
  rw [hs]
  apply Command.surround (blanks_takeWhile s) (command_of_parseLayer sound h) he

end Soundness

/-! ### Brackets that are read are not nested too deeply -/

section Nesting

variable {inner : Nat → Text → Parsed Tree}

/-- The contents of every group are read by `inner`. -/
theorem read_of_parseGroups {position : Nat} {ps : List Part} {ts : List Tree}
    (h : parseGroups inner position ps = .ok ts) {x : Text} (hx : .group x ∈ ps) :
  ∃ q t, inner q x = .ok t
  := by
  induction ps generalizing position ts with
  | nil => cases hx
  | cons p ps ih =>
    cases p with
    | plain b =>
      rw [parseGroups] at h
      split at h
      · apply ih h
        simpa using hx
      · cases h
    | group y =>
      obtain ⟨arg, harg, h⟩ := bind_eq_ok_iff.mp h
      obtain ⟨args, hargs, -⟩ := bind_eq_ok_iff.mp h
      rcases List.mem_cons.mp hx with hxy | hx
      · obtain rfl := Part.group.inj hxy
        exact ⟨position, arg, harg⟩
      · apply ih hargs hx

/-- If parts are read successfully, then so is what stands in each pair of brackets among them. -/
theorem read_of_parseTrimmed {position : Nat} {ps : List Part} {t : Tree}
    (h : parseTrimmed inner position ps = .ok t) {x : Text} (hx : .group x ∈ ps) :
  ∃ q u, inner q x = .ok u
  := by
  cases itemForm ps with
  | word word => simp at hx
  | bracketed y =>
    obtain rfl : x = y := by simpa using hx
    exact ⟨position, t, h⟩
  | groups y hword =>
    rw [parseTrimmed_call inner position hword] at h
    split at h
    · obtain ⟨args, hargs, -⟩ := bind_eq_ok_iff.mp h
      apply read_of_parseGroups hargs
      simpa using hx
    · cases h

theorem read_of_parseItem {position : Nat} {ps : List Part} {t : Tree}
    (h : parseItem inner position ps = .ok t) {x : Text} (hx : .group x ∈ ps) :
  ∃ q u, inner q x = .ok u
  := by
  apply read_of_parseTrimmed h
  obtain ⟨e, hps, he⟩ := exists_eq_append_trimBy_append Part.isBlank ps
  rw [hps] at hx
  rcases List.mem_append.mp hx with hx | hx
  · rcases List.mem_append.mp hx with hx | hx
    · cases List.all_eq_true.mp List.all_takeWhile _ hx
    · apply hx
  · cases he _ hx

/-- If items are read successfully, then so is what stands in brackets in any of them. -/
theorem read_of_parseItems {position : Nat} {items : List (List Part)} {ts : List Tree}
    (h : parseItems inner position items = .ok ts) {item : List Part} (hitem : item ∈ items)
    {x : Text} (hx : .group x ∈ item) :
  ∃ q t, inner q x = .ok t
  := by
  induction items generalizing position ts with
  | nil => cases hitem
  | cons first items ih =>
    obtain ⟨t, ht, h⟩ := bind_eq_ok_iff.mp h
    obtain ⟨ts', hts', -⟩ := bind_eq_ok_iff.mp h
    rcases List.mem_cons.mp hitem with rfl | hitem
    · apply read_of_parseItem ht hx
    · apply ih hts' hitem

/-- If a layer is read successfully, then so is what stands in each of its brackets. -/
theorem read_of_parseLayer {position : Nat} {ps : List Part} (hps : Part.AllProper ps) {t : Tree}
    (h : parseLayer inner position (Part.texts ps) = .ok t) {x : Text} (hx : .group x ∈ ps) :
  ∃ q u, inner q x = .ok u
  := by
  obtain ⟨segment, hsegment, hx⟩ := exists_mem_segments hx
  rw [parseLayer_texts inner position hps] at h
  split at h
  · next hothers =>
    rw [hothers] at hsegment
    obtain rfl := List.mem_singleton.mp hsegment
    apply read_of_parseItem h hx
  · obtain ⟨items, hitems, -⟩ := bind_eq_ok_iff.mp h
    apply read_of_parseItems hitems hsegment hx

/-- If what is read inside of brackets is nested to less than `n` levels, then what is read is
nested to at most `n` levels. -/
theorem nesting_of_parseWith {n : Nat}
    (bound : ∀ {q : Nat} {x : Text} {u : Tree}, inner q x = .ok u → x.nesting < n)
    {position : Nat} {s : Text} {t : Tree} (h : parseWith inner position s = .ok t) :
  s.nesting ≤ n
  := by
  obtain ⟨e, hs, he⟩ := exists_eq_append_trimBy_append Byte.isBlank s
  have hstart := blanks_takeWhile s
  have hend : Blanks e := he
  obtain ⟨ps, hps, htrim⟩ := exists_proper_of_parseLayer h
  have htexts : (Part.texts ps).nesting ≤ n := by
    rw [Part.nesting_texts_le hps]
    intro x hx
    rw [parseWith, htrim] at h
    obtain ⟨q, u, hu⟩ := read_of_parseLayer hps h hx
    apply bound hu
  rw [hs, List.append_assoc, nesting_append (Balanced.of_forall hstart.noBrackets),
    nesting_of_forall hstart.noBrackets, ← Text.trim, htrim, nesting_append hps.balanced,
    nesting_of_forall hend.noBrackets]
  omega

/-- What is read successfully in brackets is not nested deeper than there is room for. -/
theorem nesting_of_parseInner {room position : Nat} {s : Text} {t : Tree}
    (h : parseInner room position s = .ok t) :
  s.nesting < room
  := by
  induction room generalizing position s t with
  | zero => cases h
  | succ room ih =>
    rw [parseInner] at h
    apply Nat.lt_succ_of_le (nesting_of_parseWith ih h)

/-- What is read successfully in brackets is a command of the grammar. -/
theorem command_of_parseInner {room position : Nat} {s : Text} {t : Tree}
    (h : parseInner room position s = .ok t) :
  Command s t.bare
  := by
  induction room generalizing position s t with
  | zero => cases h
  | succ room ih =>
    rw [parseInner] at h
    apply command_of_parseWith ih h

end Nesting

/-! ### What is in the grammar is read -/

/-- The parts of an item: they are proper, and there are no commas among them. -/
structure Spells (ps : List Part) (s : Text) : Prop where
  text : Part.texts ps = s
  proper : Part.AllProper ps
  noComma : ∀ p ∈ ps, p.isComma = false

/-- The brackets of a text that is spelled by parts match. -/
theorem Spells.balanced {ps : List Part} {s : Text} (h : Spells ps s) :
  Balanced s
  := by
  rw [← h.text]
  apply h.proper.balanced

/-- Texts in sequence are spelled by their parts in sequence. -/
theorem Spells.append {ps qs : List Part} {s t : Text} (hs : Spells ps s) (ht : Spells qs t) :
  Spells (ps ++ qs) (s ++ t)
  := by
  constructor
  · rw [Part.texts_append, hs.text, ht.text]
  · apply hs.proper.append ht.proper
  · intro p hp
    rcases List.mem_append.mp hp with hp | hp
    · apply hs.noComma p hp
    · apply ht.noComma p hp

/-- Some of the parts that spell a text spell their own text. -/
theorem Spells.of_subset {ps qs : List Part} (h : Spells ps (Part.texts ps))
    (hmem : ∀ q ∈ qs, q ∈ ps) :
  Spells qs (Part.texts qs)
  := ⟨rfl, fun q hq => h.proper q (hmem q hq), fun q hq => h.noComma q (hmem q hq)⟩

/-- A text in brackets is spelled by one part, if its own brackets match. -/
theorem Spells.group {s : Text} (hs : Balanced s) :
  Spells [.group s] (Text.bracketed s)
  := by
  constructor
  · simp [Part.text]
  · exact Part.AllProper.cons hs Part.AllProper.nil
  · intro p hp
    rw [List.mem_singleton.mp hp]
    rfl

/-- A text without brackets and commas is spelled by its bytes. -/
theorem Spells.plain {s : Text} (hs : ∀ b ∈ s, Byte.isBracket b = false ∧ b ≠ Byte.comma) :
  Spells (s.map .plain) s
  := by
  constructor
  · apply Part.texts_map_plain s
  · apply Part.AllProper.map_plain
    intro b hb
    apply (hs b hb).1
  · intro p hp
    obtain ⟨b, hb, rfl⟩ := List.mem_map.mp hp
    apply beq_false_of_ne (hs b hb).2

theorem Spells.word {s : Text} (hs : IsWord s) :
  Spells (s.map .plain) s
  := by
  apply Spells.plain
  intro b hb
  apply (Byte.isWord_iff.mp (hs.bytes b hb)).2

theorem Spells.blanks {s : Text} (hs : Blanks s) :
  Spells (s.map .plain) s
  := by
  apply Spells.plain
  intro b hb
  exact ⟨hs.noBrackets b hb, Byte.ne_comma_of_isBlank (hs b hb)⟩

theorem forall_isBlank_map_plain {u : Text} (hu : Blanks u) :
  ∀ p ∈ u.map Part.plain, p.isBlank = true
  := by
  intro p hp
  obtain ⟨b, hb, rfl⟩ := List.mem_map.mp hp
  apply hu b hb

/-- The blanks around an item are left out, and its position is moved by those before it. -/
theorem parseItem_blanks {inner : Nat → Text → Parsed Tree} {u v s : Text} {ps : List Part}
    (hu : Blanks u) (hv : Blanks v) (hps : Spells ps s) (hs : Solid Byte.isBlank s)
    (position : Nat) :
  parseItem inner position (u.map .plain ++ ps ++ v.map .plain)
    = parseTrimmed inner (position + u.length) ps
  := by
  have hsolid : Solid Part.isBlank ps := by
    apply Part.solid_of_texts
    rw [hps.text]
    apply hs
  rw [parseItem, leadingBy_append_solid (forall_isBlank_map_plain hu) hsolid,
    trimBy_append_solid (forall_isBlank_map_plain hu) hsolid (forall_isBlank_map_plain hv),
    List.length_map]

/-- A text without surrounding blanks is read as a layer. -/
theorem parseWith_solid {inner : Nat → Text → Parsed Tree} {s : Text} (hs : Solid Byte.isBlank s)
    (position : Nat) :
  parseWith inner position s = parseLayer inner position s
  := by
  have htrim : s.trim = s := hs.trimBy_eq
  have hleading : s.leadingBlanks = 0 := by
    simpa [leadingBlanks] using leadingBy_append_solid (u := []) (v := []) (by simp) hs
  rw [parseWith, htrim, hleading, Nat.add_zero]

/-- The blanks before arguments in brackets are left out. -/
theorem parseGroups_blanks {inner : Nat → Text → Parsed Tree} {u : Text} (hu : Blanks u)
    (position : Nat) (ps : List Part) :
  parseGroups inner position (u.map .plain ++ ps) = parseGroups inner (position + u.length) ps
  := by
  induction u generalizing position with
  | nil => rfl
  | cons b u ih =>
    have hb : Byte.isBlank b = true := hu b List.mem_cons_self
    have hrest : Blanks u := fun c hc => hu c (List.mem_cons_of_mem b hc)
    rw [List.map_cons, List.cons_append, parseGroups, if_pos hb, ih hrest, List.length_cons,
      Nat.add_right_comm]
    rfl

/-- Wildcards are read as such. -/
theorem parseWord_wildcard (position : Nat) (kind : Wildcard) :
  ∃ t, parseWord position kind.text = .ok t ∧ t.bare = .wildcard kind .nowhere
  := by
  cases kind with
  | number => exact ⟨_, rfl, rfl⟩
  | tuple => exact ⟨_, rfl, rfl⟩

/-- Wildcards are neither numbers nor names. -/
theorem not_number_nor_name_wildcard (kind : Wildcard) :
  isPlainNumber kind.text = false ∧ kind.text.isName = false
  := by
  cases kind with
  | number => decide
  | tuple => decide

/-- Numbers are read as such if they are in the range of numbers. -/
theorem parseWord_number {word : Text} {x : Number} (h : isPlainNumber word = true)
    (hx : readNumber? word = some x) (position : Nat) :
  parseWord position word = .ok (.number x (.ofExtent position word.length))
  := by
  have hne : ∀ kind : Wildcard, ¬ (word == kind.text) = true := by
    intro kind hword
    rw [eq_of_beq hword, (not_number_nor_name_wildcard kind).1] at h
    cases h
  rw [parseWord, if_neg (hne .number), if_neg (hne .tuple), if_pos h, hx]

/-- Names are not numbers. -/
theorem isPlainNumber_of_isName {word : Text} (h : word.isName = true) :
  isPlainNumber word = false
  := by
  cases word with
  | nil => cases h
  | cons b word =>
    have hstart : Byte.isNameStart b = true := (Bool.and_eq_true_iff.mp h).1
    have hminus : (b == Byte.minus) = false := by
      grind [Byte.isNameStart, Byte.underscore, Byte.minus]
    have hdigit : Byte.isDigit b = false := by
      grind [Byte.isNameStart, Byte.underscore, Byte.isDigit]
    rw [isPlainNumber, splitMinus, hminus]
    simp [hdigit]

/-- Names are read as such. -/
theorem parseWord_name {word : Text} (h : word.isName = true) (position : Nat) :
  parseWord position word = .ok (.name word (.ofExtent position word.length))
  := by
  have hne : ∀ kind : Wildcard, ¬ (word == kind.text) = true := by
    intro kind hword
    rw [eq_of_beq hword, (not_number_nor_name_wildcard kind).2] at h
    cases h
  have hnumber : ¬ isPlainNumber word = true := by
    simp [isPlainNumber_of_isName h]
  rw [parseWord, if_neg (hne .number), if_neg (hne .tuple), if_neg hnumber, if_pos h]

section Completeness

variable {inner : Nat → Text → Parsed Tree} {n : Nat}
  (complete : ∀ {s : Text} {t : Tree}, Command s t → s.nesting < n →
    ∀ position, ∃ u, inner position s = .ok u ∧ u.bare = t)

include complete

/-- Groups of the grammar are spelled by parts that start with a group, and are read as the trees
they denote. -/
theorem parseGroups_of_groups :
  ∀ {s : Text} {ts : List Tree}, Groups s ts → s.nesting ≤ n →
    ∃ x gs, Spells (.group x :: gs) s ∧
      ∀ position, ∃ us, parseGroups inner position (.group x :: gs) = .ok us ∧ us.map bare = ts
  | _, _, .last (s := s) h, hn => by
    rw [nesting_bracketed h.balanced] at hn
    refine ⟨s, [], Spells.group h.balanced, ?_⟩
    intro position
    obtain ⟨u, hu, hbare⟩ := complete h hn position
    use [u]
    constructor
    · rw [parseGroups, hu]
      rfl
    · rw [List.map_singleton, hbare]
  | _, _, .more (s := s) (u := v) h hv hs, hn => by
    rw [List.append_assoc, nesting_append h.balanced.bracketed, nesting_bracketed h.balanced,
      nesting_append (Balanced.of_forall hv.noBrackets), Nat.max_le, Nat.max_le] at hn
    obtain ⟨x, gs, hspells, hread⟩ := parseGroups_of_groups hs hn.2.2
    refine ⟨s, v.map .plain ++ .group x :: gs, ?_, ?_⟩
    · have := ((Spells.group h.balanced).append (Spells.blanks hv)).append hspells
      simpa using this
    · intro position
      obtain ⟨u, hu, hbare⟩ := complete h hn.1 position
      obtain ⟨us, hus, hbares⟩ := hread (position + s.length + 2 + v.length)
      use u :: us
      constructor
      · rw [parseGroups, hu, parseGroups_blanks hv, hus]
        rfl
      · rw [List.map_cons, hbare, hbares]

/-- What the grammar derives without blanks around it is read, if there is room for its brackets. -/
theorem parseTrimmed_of_primary {s : Text} {t : Tree} (h : Primary s t) (hn : s.nesting ≤ n) :
  ∃ ps, Spells ps s ∧ ∀ position, ∃ u, parseTrimmed inner position ps = .ok u ∧ u.bare = t
  := by
  cases h with
  | wildcard kind =>
    refine ⟨kind.text.map .plain, Spells.word (IsWord.wildcard kind), ?_⟩
    intro position
    rw [parseTrimmed_word]
    apply parseWord_wildcard position kind
  | @number s x h hx =>
    refine ⟨s.map .plain, Spells.word h.isWord, ?_⟩
    intro position
    rw [parseTrimmed_word, parseWord_number ((isPlainNumber_iff s).mpr h) hx]
    exact ⟨_, rfl, rfl⟩
  | @name s h =>
    refine ⟨s.map .plain, Spells.word (IsWord.of_isName h), ?_⟩
    intro position
    rw [parseTrimmed_word, parseWord_name h]
    exact ⟨_, rfl, rfl⟩
  | @bracketed s t h =>
    refine ⟨[.group s], Spells.group h.balanced, ?_⟩
    rw [nesting_bracketed h.balanced] at hn
    apply complete h hn
  | @call m v s ts hm hv hs =>
    have hword := IsWord.of_isName hm
    have hplain : Spells ((m ++ v).map .plain) (m ++ v) := by
      rw [List.map_append]
      apply (Spells.word hword).append (Spells.blanks hv)
    have htrim : (m ++ v).trim = m := by
      simpa [Text.trim] using trimBy_append_solid (u := []) (by simp) hword.solid hv
    rw [nesting_append hplain.balanced, Nat.max_le] at hn
    obtain ⟨x, gs, hspells, hread⟩ := parseGroups_of_groups complete hs hn.2
    refine ⟨(m ++ v).map .plain ++ .group x :: gs, hplain.append hspells, ?_⟩
    intro position
    obtain ⟨us, hus, hbares⟩ := hread (position + (m ++ v).length)
    have hne : m ++ v ≠ [] := List.append_ne_nil_of_left_ne_nil hword.ne_nil v
    rw [parseTrimmed_call inner position (Or.inl hne), htrim, if_pos hm, hus]
    refine ⟨_, rfl, ?_⟩
    rw [bare_call, hbares]

/-- What the grammar derives as an item is read, if there is room for its brackets. -/
theorem parseItem_of_item {s : Text} {t : Tree} (h : Item s t) (hn : s.nesting ≤ n) :
  ∃ ps, Spells ps s ∧ ∀ position, ∃ u, parseItem inner position ps = .ok u ∧ u.bare = t
  := by
  cases h with
  | @primary u s v t hu h hv =>
    rw [nesting_append ((Balanced.of_forall hu.noBrackets).append h.balanced),
      nesting_append (Balanced.of_forall hu.noBrackets), Nat.max_le, Nat.max_le] at hn
    obtain ⟨ps, hspells, hread⟩ := parseTrimmed_of_primary complete h hn.1.2
    use u.map .plain ++ ps ++ v.map .plain
    constructor
    · apply ((Spells.blanks hu).append hspells).append (Spells.blanks hv)
    · intro position
      rw [parseItem_blanks hu hv hspells h.solid]
      apply hread (position + u.length)

/-- Items of the grammar are the segments of the parts that spell them. -/
theorem parseItems_of_items :
  ∀ {s : Text} {ts : List Tree}, Items s ts → s.nesting ≤ n →
    ∃ ps, Part.texts ps = s ∧ Part.AllProper ps ∧ (segments ps).2.length + 1 = ts.length ∧
      ∀ position, ∃ us, parseItems inner position ((segments ps).1 :: (segments ps).2) = .ok us
        ∧ us.map bare = ts
  | _, _, .last h, hn => by
    obtain ⟨ps, hspells, hread⟩ := parseItem_of_item complete h hn
    have hsegments := segments_of_forall hspells.noComma
    refine ⟨ps, hspells.text, hspells.proper, by simp [hsegments], ?_⟩
    intro position
    obtain ⟨u, hu, hbare⟩ := hread position
    use [u]
    constructor
    · rw [hsegments, parseItems, hu]
      rfl
    · rw [List.map_singleton, hbare]
  | _, _, .more h hs, hn => by
    rw [nesting_append h.balanced, Nat.max_le, nesting_other (by decide)] at hn
    obtain ⟨ps, hspells, hread⟩ := parseItem_of_item complete h hn.1
    obtain ⟨qs, htexts, hproper, hlength, hreads⟩ := parseItems_of_items hs hn.2
    have hsegments := segments_append_comma hspells.noComma qs
    refine ⟨ps ++ .plain Byte.comma :: qs, ?_, ?_, by simp [hsegments, hlength], ?_⟩
    · rw [Part.texts_append, Part.texts_cons, hspells.text, htexts]
      rfl
    · apply hspells.proper.append
      apply Part.AllProper.cons _ hproper
      apply rfl
    · intro position
      obtain ⟨u, hu, hbare⟩ := hread position
      obtain ⟨us, hus, hbares⟩ := hreads (position + Part.widths ps + 1)
      use u :: us
      constructor
      · rw [hsegments, parseItems, hu, hus]
        rfl
      · rw [List.map_cons, hbare, hbares]

/-- If commands in brackets are read as the grammar says, then so are layers. -/
theorem parseLayer_of_command {s : Text} {t : Tree} (h : Command s t) (hn : s.nesting ≤ n)
    (position : Nat) :
  ∃ u, parseLayer inner position s = .ok u ∧ u.bare = t
  := by
  cases h with
  | item h =>
    obtain ⟨ps, hspells, hread⟩ := parseItem_of_item complete h hn
    rw [← hspells.text, parseLayer_texts inner position hspells.proper,
      segments_of_forall hspells.noComma]
    apply hread position
  | @tuple s ts h htwo =>
    obtain ⟨ps, htexts, hproper, hlength, hread⟩ := parseItems_of_items complete h hn
    obtain ⟨us, hus, hbares⟩ := hread position
    rw [← htexts, parseLayer_texts inner position hproper]
    split
    · next hothers =>
      rw [hothers] at hlength
      simp at hlength
      omega
    · rw [hus]
      refine ⟨_, rfl, ?_⟩
      rw [bare_tuple, hbares]

theorem parseWith_of_command {s : Text} {t : Tree} (h : Command s t) (hn : s.nesting ≤ n)
    (position : Nat) :
  ∃ u, parseWith inner position s = .ok u ∧ u.bare = t
  := by
  obtain ⟨u, m, v, rfl, hu, hv, hm, h⟩ := h.exists_solid
  have htrim : (u ++ m ++ v).trim = m := trimBy_append_solid hu hm hv
  rw [nesting_append ((Balanced.of_forall hu.noBrackets).append h.balanced),
    nesting_append (Balanced.of_forall hu.noBrackets), Nat.max_le, Nat.max_le] at hn
  rw [parseWith, htrim]
  apply parseLayer_of_command complete h hn.1.2 _

end Completeness

/-- A command in brackets is read as the grammar says, if it is not nested deeper than there is room
for. -/
theorem parseInner_of_command {room : Nat} {s : Text} {t : Tree} (h : Command s t)
    (hn : s.nesting < room) (position : Nat) :
  ∃ u, parseInner room position s = .ok u ∧ u.bare = t
  := by
  induction room generalizing s t position with
  | zero => cases hn
  | succ room ih =>
    rw [parseInner]
    apply parseWith_of_command ih h (Nat.le_of_lt_succ hn) (position + 1)

/-! ### Recognition -/

/-- With room for `room` levels of brackets, the commands that are nested to at most `room` levels
are read, as the trees that they denote. -/
theorem parseWith_parseInner_iff (room position : Nat) (s : Text) (b : Tree) :
  (∃ t, parseWith (parseInner room) position s = .ok t ∧ t.bare = b)
    ↔ Command s b ∧ s.nesting ≤ room
  := by
  constructor
  · rintro ⟨t, h, rfl⟩
    exact ⟨command_of_parseWith command_of_parseInner h,
      nesting_of_parseWith nesting_of_parseInner h⟩
  · rintro ⟨h, hn⟩
    apply parseWith_of_command parseInner_of_command h hn position

/-- A text that is read is a command, and denotes the tree that is read. -/
theorem command_of_parse {s : Text} {t : Tree} (h : parse s 0 = .ok t) :
  Command s t.bare ∧ s.nesting ≤ 256
  := (parseWith_parseInner_iff maxNesting 0 s t.bare).mp ⟨t, h, rfl⟩

/-- A text denotes at most one tree. -/
theorem command_unique {s : Text} {t u : Tree} (ht : Command s t)
    (hu : Command s u) :
  t = u
  := by
  obtain ⟨t', ht', rfl⟩ := (parseWith_parseInner_iff s.nesting 0 s t).mpr ⟨ht, Nat.le_refl _⟩
  obtain ⟨u', hu', rfl⟩ := (parseWith_parseInner_iff s.nesting 0 s u).mpr ⟨hu, Nat.le_refl _⟩
  rw [ht'] at hu'
  rw [Except.ok.inj hu']

/-- Reading accepts exactly the commands whose brackets are nested to at most 256 levels, and reads
them as the tree they denote, of which there is only one.  Every other text is rejected. -/
theorem parse_recognises_grammar (s : Text) :
  (∀ t : Tree, (∃ u, parse s 0 = .ok u ∧ u.bare = t.bare)
      ↔ Command s t.bare ∧ s.nesting ≤ 256)
    ∧ ((¬ ∃ t, Command s t ∧ s.nesting ≤ 256) → ∃ e, parse s 0 = .error e)
    ∧ ∀ t u, Command s t → Command s u → t = u
  := by
  have accepts := parseWith_parseInner_iff maxNesting 0 s
  refine ⟨fun t => accepts t.bare, ?_, fun t u => command_unique⟩
  intro h
  cases hparse : parse s 0 with
  | error e => exact ⟨e, rfl⟩
  | ok u => exact absurd ⟨u.bare, (accepts u.bare).mp ⟨u, hparse, rfl⟩⟩ h

end Tree

end Sketch
