import CodeAtlas.Proofs.Uses.Rows

/-!
# Right-hand sides

What was assigned to a variable is put in the place of the variable on every later row, so it has to
be a plain name.  One pair of parentheses around it is taken off without asking whether the two
belong together; whatever stands in parentheses after that is dropped.  The text that is left is
refused when a parenthesis has no partner, when it is blank, or when it holds a quote, a bracket or
a brace.  A name that comes out comes down to itself.
-/

namespace CodeAtlas

/-! ## Words between blanks -/

namespace Text

variable {cs gap word rest : List Char} {words : List (List Char)}

/-- The words of a text: the longest runs without blanks, from left to right. -/
inductive Words : List Char → List (List Char) → Prop
  | blank {gap : List Char} : (∀ c ∈ gap, isBlank c = true) → Words gap []
  | word (gap word rest : List Char) {words : List (List Char)} :
      (∀ c ∈ gap, isBlank c = true) → word ≠ [] → (∀ c ∈ word, isBlank c = false) →
      (∀ c ∈ rest.head?, isBlank c = true) → Words rest words →
      Words (gap ++ (word ++ rest)) (word :: words)

theorem blankSeparatedChars_blank_append (h : ∀ c ∈ gap, isBlank c = true) (cs : List Char) :
    blankSeparatedChars (gap ++ cs) = blankSeparatedChars cs := by
  induction gap with
  | nil => rfl
  | cons c gap ih =>
      rw [List.forall_mem_cons] at h
      rw [List.cons_append, blankSeparatedChars.eq_def]
      simp only [h.1, if_true, ih h.2]

/-- A word ends in front of a blank. -/
theorem blankSeparatedChars_append (hne : word ≠ []) (hword : ∀ c ∈ word, isBlank c = false)
    (hrest : ∀ c ∈ rest.head?, isBlank c = true) :
    blankSeparatedChars (word ++ rest) = word :: blankSeparatedChars rest := by
  induction word with
  | nil => exact absurd rfl hne
  | cons c word ih =>
      rw [List.forall_mem_cons] at hword
      rw [List.cons_append, blankSeparatedChars.eq_def]
      cases word with
      | nil =>
          cases rest with
          | nil =>
              simp only [hword.1, Bool.false_eq_true, if_false]
              rfl
          | cons d rest => simp [hword.1, hrest d rfl]
      | cons d word =>
          have hd : isBlank d = false := hword.2 d List.mem_cons_self
          have hrun := ih (by simp) hword.2
          rw [List.cons_append] at hrun ⊢
          simp [hword.1, hd, hrun]

namespace Words

/-- A text has its words in one way only. -/
theorem blankSeparatedChars_eq (h : Words cs words) : blankSeparatedChars cs = words := by
  induction h with
  | @blank gap hgap =>
      have hend := blankSeparatedChars_blank_append hgap []
      rwa [List.append_nil] at hend
  | word gap word rest hgap hne hword hrest _ ih =>
      rw [blankSeparatedChars_blank_append hgap, blankSeparatedChars_append hne hword hrest, ih]

theorem blank_append (h : Words cs words) (hgap : ∀ c ∈ gap, isBlank c = true) :
    Words (gap ++ cs) words := by
  cases h with
  | blank hcs => exact .blank (List.forall_mem_append.mpr ⟨hgap, hcs⟩)
  | word gap' word rest hgap' hne hword hrest h =>
      rw [← List.append_assoc]
      exact .word _ word rest (List.forall_mem_append.mpr ⟨hgap, hgap'⟩) hne hword hrest h

theorem append_blank (h : Words cs words) (hgap : ∀ c ∈ gap, isBlank c = true) :
    Words (cs ++ gap) words := by
  induction h with
  | blank hcs => exact .blank (List.forall_mem_append.mpr ⟨hcs, hgap⟩)
  | word gap' word rest hgap' hne hword hrest _ ih =>
      rw [List.append_assoc, List.append_assoc]
      refine .word gap' word _ hgap' hne hword ?_ ih
      cases rest with
      | nil => exact fun c hc => hgap c (List.mem_of_head? hc)
      | cons d rest => exact hrest

/-- A character in front of a word belongs to it. -/
theorem cons_word {c d : Char} (hc : isBlank c = false) (hd : isBlank d = false)
    (h : Words (d :: rest) words) : ∃ run others, words = run :: others ∧
      Words (c :: d :: rest) ((c :: run) :: others) := by
  generalize hcs : d :: rest = cs at h
  cases h with
  | blank hgap =>
      subst hcs
      rw [hgap d List.mem_cons_self] at hd
      exact absurd hd (by simp)
  | @word gap run after others hgap hne hword hafter h =>
      refine ⟨run, others, rfl, ?_⟩
      cases gap with
      | nil =>
          exact .word [] (c :: run) after (by simp) (by simp)
            (List.forall_mem_cons.mpr ⟨hc, hword⟩) hafter h
      | cons x gap =>
          obtain ⟨rfl, -⟩ := List.cons.inj hcs
          rw [hgap d List.mem_cons_self] at hd
          exact absurd hd (by simp)

/-- What is not blank stands in a word. -/
theorem mem_iff (h : Words cs words) {c : Char} (hc : isBlank c = false) :
    (∃ word ∈ words, c ∈ word) ↔ c ∈ cs := by
  have hnot : ∀ {gap : List Char}, (∀ d ∈ gap, isBlank d = true) → c ∉ gap := by
    intro gap hgap hmem
    rw [hgap c hmem] at hc
    exact absurd hc (by simp)
  induction h with
  | blank hgap => simp [hnot hgap]
  | word gap word rest hgap _ _ _ _ ih => simp [hnot hgap, ih]

theorem solid (h : Words cs words) :
    ∀ word ∈ words, word ≠ [] ∧ ∀ c ∈ word, isBlank c = false := by
  induction h with
  | blank => simp
  | word gap word rest _ hne hword _ _ ih => exact List.forall_mem_cons.mpr ⟨⟨hne, hword⟩, ih⟩

end Words

theorem words_blankSeparatedChars (cs : List Char) : Words cs (blankSeparatedChars cs) := by
  fun_induction blankSeparatedChars cs with
  | case1 => exact .blank (by simp)
  | case2 c rest hc ih => exact ih.blank_append (List.forall_mem_singleton.mpr hc)
  | case3 c hc =>
      exact .word [] [c] [] (by simp) (by simp)
        (List.forall_mem_singleton.mpr (by simpa using hc)) (by simp) (.blank (by simp))
  | case4 c hc d rest hd ih =>
      exact .word [] [c] (d :: rest) (by simp) (by simp)
        (List.forall_mem_singleton.mpr (by simpa using hc)) (by simpa using hd) ih
  | case5 c hc d rest hd hruns ih =>
      obtain ⟨run, others, hwords, -⟩ := ih.cons_word (by simpa using hc) (by simpa using hd)
      exact absurd (hruns.symm.trans hwords) (by simp)
  | case6 c hc d rest hd run others hruns ih =>
      obtain ⟨run', others', hwords, h⟩ := ih.cons_word (by simpa using hc) (by simpa using hd)
      rw [hwords]
      exact h

/-- Words with a space between them are the words of what they make up. -/
theorem words_joinChars (h : ∀ word ∈ words, word ≠ [] ∧ ∀ c ∈ word, isBlank c = false) :
    Words (joinChars [' '] words) words := by
  induction words with
  | nil => exact .blank (by simp [joinChars])
  | cons word words ih =>
      rw [List.forall_mem_cons] at h
      cases words with
      | nil =>
          have hword := Words.word [] word [] (by simp) h.1.1 h.1.2 (by simp) (.blank (by simp))
          rwa [List.append_nil] at hword
      | cons next words =>
          rw [joinChars_cons _ _ (by simp), List.append_assoc]
          have hspace : ∀ c ∈ [' '], isBlank c = true := List.forall_mem_singleton.mpr (by decide)
          refine .word [] word _ (by simp) h.1.1 h.1.2 ?_ ((ih h.2).blank_append hspace)
          exact fun c hc => hspace c (List.mem_singleton.mpr (Option.some.inj hc).symm)

theorem mem_joinChars_of_mem {separator : List Char} {c : Char} (hword : word ∈ words)
    (hc : c ∈ word) : c ∈ joinChars separator words := by
  fun_induction joinChars separator words with
  | case1 => exact absurd hword (by simp)
  | case2 piece =>
      rw [List.mem_singleton] at hword
      exact hword ▸ hc
  | case3 piece pieces _ ih =>
      rcases List.mem_cons.mp hword with rfl | hword
      · exact List.mem_append_left _ (List.mem_append_left _ hc)
      · exact List.mem_append_right _ (ih hword)

/-- Trimming takes blanks off the two ends. -/
theorem exists_eq_trimChars (cs : List Char) : ∃ before after,
    (∀ c ∈ before, isBlank c = true) ∧ (∀ c ∈ after, isBlank c = true) ∧
      cs = before ++ (trimChars cs ++ after) := by
  refine ⟨cs.takeWhile isBlank, ((trimStartChars cs).reverse.takeWhile isBlank).reverse, ?_, ?_, ?_⟩
  · exact List.all_eq_true.mp List.all_takeWhile
  · intro c hc
    exact List.all_eq_true.mp List.all_takeWhile c (List.mem_reverse.mp hc)
  · rw [trimChars, trimEndChars, ← List.reverse_append, List.takeWhile_append_dropWhile,
      List.reverse_reverse, trimStartChars, List.takeWhile_append_dropWhile]

end Text

namespace Uses

open Text (isBlank trimChars blankSeparatedChars joinChars Words)

variable {cs inner gap kept : List Char} {text name : String} {depth : Nat}

/-! ## Parentheses -/

/-- Every parenthesis has a partner: no front of the text closes more than it opens, and no back of
it opens more than it closes. -/
structure Balanced (cs : List Char) : Prop where
  matched : ∀ front, front <+: cs → front.count ')' ≤ front.count '('
  closed : ∀ back, back <:+ cs → back.count '(' ≤ back.count ')'

/-- The character at a place of a text is no parenthesis, and stands in none: as many are closed in
front of it as are opened there and before the text. -/
def standsOutside (depth : Nat) (cs : List Char) (place : Char × Nat) : Bool :=
  place.1 != '(' && place.1 != ')' &&
    depth + (cs.take place.2).count '(' == (cs.take place.2).count ')'

/-- The text outside of all parentheses, when some are open in front of it. -/
def outermost (depth : Nat) (cs : List Char) : List Char :=
  (cs.zipIdx.filter (standsOutside depth cs)).map Prod.fst

/-- The text closes what is open in front of it, and what it opens, and nothing else. -/
def Closes (depth : Nat) (cs : List Char) : Prop :=
  (∀ front, front <+: cs → front.count ')' ≤ depth + front.count '(') ∧
    depth + cs.count '(' = cs.count ')'

theorem balanced_iff_closes : Balanced cs ↔ Closes 0 cs := by
  constructor
  · intro h
    have hall := h.matched cs List.prefix_rfl
    have hback := h.closed cs List.suffix_rfl
    exact ⟨fun front hfront => by simpa using h.matched front hfront, by omega⟩
  · rintro ⟨hfronts, hall⟩
    refine ⟨fun front hfront => by simpa using hfronts front hfront, ?_⟩
    -- a back opens what the front before it leaves to be closed
    rintro back ⟨front, rfl⟩
    have hfront := hfronts front (List.prefix_append front back)
    rw [List.count_append, List.count_append] at hall
    omega

theorem closes_nil : Closes depth [] ↔ depth = 0 := by
  simp [Closes]

/-- The first character counts in every front but the empty one. -/
theorem closes_cons {c : Char} : Closes depth (c :: cs) ↔
    (∀ front, front <+: cs → (c :: front).count ')' ≤ depth + (c :: front).count '(') ∧
      depth + (c :: cs).count '(' = (c :: cs).count ')' := by
  rw [Closes]
  refine and_congr_left fun _ => ⟨fun h front hfront => ?_, fun h front hfront => ?_⟩
  · exact h _ ((List.prefix_cons_inj c).mpr hfront)
  · rcases List.prefix_cons_iff.mp hfront with rfl | ⟨rest, rfl, hrest⟩
    · simp
    · exact h rest hrest

theorem closes_open_cons : Closes depth ('(' :: cs) ↔ Closes (depth + 1) cs := by
  rw [closes_cons, Closes]
  simp only [List.count_cons_self, List.count_cons_of_ne (show '(' ≠ ')' by decide)]
  refine and_congr (forall₂_congr fun front _ => ?_) ?_ <;> omega

theorem closes_close_cons : Closes (depth + 1) (')' :: cs) ↔ Closes depth cs := by
  rw [closes_cons, Closes]
  simp only [List.count_cons_self, List.count_cons_of_ne (show ')' ≠ '(' by decide)]
  refine and_congr (forall₂_congr fun front _ => ?_) ?_ <;> omega

theorem not_closes_close_cons : ¬ Closes 0 (')' :: cs) := by
  intro h
  have hfront := (closes_cons.mp h).1 [] List.nil_prefix
  exact absurd hfront (by decide)

theorem closes_cons_of_ne {c : Char} (hopen : c ≠ '(') (hclose : c ≠ ')') :
    Closes depth (c :: cs) ↔ Closes depth cs := by
  rw [closes_cons, Closes]
  simp only [List.count_cons_of_ne hopen, List.count_cons_of_ne hclose]

/-! ## The text outside of parentheses -/

/-- The places behind the first character are those of the rest, with what is open there. -/
theorem outermost_cons {c : Char} (depth' : Nat)
    (hdepth : ∀ front : List Char, depth + (c :: front).count '(' = (c :: front).count ')' ↔
      depth' + front.count '(' = front.count ')') :
    outermost depth (c :: cs) =
      if standsOutside depth (c :: cs) (c, 0) then c :: outermost depth' cs
      else outermost depth' cs := by
  have hrest : ((cs.zipIdx 1).filter (standsOutside depth (c :: cs))).map Prod.fst =
      outermost depth' cs := by
    rw [List.zipIdx_succ, List.filter_map, List.map_map, outermost]
    refine congrArg₂ List.map rfl (List.filter_congr fun x _ => ?_)
    rw [Function.comp_apply, standsOutside, standsOutside, List.take_succ_cons]
    congr 1
    rw [Bool.eq_iff_iff, beq_iff_eq, beq_iff_eq]
    exact hdepth _
  rw [outermost, List.zipIdx_cons, List.filter_cons]
  split
  · rw [List.map_cons, hrest]
  · exact hrest

theorem outermost_open_cons (depth : Nat) (cs : List Char) :
    outermost depth ('(' :: cs) = outermost (depth + 1) cs := by
  rw [outermost_cons (depth + 1)]
  · rfl
  · intro front
    rw [List.count_cons_self, List.count_cons_of_ne (by decide)]
    omega

theorem outermost_close_cons (depth : Nat) (cs : List Char) :
    outermost (depth + 1) (')' :: cs) = outermost depth cs := by
  rw [outermost_cons depth]
  · rfl
  · intro front
    rw [List.count_cons_self, List.count_cons_of_ne (by decide)]
    omega

theorem outermost_cons_of_ne {c : Char} (hopen : c ≠ '(') (hclose : c ≠ ')') :
    outermost depth (c :: cs) =
      if depth = 0 then c :: outermost depth cs else outermost depth cs := by
  rw [outermost_cons depth]
  · simp [standsOutside, hopen, hclose]
  · intro front
    rw [List.count_cons_of_ne hopen, List.count_cons_of_ne hclose]

/-- The text outside of parentheses is found when all of them are closed; otherwise nothing is
found, or a closing one stays in what is found. -/
theorem outside?_eq_some_iff (depth : Nat) (cs kept : List Char) :
    outside? depth cs = some kept ∧ ')' ∉ kept ↔ Closes depth cs ∧ kept = outermost depth cs := by
  fun_induction outside? depth cs generalizing kept with
  | case1 =>
      simp only [Option.some.injEq, closes_nil, true_and]
      constructor
      · rintro ⟨rfl, -⟩
        rfl
      · rintro rfl
        exact ⟨rfl, by decide⟩
  | case2 depth => simp [closes_nil]
  | case3 depth rest ih => rw [ih, closes_open_cons, outermost_open_cons]
  | case4 depth rest ih => rw [ih, closes_close_cons, outermost_close_cons]
  | case5 depth c rest hopen hclose ih =>
      rw [ih, closes_cons_of_ne hopen hclose, outermost_cons_of_ne hopen hclose, if_neg (by simp)]
  | case6 c rest hopen ih =>
      constructor
      · rintro ⟨hkept, hnot⟩
        obtain ⟨others, hothers, rfl⟩ := Option.map_eq_some_iff.mp hkept
        rw [List.mem_cons, not_or] at hnot
        have hclose : c ≠ ')' := Ne.symm hnot.1
        obtain ⟨hcloses, rfl⟩ := (ih others).mp ⟨hothers, hnot.2⟩
        rw [closes_cons_of_ne hopen hclose, outermost_cons_of_ne hopen hclose, if_pos rfl]
        exact ⟨hcloses, rfl⟩
      · rintro ⟨hcloses, rfl⟩
        have hclose : c ≠ ')' := by
          rintro rfl
          exact not_closes_close_cons hcloses
        rw [closes_cons_of_ne hopen hclose] at hcloses
        obtain ⟨hothers, hnot⟩ := (ih _).mpr ⟨hcloses, rfl⟩
        rw [outermost_cons_of_ne hopen hclose, if_pos rfl, hothers]
        exact ⟨rfl, by simp [Ne.symm hclose, hnot]⟩

theorem open_not_mem_outermost (depth : Nat) (cs : List Char) : '(' ∉ outermost depth cs := by
  intro hmem
  obtain ⟨place, hplace, hopen⟩ := List.mem_map.mp hmem
  have houtside := (List.mem_filter.mp hplace).2
  simp [standsOutside, hopen] at houtside

/-! ## Blanks around a text -/

theorem outside?_append_left (h : '(' ∉ gap) (cs : List Char) :
    outside? 0 (gap ++ cs) = (outside? 0 cs).map (gap ++ ·) := by
  induction gap with
  | nil => simp
  | cons c gap ih =>
      rw [List.mem_cons, not_or] at h
      rw [List.cons_append, outside?, ih h.2, Option.map_map]
      · rfl
      · exact fun hc => h.1 hc.symm

theorem outside?_succ_of_not_mem (h : ')' ∉ gap) (depth : Nat) :
    outside? (depth + 1) gap = none := by
  induction gap generalizing depth with
  | nil => rfl
  | cons c gap ih =>
      rw [List.mem_cons, not_or] at h
      by_cases hopen : c = '('
      · rw [hopen, outside?, ih h.2]
      · rw [outside?, ih h.2]
        · exact hopen
        · exact fun hc => h.1 hc.symm

theorem outside?_append_right (hopen : '(' ∉ gap) (hclose : ')' ∉ gap) (depth : Nat)
    (cs : List Char) : outside? depth (cs ++ gap) = (outside? depth cs).map (· ++ gap) := by
  fun_induction outside? depth cs with
  | case1 => exact outside?_of_not_mem hopen
  | case2 depth => exact outside?_succ_of_not_mem hclose depth
  | case3 depth rest ih => rw [List.cons_append, outside?, ih]
  | case4 depth rest ih => rw [List.cons_append, outside?, ih]
  | case5 depth c rest hopen hclose ih => rw [List.cons_append, outside?, ih] <;> assumption
  | case6 c rest hopen ih =>
      rw [List.cons_append, outside?, ih, Option.map_map, Option.map_map]
      · rfl
      · exact hopen

/-- Trimming a text takes nothing but blanks off what stands outside of its parentheses. -/
theorem outside?_trimChars (cs : List Char) :
    (outside? 0 (trimChars cs)).map blankSeparatedChars =
      (outside? 0 cs).map blankSeparatedChars := by
  obtain ⟨before, after, hbefore, hafter, hcs⟩ := Text.exists_eq_trimChars cs
  have hopen : ∀ {gap : List Char}, (∀ c ∈ gap, isBlank c = true) → '(' ∉ gap :=
    fun h hmem => absurd (h '(' hmem) (by decide)
  have hclose : ')' ∉ after := fun hmem => absurd (hafter ')' hmem) (by decide)
  conv_rhs => rw [hcs, outside?_append_left (hopen hbefore),
    outside?_append_right (hopen hafter) hclose, Option.map_map, Option.map_map]
  congr 1
  funext kept
  have hwords := ((Text.words_blankSeparatedChars kept).append_blank hafter).blank_append hbefore
  exact hwords.blankSeparatedChars_eq.symm

/-! ## The name that is left -/

/-- The text without one pair of parentheses around it, if it starts and ends with one. -/
inductive Unwraps : List Char → List Char → Prop
  | pair (inner : List Char) : Unwraps ('(' :: (inner ++ [')'])) inner
  | bare {cs : List Char} : (∀ inner, cs ≠ '(' :: (inner ++ [')'])) → Unwraps cs cs

/-- The quotes, brackets and braces. -/
def enclosers : List Char := ['"', '\'', '\x60', '[', ']', '{', '}']

theorem isRefused_iff {c : Char} : isRefused c = true ↔ c ∈ enclosers ∨ c = '(' ∨ c = ')' := by
  have htick : c.toNat = 0x60 ↔ c = '\x60' :=
    ⟨fun h => Char.toNat_inj.mp h, fun h => h ▸ rfl⟩
  simp only [isRefused, enclosers, Bool.or_eq_true, beq_iff_eq, htick, List.mem_cons,
    List.not_mem_nil, or_false]
  tauto

theorem exists_unwraps (cs : List Char) : ∃ inner, Unwraps cs inner := by
  by_cases h : ∃ inner, cs = '(' :: (inner ++ [')'])
  · obtain ⟨inner, rfl⟩ := h
    exact ⟨inner, .pair inner⟩
  · exact ⟨cs, .bare (not_exists.mp h)⟩

theorem Unwraps.withoutOuter_eq (h : Unwraps cs inner) :
    withoutOuter cs = inner ∨ withoutOuter cs = trimChars inner := by
  cases h with
  | pair =>
      right
      simp [withoutOuter]
  | bare hbare =>
      left
      unfold withoutOuter
      split
      next rest =>
        rw [if_neg]
        intro hlast
        obtain ⟨inner, rfl⟩ := List.getLast?_eq_some_iff.mp (beq_iff_eq.mp hlast)
        exact hbare inner rfl
      next => rfl

/-- The name that words make up, unless it is empty or not plain. -/
def nameOf? (words : List (List Char)) : Option String :=
  let name := joinChars [' '] words
  if name.isEmpty || name.any isRefused then none else some (String.ofList name)

theorem isBlank_of_isRefused {c : Char} (h : isRefused c = true) : isBlank c = false := by
  rcases isRefused_iff.mp h with henclosers | rfl | rfl
  · have hnone : ∀ d ∈ enclosers, (!isBlank d) = true := List.all_eq_true.mp (by decide)
    simpa using hnone c henclosers
  · decide
  · decide

theorem joinChars_words_ne_nil_iff {words : List (List Char)} (h : Words kept words) :
    joinChars [' '] words ≠ [] ↔ ∃ c ∈ kept, isBlank c = false := by
  constructor
  · intro hne
    cases words with
    | nil => exact absurd rfl hne
    | cons word words =>
        obtain ⟨hword, hblank⟩ := h.solid word List.mem_cons_self
        obtain ⟨c, hc⟩ := List.exists_mem_of_ne_nil word hword
        exact ⟨c, (h.mem_iff (hblank c hc)).mp ⟨word, List.mem_cons_self, hc⟩, hblank c hc⟩
  · rintro ⟨c, hc, hblank⟩
    obtain ⟨word, hword, hc⟩ := (h.mem_iff hblank).mpr hc
    exact List.ne_nil_of_mem (Text.mem_joinChars_of_mem hword hc)

theorem any_isRefused_joinChars_iff {words : List (List Char)} (h : Words kept words) :
    (joinChars [' '] words).any isRefused = true ↔ ∃ c ∈ kept, isRefused c = true := by
  rw [List.any_eq_true]
  constructor
  · rintro ⟨c, hc, hrefused⟩
    rcases Text.mem_joinChars hc with hspace | ⟨word, hword, hmem⟩
    · rw [List.mem_singleton.mp hspace] at hrefused
      exact absurd hrefused (by decide)
    · exact ⟨c, (h.mem_iff (isBlank_of_isRefused hrefused)).mp ⟨word, hword, hmem⟩, hrefused⟩
  · rintro ⟨c, hc, hrefused⟩
    obtain ⟨word, hword, hmem⟩ := (h.mem_iff (isBlank_of_isRefused hrefused)).mpr hc
    exact ⟨c, Text.mem_joinChars_of_mem hword hmem, hrefused⟩

/-- Words make up a plain name when what they come from is neither blank nor refused. -/
theorem nameOf?_eq_some_iff {words : List (List Char)} (h : Words kept words) :
    nameOf? words = some name ↔ (∃ c ∈ kept, isBlank c = false) ∧
      (¬ ∃ c ∈ kept, isRefused c = true) ∧ name.toList = joinChars [' '] words := by
  rw [nameOf?, Option.ite_none_left_eq_some, Bool.or_eq_true, not_or, List.isEmpty_iff,
    any_isRefused_joinChars_iff h, ← Ne, joinChars_words_ne_nil_iff h, and_assoc, Option.some.injEq,
    ← String.toList_inj, String.toList_ofList, eq_comm]

theorem plainName?_eq_bind (h : Unwraps (trimChars text.toList) inner) :
    plainName? text = ((outside? 0 inner).map blankSeparatedChars).bind nameOf? := by
  have hsame : (outside? 0 (withoutOuter (trimChars text.toList))).map blankSeparatedChars =
      (outside? 0 inner).map blankSeparatedChars := by
    rcases h.withoutOuter_eq with houter | houter
    · rw [houter]
    · rw [houter, outside?_trimChars]
  rw [← hsame, plainName?, Option.bind_map]
  rfl

theorem plainName?_eq_some_iff (h : Unwraps (trimChars text.toList) inner) :
    plainName? text = some name ↔ Balanced inner ∧
      (∃ c ∈ outermost 0 inner, isBlank c = false) ∧ (¬ ∃ c ∈ outermost 0 inner, c ∈ enclosers) ∧
      name.toList = joinChars [' '] (blankSeparatedChars (outermost 0 inner)) := by
  rw [plainName?_eq_bind h, Option.bind_eq_some_iff]
  constructor
  · rintro ⟨words, hwords, hname⟩
    obtain ⟨kept, hkept, rfl⟩ := Option.map_eq_some_iff.mp hwords
    obtain ⟨hblank, hplain, hname⟩ :=
      (nameOf?_eq_some_iff (Text.words_blankSeparatedChars kept)).mp hname
    -- a closing parenthesis without a partner is kept, and refused only here
    have hmatched : ')' ∉ kept := fun hmem => hplain ⟨')', hmem, by decide⟩
    obtain ⟨hcloses, rfl⟩ := (outside?_eq_some_iff 0 inner kept).mp ⟨hkept, hmatched⟩
    refine ⟨balanced_iff_closes.mpr hcloses, hblank, ?_, hname⟩
    rintro ⟨c, hc, hencloser⟩
    exact hplain ⟨c, hc, isRefused_iff.mpr (Or.inl hencloser)⟩
  · rintro ⟨hbalanced, hblank, hplain, hname⟩
    obtain ⟨hkept, hmatched⟩ :=
      (outside?_eq_some_iff 0 inner _).mpr ⟨balanced_iff_closes.mp hbalanced, rfl⟩
    refine ⟨_, Option.map_eq_some_iff.mpr ⟨_, hkept, rfl⟩,
      (nameOf?_eq_some_iff (Text.words_blankSeparatedChars _)).mpr ⟨hblank, ?_, hname⟩⟩
    rintro ⟨c, hc, hrefused⟩
    rcases isRefused_iff.mp hrefused with hencloser | rfl | rfl
    · exact hplain ⟨c, hc, hencloser⟩
    · exact open_not_mem_outermost 0 inner hc
    · exact hmatched hc

theorem toList_of_nameOf? {words : List (List Char)} (h : nameOf? words = some name) :
    name.toList = joinChars [' '] words ∧ ∀ c ∈ name.toList, isRefused c = false := by
  rw [nameOf?, Option.ite_none_left_eq_some, Bool.or_eq_true, not_or] at h
  obtain ⟨⟨-, hplain⟩, hname⟩ := h
  obtain rfl := Option.some.inj hname
  rw [String.toList_ofList]
  exact ⟨rfl, by simpa using hplain⟩

theorem exists_words_of_plainName? (h : plainName? text = some name) :
    ∃ kept words, Words kept words ∧ nameOf? words = some name := by
  obtain ⟨inner, hinner⟩ := exists_unwraps (trimChars text.toList)
  rw [plainName?_eq_bind hinner, Option.bind_eq_some_iff] at h
  obtain ⟨words, hwords, hname⟩ := h
  obtain ⟨kept, -, rfl⟩ := Option.map_eq_some_iff.mp hwords
  exact ⟨kept, _, Text.words_blankSeparatedChars kept, hname⟩

theorem unwraps_trimChars (h : '(' ∉ cs) : Unwraps (trimChars cs) (trimChars cs) := by
  obtain ⟨before, after, -, -, hcs⟩ := Text.exists_eq_trimChars cs
  refine .bare fun inner hinner => h ?_
  rw [hcs, hinner]
  simp

/-- A plain name comes down to itself. -/
theorem plainName?_of_plainName? (h : plainName? text = some name) :
    plainName? name = some name := by
  obtain ⟨kept, words, hkept, hwords⟩ := exists_words_of_plainName? h
  obtain ⟨hname, hplain⟩ := toList_of_nameOf? hwords
  have hopen : '(' ∉ name.toList := fun hmem => absurd (hplain _ hmem) (by decide)
  rw [plainName?_eq_bind (unwraps_trimChars hopen), outside?_trimChars, outside?_of_not_mem hopen,
    Option.map_some, Option.bind_some, hname,
    (Text.words_joinChars hkept.solid).blankSeparatedChars_eq, hwords]

/-- A right-hand side comes down to a name exactly when, without one pair of parentheses around it,
every parenthesis has a partner and what stands outside of them is not blank and holds no quote,
bracket or brace.  The name is then made up of the words outside of parentheses, with a space
between them; it is plain, and comes down to itself. -/
theorem plainName?_reduced (text : String) :
    ∃ inner, Unwraps (trimChars text.toList) inner ∧
      (plainName? text = none ↔ ¬ Balanced inner ∨ (∀ c ∈ outermost 0 inner, isBlank c = true) ∨
        ∃ c ∈ outermost 0 inner, c ∈ enclosers) ∧
      ∀ name, plainName? text = some name →
        (∃ words, Words (outermost 0 inner) words ∧ name.toList = joinChars [' '] words) ∧
        (∀ c ∈ name.toList, c ≠ '\n' ∧ c ∉ enclosers ∧ c ≠ '(' ∧ c ≠ ')') ∧
        plainName? name = some name := by
  obtain ⟨inner, hinner⟩ := exists_unwraps (trimChars text.toList)
  refine ⟨inner, hinner, ?_, ?_⟩
  · rw [← not_iff_not, ← Ne, Option.ne_none_iff_exists', not_or, not_or, not_not]
    constructor
    · rintro ⟨name, h⟩
      obtain ⟨hbalanced, ⟨c, hc, hblank⟩, hplain, -⟩ := (plainName?_eq_some_iff hinner).mp h
      exact ⟨hbalanced, fun hall => by simp [hall c hc] at hblank, hplain⟩
    · rintro ⟨hbalanced, hblank, hplain⟩
      refine ⟨_, (plainName?_eq_some_iff hinner).mpr
        ⟨hbalanced, ?_, hplain, String.toList_ofList⟩⟩
      simpa using hblank
  · intro name h
    obtain ⟨kept, words, -, hwords⟩ := exists_words_of_plainName? h
    refine ⟨⟨_, Text.words_blankSeparatedChars _, ((plainName?_eq_some_iff hinner).mp h).2.2.2⟩, ?_,
      plainName?_of_plainName? h⟩
    intro c hc
    have hplain : ¬ isRefused c = true := by simp [(toList_of_nameOf? hwords).2 c hc]
    rw [isRefused_iff, not_or, not_or] at hplain
    refine ⟨?_, hplain⟩
    rintro rfl
    exact newline_not_mem_of_plainName? h hc

end Uses
end CodeAtlas
