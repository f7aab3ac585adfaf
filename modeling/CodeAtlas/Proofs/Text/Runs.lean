import CodeAtlas.Text.Word
import Mathlib.Data.List.SplitBy

/-!
# Replacing a word run by run

A text falls into runs of word characters and the text between them.  A word that asks for a
boundary at its front can stand only where a run starts.  If it asks for one at its end as well, it
stands there exactly when the run is the word, and replacing it changes these runs and nothing else.

The end of a word asks for a boundary when it is alphabetic, numeric or an underscore, while a mark
is a word character too: a word that ends with a mark stands in front of every run that starts with
it, and what is replaced there is not the whole run.
-/

namespace CodeAtlas
namespace Text

variable {word run rest replacement cs : List Char} {before : Option Char}
  {keep : Option Char → Bool}

/-- The characters make up a word. -/
structure IsWord (cs : List Char) : Prop where
  ne_nil : cs ≠ []
  chars : ∀ c ∈ cs, isWordChar c = true

theorem IsWord.isEmpty {word : String} (h : IsWord word.toList) : word.isEmpty = false := by
  rw [Bool.eq_false_iff, Ne, String.isEmpty_iff]
  rintro rfl
  exact h.ne_nil rfl

theorem IsWord.any_head? (h : IsWord cs) : cs.head?.any isWordChar = true := by
  obtain ⟨c, cs, rfl⟩ := List.exists_cons_of_ne_nil h.ne_nil
  exact h.chars c List.mem_cons_self

theorem IsWord.any_getLast? (h : IsWord cs) : cs.getLast?.any isWordChar = true := by
  rw [List.getLast?_eq_some_getLast h.ne_nil]
  exact h.chars _ (List.getLast_mem h.ne_nil)

/-! ## Where a word stands -/

/-- No word that asks for a boundary at its front starts in the middle of a run. -/
theorem wordAtFront?_inside {b c : Char} (hopens : wantsBoundary word.head? = true)
    (hb : isWordChar b = true) (hc : isWordChar c = true) (rest : List Char) :
    wordAtFront? word (some b) (c :: rest) = none := by
  rw [wordAtFront?]
  split
  next => rfl
  next =>
    have hinside : isBoundary (some b) (some c) = false := by simp [isBoundary, hb, hc]
    simp [hopens, hinside]

/-- No word starts with a character that is not of a word. -/
theorem wordAtFront?_sign {c : Char} (hword : IsWord word) (hc : isWordChar c = false)
    (rest : List Char) : wordAtFront? word before (c :: rest) = none := by
  obtain ⟨d, ds, rfl⟩ := List.exists_cons_of_ne_nil hword.ne_nil
  have hne : d ≠ c := by
    rintro rfl
    rw [hword.chars d List.mem_cons_self] at hc
    exact absurd hc (by simp)
  have hprefix : (d :: ds).isPrefixOf (c :: rest) = false := by
    rw [List.isPrefixOf_cons_cons, beq_eq_false_iff_ne.mpr hne, Bool.false_and]
  rw [wordAtFront?, hprefix]

/-- The word stands in front of the run: it is the run, or the run goes on and the end of the word
does not ask for a boundary. -/
def Heads (word run : List Char) : Prop :=
  word <+: run ∧ (wantsBoundary word.getLast? = true → word = run)

instance (word run : List Char) : Decidable (Heads word run) :=
  inferInstanceAs (Decidable (_ ∧ _))

/-- A word does not reach beyond the run that it starts in. -/
theorem IsWord.prefix_append_iff (hword : IsWord word) (hrest : rest.head?.any isWordChar = false) :
    word <+: run ++ rest ↔ word <+: run := by
  constructor
  · rintro ⟨tail, htail⟩
    rcases List.append_eq_append_iff.mp htail with ⟨more, rfl, -⟩ | ⟨more, rfl, rfl⟩
    · exact List.prefix_append word more
    · cases more with
      | nil => exact ⟨[], by simp⟩
      | cons c more =>
          have hc := hword.chars c (by simp)
          exact absurd hrest (by simp [hc])
  · exact fun h => h.trans (List.prefix_append run rest)

/-- Where a run starts, a word stands if it heads the run. -/
theorem wordAtFront?_run (hword : IsWord word) (hrun : IsWord run)
    (hbefore : before.any isWordChar = false) (hrest : rest.head?.any isWordChar = false) :
    wordAtFront? word before (run ++ rest) =
      if Heads word run then some (run.drop word.length ++ rest) else none := by
  have hboundary : isBoundary before (run ++ rest).head? = true := by
    rw [List.head?_append_of_ne_nil _ hrun.ne_nil, isBoundary, hbefore, hrun.any_head?]
    rfl
  have hcloses : ∀ tail : List Char,
      isBoundary word.getLast? tail.head? = !tail.head?.any isWordChar := by
    intro tail
    rw [isBoundary, hword.any_getLast?, Bool.true_bne]
  rw [wordAtFront?, hboundary]
  split
  next hfront =>
    rw [if_neg]
    rintro ⟨hstarts, -⟩
    rw [List.isPrefixOf_iff_prefix.mpr (hstarts.trans (List.prefix_append run rest))] at hfront
    exact absurd hfront (by simp)
  next hfront =>
    obtain ⟨tail, rfl⟩ :=
      (hword.prefix_append_iff hrest).mp (List.isPrefixOf_iff_prefix.mp hfront)
    rw [List.append_assoc, List.drop_left, List.drop_left]
    dsimp only
    rw [hcloses]
    cases tail with
    | nil => simp [hrest, Heads]
    | cons c tail =>
        -- the run goes on behind the word, so that there is no boundary
        have hc := hrun.chars c (by simp)
        simp [hc, Heads]

/-! ## Replacing it -/

/-- In the middle of a run nothing is replaced. -/
theorem replaceWordFrom_inside {b : Char} (hopens : wantsBoundary word.head? = true)
    (hb : isWordChar b = true) (hcs : ∀ c ∈ cs, isWordChar c = true) :
    replaceWordFrom word replacement keep 0 (some b) (cs ++ rest) =
      cs ++ replaceWordFrom word replacement keep 0 (b :: cs).getLast? rest := by
  induction cs generalizing b with
  | nil => rfl
  | cons c cs ih =>
      rw [List.forall_mem_cons] at hcs
      rw [List.cons_append, replaceWordFrom, wordAtFront?_inside hopens hb hcs.1, ih hcs.1 hcs.2,
        List.getLast?_cons_cons]
      rfl

theorem replaceWordFrom_sign {c : Char} (hword : IsWord word) (hc : isWordChar c = false)
    (rest : List Char) :
    replaceWordFrom word replacement keep 0 before (c :: rest) =
      c :: replaceWordFrom word replacement keep 0 (some c) rest := by
  rw [replaceWordFrom, wordAtFront?_sign hword hc]

/-- Between two runs nothing is replaced. -/
theorem replaceWordFrom_signs (hword : IsWord word) (hcs : ∀ c ∈ cs, isWordChar c = false) :
    replaceWordFrom word replacement keep 0 before (cs ++ rest) =
      cs ++ replaceWordFrom word replacement keep 0 (cs.getLast?.or before) rest := by
  induction cs generalizing before with
  | nil => rfl
  | cons c cs ih =>
      rw [List.forall_mem_cons] at hcs
      rw [List.cons_append, replaceWordFrom_sign hword hcs.1, ih hcs.2, List.getLast?_cons]
      cases cs.getLast? <;> rfl

/-- The characters of an occurrence are passed over. -/
theorem replaceWordFrom_length (word replacement : List Char) (keep : Option Char → Bool)
    (before : Option Char) (cs rest : List Char) :
    replaceWordFrom word replacement keep cs.length before (cs ++ rest) =
      replaceWordFrom word replacement keep 0 (cs.getLast?.or before) rest := by
  induction cs generalizing before with
  | nil => rfl
  | cons c cs ih =>
      rw [List.length_cons, List.cons_append, replaceWordFrom, ih, List.getLast?_cons]
      cases cs.getLast? <;> rfl

/-- A run with the word at its front replaced. -/
def headReplaced (word replacement run : List Char) : List Char :=
  if Heads word run then replacement ++ run.drop word.length else run

theorem headReplaced_of_closes (h : wantsBoundary word.getLast? = true) :
    headReplaced word replacement = fun run => if run = word then replacement else run := by
  funext run
  by_cases hrun : run = word
  · simp [headReplaced, Heads, hrun]
  · have hnot : ¬ Heads word run := fun hheads => hrun (hheads.2 h).symm
    rw [headReplaced, if_neg hnot, if_neg hrun]

theorem headReplaced_of_not_closes (h : wantsBoundary word.getLast? = false) :
    headReplaced word replacement = fun run =>
      if word <+: run then replacement ++ run.drop word.length else run := by
  funext run
  simp [headReplaced, Heads, h]

/-- In a run the word is replaced where it heads the run and is not protected. -/
theorem replaceWordFrom_run (hword : IsWord word) (hopens : wantsBoundary word.head? = true)
    (hrun : IsWord run) (hbefore : before.any isWordChar = false)
    (hrest : rest.head?.any isWordChar = false) :
    replaceWordFrom word replacement keep 0 before (run ++ rest) =
      (if keep before then run else headReplaced word replacement run) ++
        replaceWordFrom word replacement keep 0 run.getLast? rest := by
  have hfront := wordAtFront?_run hword hrun hbefore hrest
  obtain ⟨c, cs, rfl⟩ := List.exists_cons_of_ne_nil hrun.ne_nil
  rw [List.cons_append] at hfront ⊢
  rw [replaceWordFrom, hfront, headReplaced]
  by_cases hheads : Heads word (c :: cs)
  · obtain ⟨tail, htail⟩ := hheads.1
    obtain ⟨w, ws, rfl⟩ := List.exists_cons_of_ne_nil hword.ne_nil
    rw [List.cons_append] at htail
    obtain ⟨rfl, rfl⟩ := List.cons.inj htail
    obtain ⟨b, hlast⟩ : ∃ b, (w :: ws).getLast? = some b := ⟨_, List.getLast?_cons⟩
    have hb : isWordChar b = true := hword.chars b (List.mem_of_getLast? hlast)
    have hor : ws.getLast?.or (some w) = some b := by
      rw [← hlast, List.getLast?_cons]
      cases ws.getLast? <;> rfl
    have hend : (b :: tail).getLast? = (w :: (ws ++ tail)).getLast? := by
      rw [← List.cons_append, List.getLast?_append, hlast, List.getLast?_cons]
      cases tail.getLast? <;> rfl
    have htail : ∀ d ∈ tail, isWordChar d = true := fun d hd => hrun.chars d (by simp [hd])
    rw [if_pos hheads, if_pos hheads]
    dsimp only
    rw [List.length_cons, Nat.add_sub_cancel, List.append_assoc, replaceWordFrom_length, hor,
      replaceWordFrom_inside hopens hb htail, hend, List.drop_succ_cons, List.drop_left]
    cases keep before <;> simp
  · have hc := hrun.chars c List.mem_cons_self
    have hcs : ∀ d ∈ cs, isWordChar d = true := fun d hd =>
      hrun.chars d (List.mem_cons_of_mem c hd)
    rw [if_neg hheads, if_neg hheads, ite_self, replaceWordFrom_inside hopens hc hcs]
    rfl

/-! ## Runs -/

/-- The longest runs of word characters in a text and the texts between them, in order. -/
def runs (cs : List Char) : List (List Char) := cs.splitBy fun a b => isWordChar a == isWordChar b

/-- The texts are runs of word characters and what stands between them, behind a given
character. -/
inductive Alternates : Option Char → List (List Char) → Prop
  | nil (before : Option Char) : Alternates before []
  | word {before : Option Char} {run : List Char} {rest : List (List Char)} (hrun : IsWord run)
      (hbefore : before.any isWordChar = false) (hrest : Alternates run.getLast? rest) :
      Alternates before (run :: rest)
  | signs {before : Option Char} {run : List Char} {rest : List (List Char)} (hne : run ≠ [])
      (hrun : ∀ c ∈ run, isWordChar c = false) (hbefore : before.all isWordChar = true)
      (hrest : Alternates run.getLast? rest) : Alternates before (run :: rest)

theorem isWordChar_eq_of_isChain {c : Char}
    (h : (c :: cs).IsChain fun a b => (isWordChar a == isWordChar b) = true) :
    ∀ d ∈ c :: cs, isWordChar d = isWordChar c := by
  induction cs generalizing c with
  | nil => simp
  | cons d cs ih =>
      obtain ⟨hcd, hcs⟩ := List.isChain_cons_cons.mp h
      rw [List.forall_mem_cons]
      exact ⟨rfl, fun e he => (ih hcs e he).trans (beq_iff_eq.mp hcd).symm⟩

theorem alternates_of_isChain {rs : List (List Char)} (hne : ∀ run ∈ rs, run ≠ [])
    (hruns : ∀ run ∈ rs, run.IsChain fun a b => (isWordChar a == isWordChar b) = true)
    (hchain : rs.IsChain fun run next => ∃ hrun hnext,
      (isWordChar (run.getLast hrun) == isWordChar (next.head hnext)) = false)
    (hbefore : ∀ run ∈ rs.head?, ∀ b ∈ before, ∀ c ∈ run.head?, isWordChar b ≠ isWordChar c) :
    Alternates before rs := by
  induction rs generalizing before with
  | nil => exact .nil before
  | cons run rs ih =>
      rw [List.forall_mem_cons] at hne hruns
      obtain ⟨hnext, hrest⟩ := List.isChain_cons.mp hchain
      have hrs : Alternates run.getLast? rs := by
        refine ih hne.2 hruns.2 hrest fun next hmem b hb c hc => ?_
        obtain ⟨hrun, hne, hdiffer⟩ := hnext next hmem
        rw [List.getLast?_eq_some_getLast hrun] at hb
        rw [List.head?_eq_some_head hne] at hc
        cases hb
        cases hc
        exact beq_eq_false_iff_ne.mp hdiffer
      obtain ⟨c, cs, rfl⟩ := List.exists_cons_of_ne_nil hne.1
      have hsame := isWordChar_eq_of_isChain hruns.1
      have hfront : ∀ b ∈ before, isWordChar b = !isWordChar c := fun b hb =>
        Bool.eq_not.mpr (hbefore _ rfl b hb c rfl)
      cases hc : isWordChar c with
      | true =>
          refine .word ⟨hne.1, fun d hd => (hsame d hd).trans hc⟩ ?_ hrs
          rw [Option.any_eq_false]
          intro b hb
          simp [hfront b hb, hc]
      | false =>
          refine .signs hne.1 (fun d hd => (hsame d hd).trans hc) ?_ hrs
          rw [Option.all_eq_true]
          intro b hb
          simp [hfront b hb, hc]

theorem flatten_runs (cs : List Char) : (runs cs).flatten = cs := List.flatten_splitBy _ cs

theorem alternates_runs (cs : List Char) : Alternates none (runs cs) :=
  alternates_of_isChain (fun _ => List.ne_nil_of_mem_splitBy)
    (fun _ => List.isChain_of_mem_splitBy)
    (List.isChain_getLast_head_splitBy (fun a b => isWordChar a == isWordChar b) cs) nofun

/-- Behind a word no word character follows. -/
theorem Alternates.head?_flatten {rs : List (List Char)} (h : Alternates before rs)
    (hbefore : before.any isWordChar = true) : rs.flatten.head?.any isWordChar = false := by
  cases h with
  | nil => rfl
  | word _ hnot => exact absurd hbefore (by simp [hnot])
  | @signs _ run rest hne hrun =>
      obtain ⟨c, cs, rfl⟩ := List.exists_cons_of_ne_nil hne
      simpa using hrun c List.mem_cons_self

theorem headReplaced_signs (hword : IsWord word) (hrun : ∀ c ∈ run, isWordChar c = false) :
    headReplaced word replacement run = run := by
  refine if_neg fun hheads => ?_
  obtain ⟨c, cs, rfl⟩ := List.exists_cons_of_ne_nil hword.ne_nil
  have hc := hrun c (hheads.1.subset List.mem_cons_self)
  rw [hword.chars c List.mem_cons_self] at hc
  exact absurd hc (by simp)

/-- Replacing a word that asks for a boundary at its front goes from run to run: what was done
before matters only through its last character. -/
theorem replaceWordFrom_flatten (hword : IsWord word) (hopens : wantsBoundary word.head? = true)
    {done rs : List (List Char)} (h : Alternates done.flatten.getLast? rs) :
    replaceWordFrom word replacement keep 0 done.flatten.getLast? rs.flatten =
      (rs.mapIdx fun i run => if keep (done ++ rs.take i).flatten.getLast? then run
        else headReplaced word replacement run).flatten := by
  induction rs generalizing done with
  | nil => rw [List.flatten_nil, replaceWordFrom, List.mapIdx_nil, List.flatten_nil]
  | cons run rs ih =>
      have hlater : Alternates run.getLast? rs → run ≠ [] →
          replaceWordFrom word replacement keep 0 run.getLast? rs.flatten =
            (rs.mapIdx fun i next => if keep (done ++ run :: rs.take i).flatten.getLast? then next
              else headReplaced word replacement next).flatten := by
        intro hrest hne
        have hlast : (done ++ [run]).flatten.getLast? = run.getLast? := by
          obtain ⟨b, hb⟩ : ∃ b, run.getLast? = some b := ⟨_, List.getLast?_eq_some_getLast hne⟩
          simp [List.getLast?_append, hb]
        have hdone := @ih (done ++ [run])
        simp only [hlast, List.append_assoc, List.singleton_append] at hdone
        exact hdone hrest
      simp only [List.flatten_cons, List.mapIdx_cons, List.take_zero, List.take_succ_cons,
        List.append_nil]
      cases h with
      | word hrun hbefore hrest =>
          rw [replaceWordFrom_run hword hopens hrun hbefore
            (hrest.head?_flatten hrun.any_getLast?)]
          exact congrArg (_ ++ ·) (hlater hrest hrun.ne_nil)
      | signs hne hrun _ hrest =>
          obtain ⟨b, hb⟩ : ∃ b, run.getLast? = some b := ⟨_, List.getLast?_eq_some_getLast hne⟩
          have hor : run.getLast?.or done.flatten.getLast? = run.getLast? := by rw [hb]; rfl
          rw [replaceWordFrom_signs hword hrun, hor, headReplaced_signs hword hrun, ite_self]
          exact congrArg (run ++ ·) (hlater hrest hne)

/-! ## Words that do not follow a dot -/

/-- The texts with a change made in each of them that does not follow a dot. -/
def changeFree (change : List Char → List Char) (rs : List (List Char)) : List (List Char) :=
  rs.mapIdx fun i run => if (rs.take i).flatten.getLast? = some '.' then run else change run

theorem replaceFreeWord_eq_changeFree {word : String} (hword : IsWord word.toList)
    (hopens : wantsBoundary word.toList.head? = true) (replacement text : String) :
    (replaceFreeWord word replacement text).toList =
      (changeFree (headReplaced word.toList replacement.toList) (runs text.toList)).flatten := by
  have hflatten := @replaceWordFrom_flatten word.toList replacement.toList (· == some '.') hword
    hopens [] (runs text.toList) (alternates_runs _)
  rw [flatten_runs] at hflatten
  rw [replaceFreeWord, hword.isEmpty, if_neg (by simp), String.toList_ofList, changeFree]
  simpa only [List.flatten_nil, List.getLast?_nil, List.nil_append, beq_iff_eq] using hflatten

/-- A word that asks for boundaries at both ends is replaced exactly where a run is the word and
does not follow a dot.  A word whose end does not ask for one is replaced wherever a run starts with
it and does not follow a dot, and the rest of the run stays. -/
theorem replaceFreeWord_runs {word : String} (hword : IsWord word.toList)
    (hopens : wantsBoundary word.toList.head? = true) (replacement text : String) :
    (wantsBoundary word.toList.getLast? = true →
      (replaceFreeWord word replacement text).toList =
        (changeFree (fun run => if run = word.toList then replacement.toList else run)
          (runs text.toList)).flatten) ∧
    (wantsBoundary word.toList.getLast? = false →
      (replaceFreeWord word replacement text).toList =
        (changeFree (fun run => if word.toList <+: run then
            replacement.toList ++ run.drop word.toList.length else run)
          (runs text.toList)).flatten) := by
  rw [replaceFreeWord_eq_changeFree hword hopens]
  constructor
  · intro hcloses
    rw [headReplaced_of_closes hcloses]
  · intro hcloses
    rw [headReplaced_of_not_closes hcloses]

theorem replaceFreeWord_runs_x :
    (replaceFreeWord "x" "Foo" "x.run(self.x, xs)").toList = "Foo.run(self.x, xs)".toList := by
  have hword : IsWord "x".toList := ⟨by decide, List.all_eq_true.mp (by decide)⟩
  rw [(replaceFreeWord_runs hword (by decide) "Foo" "x.run(self.x, xs)").1 (by decide)]
  decide +kernel

/-! ## Words that end with a mark -/

theorem inRanges_eq_any (ranges : Array (Nat × Nat)) (n : Nat) :
    inRanges ranges n = ranges.toList.any fun r => r.1 ≤ n && n ≤ r.2 := by
  rw [inRanges, Array.any_toList]

/-- The macron is a mark that is put above the character in front of it.  It is a word character but
neither alphabetic nor numeric. -/
theorem isWordChar_macron :
    isWordChar '\u0304' = true ∧ wantsBoundary (some '\u0304') = false := by
  simp only [isWordChar, wantsBoundary, isAlphanumeric, inRanges_eq_any]
  decide +kernel

theorem runs_of_isWord (h : IsWord cs) : runs cs = [cs] := by
  refine List.splitBy_of_isChain h.ne_nil (List.Pairwise.isChain ?_)
  refine List.pairwise_of_forall_mem_list fun a ha b hb => ?_
  rw [h.chars a ha, h.chars b hb]
  rfl

/-- A word that ends with a mark is replaced in front of a run that is not the word. -/
theorem not_forall_replaceFreeWord_eq :
    ¬ ∀ word replacement text : String, IsWord word.toList →
      wantsBoundary word.toList.head? = true →
      (replaceFreeWord word replacement text).toList =
        (changeFree (fun run => if run = word.toList then replacement.toList else run)
          (runs text.toList)).flatten := by
  intro h
  have hchars : ∀ c ∈ ['x', '\u0304', 's'], isWordChar c = true := by
    simp only [List.forall_mem_cons]
    exact ⟨by decide, isWordChar_macron.1, by decide, nofun⟩
  have hword : IsWord "x\u0304".toList :=
    ⟨by decide, fun c hc => hchars c (List.mem_of_mem_take (i := 2) hc)⟩
  have hlast : "x\u0304".toList.getLast? = some '\u0304' := by decide
  have hcloses : wantsBoundary "x\u0304".toList.getLast? = false := by
    rw [hlast]
    exact isWordChar_macron.2
  have hruns : runs "x\u0304s".toList = ["x\u0304s".toList] :=
    runs_of_isWord ⟨by decide, hchars⟩
  have heq := h "x\u0304" "Foo" "x\u0304s" hword (by decide)
  rw [replaceFreeWord_eq_changeFree hword (by decide), headReplaced_of_not_closes hcloses,
    hruns] at heq
  exact absurd heq (by decide)

end Text
end CodeAtlas
