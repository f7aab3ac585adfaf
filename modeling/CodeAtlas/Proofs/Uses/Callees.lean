import CodeAtlas.Proofs.Text.Members
import CodeAtlas.Proofs.Text.Rows
import CodeAtlas.Uses

/-!
# Callees

What is called is written as a chain of identifiers, with a separator of one of four kinds between
two of them.  It is read in several passes: the text is cut at the first character that ends a
callee, blanks and dollar signs are dropped, and each of the three long separators is replaced by a
dot, one kind after the other.  No pass makes or breaks a separator of another kind, so a chain is
always read as its identifiers with dots between them, and a name that has been read is read as
itself.
-/

namespace CodeAtlas

namespace Text

/-! ## Dotted names -/

/-- A text that is an identifier. -/
abbrev Identifier := { s : String // isIdentifier s = true }

namespace Identifier

/-- The characters of an identifier. -/
def chars (i : Identifier) : List Char := i.val.toList

theorem wordlike (i : Identifier) : Wordlike i.chars := wordlike_of_isIdentifier i.property

theorem exists_chars_eq (i : Identifier) :
    ∃ c cs, i.chars = c :: cs ∧ startsIdentifier c = true ∧
      ∀ d ∈ cs, continuesIdentifier d = true := by
  obtain ⟨s, hs⟩ := i
  rw [isIdentifier] at hs
  cases hchars : s.toList with
  | nil =>
      rw [hchars] at hs
      exact absurd hs (by simp)
  | cons c cs =>
      rw [hchars, Bool.and_eq_true, List.all_eq_true] at hs
      exact ⟨c, cs, hchars, hs⟩

/-- An identifier made of its first character and the others. -/
def ofChars (c : Char) (cs : List Char) (hc : startsIdentifier c = true)
    (hcs : ∀ d ∈ cs, continuesIdentifier d = true) : Identifier :=
  ⟨String.ofList (c :: cs), by simpa [isIdentifier, hc] using hcs⟩

theorem chars_ofChars {c : Char} {cs : List Char} (hc : startsIdentifier c = true)
    (hcs : ∀ d ∈ cs, continuesIdentifier d = true) : (ofChars c cs hc hcs).chars = c :: cs :=
  String.toList_ofList

end Identifier

/-- Identifiers with a dot in front of each. -/
def dots (is : List Identifier) : List Char := is.flatMap fun i => '.' :: i.chars

theorem dots_cons (i : Identifier) (is : List Identifier) :
    dots (i :: is) = '.' :: (i.chars ++ dots is) := List.flatMap_cons

theorem ne_dot_of_continuesIdentifier {c : Char} (h : continuesIdentifier c = true) : c ≠ '.' := by
  rintro rfl
  exact absurd h (by decide)

theorem takeDotted_append {word : List Char} (h : ∀ c ∈ word, continuesIdentifier c = true)
    (rest : List Char) : (takeDotted true (word ++ rest)).2 = (takeDotted true rest).2 := by
  induction word with
  | nil => rfl
  | cons c word ih =>
      rw [List.forall_mem_cons] at h
      rw [List.cons_append, takeDotted, if_pos h.1]
      · exact ih h.2
      · rintro d rest rfl
        exact absurd rfl (ne_dot_of_continuesIdentifier h.1)

theorem takeDotted_dots (is : List Identifier) : (takeDotted true (dots is)).2 = [] := by
  induction is with
  | nil => rfl
  | cons i is ih =>
      obtain ⟨c, cs, hchars, hc, hcs⟩ := i.exists_chars_eq
      rw [dots_cons, hchars, List.cons_append, takeDotted, if_pos hc]
      exact (takeDotted_append hcs _).trans ih

/-- A text that is read to its end goes on with an identifier, and with others behind dots. -/
theorem exists_dots_of_takeDotted {inside : Bool} (hinside : inside = true) {cs : List Char}
    (h : (takeDotted inside cs).2 = []) :
    ∃ word is, (∀ c ∈ word, continuesIdentifier c = true) ∧ cs = word ++ dots is := by
  fun_induction takeDotted inside cs with
  | case1 => exact ⟨[], [], by simp, rfl⟩
  | case2 c rest hc name after htake ih =>
      obtain ⟨word, is, hword, rfl⟩ := ih rfl (by rw [htake]; exact h)
      refine ⟨[], .ofChars c word hc hword :: is, by simp, ?_⟩
      rw [dots_cons, Identifier.chars_ofChars]
      rfl
  | case3 => exact absurd h (by simp)
  | case4 c rest _ hc name after htake ih =>
      obtain ⟨word, is, hword, rfl⟩ := ih rfl (by rw [htake]; exact h)
      exact ⟨c :: word, is, List.forall_mem_cons.mpr ⟨hc, hword⟩, rfl⟩
  | case5 => exact absurd h (by simp)
  | case6 => exact absurd hinside (by simp)
  | case7 => exact absurd hinside (by simp)

theorem isDottedChars_cons (c : Char) (cs : List Char) :
    isDottedChars (c :: cs) = (startsIdentifier c && (takeDotted true cs).2.isEmpty) := by
  by_cases hc : startsIdentifier c = true
  · simp [isDottedChars, takeDotted, hc]
  · simp [isDottedChars, takeDotted, hc]

/-- The dotted names are identifiers with dots between them. -/
theorem isDottedChars_iff {cs : List Char} :
    isDottedChars cs = true ↔
      ∃ (i : Identifier) (is : List Identifier), cs = i.chars ++ dots is := by
  constructor
  · intro h
    cases cs with
    | nil => exact absurd h (by decide)
    | cons c cs =>
        rw [isDottedChars_cons, Bool.and_eq_true, List.isEmpty_iff] at h
        obtain ⟨word, is, hword, rfl⟩ := exists_dots_of_takeDotted rfl h.2
        exact ⟨.ofChars c word h.1 hword, is, by rw [Identifier.chars_ofChars]; rfl⟩
  · rintro ⟨i, is, rfl⟩
    obtain ⟨c, cs, hchars, hc, hcs⟩ := i.exists_chars_eq
    rw [hchars, List.cons_append, isDottedChars_cons, hc, takeDotted_append hcs, takeDotted_dots]
    rfl

theorem toList_join_identifiers (i : Identifier) (is : List Identifier) :
    (join "." ((i :: is).map (·.val))).toList = i.chars ++ dots is := by
  rw [join, String.toList_ofList, List.map_map]
  induction is generalizing i with
  | nil => simp [joinChars, Identifier.chars, dots]
  | cons next is ih =>
      rw [List.map_cons, joinChars_cons _ _ (by simp), ih next, dots_cons, List.append_assoc]
      rfl

end Text

namespace Uses

open Text (Identifier dots isBlank)

/-! ## Chains -/

/-- What stands between two identifiers of a chain. -/
inductive Separator where
  | dot
  | optional
  | arrow
  | colons
deriving DecidableEq, Repr

/-- The characters of a separator. -/
def Separator.chars : Separator → List Char
  | .dot => ['.']
  | .optional => ['?', '.']
  | .arrow => ['-', '>']
  | .colons => [':', ':']

/-- Identifiers with a separator between two of them. -/
structure Chain where
  first : Identifier
  links : List (Separator × Identifier)

namespace Chain

/-- The chain, with its separators spelled in a given way. -/
def spelled (c : Chain) (spelling : Separator → List Char) : List Char :=
  c.first.chars ++ c.links.flatMap fun l => spelling l.1 ++ l.2.chars

/-- The chain as it is written. -/
def chars (c : Chain) : List Char := c.spelled Separator.chars

/-- The identifiers of the chain with dots between them. -/
def dotted (c : Chain) : String := Text.join "." ((c.first :: c.links.map Prod.snd).map (·.val))

/-- Identifiers with a dot between two of them. -/
def ofIdentifiers (i : Identifier) (is : List Identifier) : Chain := ⟨i, is.map fun j => (.dot, j)⟩

theorem spelled_ofIdentifiers (i : Identifier) (is : List Identifier)
    {spelling : Separator → List Char} (h : spelling .dot = ['.']) :
    (ofIdentifiers i is).spelled spelling = i.chars ++ dots is := by
  rw [ofIdentifiers, spelled, dots, List.flatMap_map]
  simp only [h]
  rfl

theorem toList_dotted (c : Chain) : c.dotted.toList = c.spelled fun _ => ['.'] := by
  rw [dotted, Text.toList_join_identifiers, dots, List.flatMap_map]
  rfl

variable {spelling : Separator → List Char} {a b : Char}

theorem forall_mem_spelled {P : Char → Prop} (c : Chain)
    (hidentifier : ∀ d, Text.continuesIdentifier d = true → P d)
    (hspelling : ∀ s, ∀ d ∈ spelling s, P d) : ∀ d ∈ c.spelled spelling, P d := by
  refine List.forall_mem_append.mpr ⟨fun d hd => hidentifier d (c.first.wordlike.2 d hd), ?_⟩
  intro d hd
  obtain ⟨l, -, hl⟩ := List.mem_flatMap.mp hd
  rcases List.mem_append.mp hl with hl | hl
  · exact hspelling l.1 d hl
  · exact hidentifier d (l.2.wordlike.2 d hl)

end Chain

/-- The second text is the first one with blanks and dollar signs put in anywhere. -/
inductive Padded : List Char → List Char → Prop
  | nil : Padded [] []
  | keep {c : Char} {cs text : List Char} : Padded cs text → Padded (c :: cs) (c :: text)
  | insert {c : Char} {cs text : List Char} :
      isBlank c = true ∨ c = '$' → Padded cs text → Padded cs (c :: text)


/-! ## Passes over a chain -/

theorem dotFor_append {word : List Char} (h : a ∉ word) (rest : List Char) :
    dotFor a b (word ++ rest) = word ++ dotFor a b rest := by
  induction word with
  | nil => rfl
  | cons c word ih =>
      rw [List.mem_cons, not_or] at h
      rw [List.cons_append, List.cons_append, ← ih h.2]
      cases hrest : word ++ rest with
      | nil => rfl
      | cons d others => rw [dotFor, if_neg fun hpair => h.1 hpair.1.symm]

theorem dotFor_pair (a b : Char) (rest : List Char) :
    dotFor a b (a :: b :: rest) = '.' :: dotFor a b rest := by
  rw [dotFor, if_pos ⟨rfl, rfl⟩]

/-- A pass replaces one kind of separator, when the first character of that kind stands nowhere
else. -/
theorem dotFor_spelled (c : Chain) (ha : Text.continuesIdentifier a = false)
    (hspelling : ∀ s, a ∉ spelling s ∨ spelling s = [a, b]) :
    dotFor a b (c.spelled spelling) =
      c.spelled fun s => if spelling s = [a, b] then ['.'] else spelling s := by
  have hidentifier : ∀ i : Identifier, a ∉ i.chars := by
    intro i hmem
    rw [i.wordlike.2 a hmem] at ha
    exact absurd ha (by simp)
  obtain ⟨first, links⟩ := c
  simp only [Chain.spelled, dotFor_append (hidentifier first)]
  congr 1
  induction links with
  | nil => rfl
  | cons l links ih =>
      rw [List.flatMap_cons, List.flatMap_cons, List.append_assoc, List.append_assoc]
      rcases hspelling l.1 with hnot | hpair
      · have hother : spelling l.1 ≠ [a, b] := fun hpair => hnot (by simp [hpair])
        rw [dotFor_append hnot, dotFor_append (hidentifier l.2), ih, if_neg hother]
      · rw [if_pos hpair, hpair, List.cons_append, List.singleton_append, dotFor_pair,
          dotFor_append (hidentifier l.2), ih]
        rfl

/-- The three passes leave dots for all separators. -/
theorem dotFor_chars (c : Chain) :
    dotFor ':' ':' (dotFor '-' '>' (dotFor '?' '.' c.chars)) = c.spelled fun _ => ['.'] := by
  rw [Chain.chars, dotFor_spelled c (by decide) (by intro s; cases s <;> decide),
    dotFor_spelled c (by decide) (by intro s; cases s <;> decide),
    dotFor_spelled c (by decide) (by intro s; cases s <;> decide)]
  congr 1
  funext s
  cases s <;> rfl

namespace Padded

variable {cs text : List Char}

theorem filter_eq (h : Padded cs text) (hcs : ∀ c ∈ cs, isBlank c = false ∧ c ≠ '$') :
    (text.filter fun c => !isBlank c && c != '$') = cs := by
  induction h with
  | nil => rfl
  | keep _ ih =>
      rw [List.forall_mem_cons] at hcs
      rw [List.filter_cons_of_pos (by simp [hcs.1]), ih hcs.2]
  | insert hc _ ih =>
      rw [List.filter_cons_of_neg (by rcases hc with hc | rfl <;> simp_all), ih hcs]

theorem mem (h : Padded cs text) : ∀ c ∈ text, c ∈ cs ∨ isBlank c = true ∨ c = '$' := by
  induction h with
  | nil => simp
  | keep _ ih =>
      refine List.forall_mem_cons.mpr ⟨Or.inl List.mem_cons_self, ?_⟩
      exact fun d hd => (ih d hd).imp_left (List.mem_cons_of_mem _)
  | insert hc _ ih => exact List.forall_mem_cons.mpr ⟨Or.inr hc, ih⟩

end Padded

/-! ## Dots around a name -/

/-- A chain ends in an identifier. -/
theorem Chain.exists_spelled_eq_concat (c : Chain) (spelling : Separator → List Char) :
    ∃ front d, c.spelled spelling = front ++ [d] ∧ Text.continuesIdentifier d = true := by
  have hidentifier : ∀ i : Identifier,
      ∃ front d, i.chars = front ++ [d] ∧ Text.continuesIdentifier d = true := by
    intro i
    obtain ⟨hne, hchars⟩ := i.wordlike
    refine ⟨_, _, (List.dropLast_append_getLast hne).symm, hchars _ (List.getLast_mem hne)⟩
  obtain ⟨first, links⟩ := c
  rcases List.eq_nil_or_concat links with rfl | ⟨links, l, rfl⟩
  · simpa [Chain.spelled] using hidentifier first
  · obtain ⟨front, d, hl, hd⟩ := hidentifier l.2
    refine ⟨first.chars ++ (links.flatMap fun l => spelling l.1 ++ l.2.chars) ++ spelling l.1 ++
      front, d, ?_, hd⟩
    simp [Chain.spelled, hl]

/-- No dots are taken off the ends of a chain. -/
theorem trimDots_spelled (c : Chain) (spelling : Separator → List Char) :
    (((c.spelled spelling).dropWhile (· == '.')).reverse.dropWhile (· == '.')).reverse =
      c.spelled spelling := by
  have hkept : ∀ {d} ds, Text.continuesIdentifier d = true →
      (d :: ds).dropWhile (· == '.') = d :: ds := fun ds hd =>
    List.dropWhile_cons_of_neg (by simpa using Text.ne_dot_of_continuesIdentifier hd)
  have hfront : (c.spelled spelling).dropWhile (· == '.') = c.spelled spelling := by
    obtain ⟨d, ds, hchars⟩ := List.exists_cons_of_ne_nil c.first.wordlike.1
    have hd := c.first.wordlike.2 d (by rw [hchars]; exact List.mem_cons_self)
    rw [Chain.spelled, hchars, List.cons_append, hkept _ hd]
  obtain ⟨front, d, hconcat, hd⟩ := c.exists_spelled_eq_concat spelling
  rw [hfront, hconcat, List.reverse_concat, hkept _ hd, List.reverse_cons, List.reverse_reverse]

/-! ## Reading callees -/

theorem callee?_eq_some_dotted (c : Chain) {text : String}
    (h : ((text.toList.takeWhile fun d => !endsCallee d).filter fun d => !isBlank d && d != '$') =
      c.chars) : callee? text = some c.dotted := by
  have hdotted : Text.isDottedChars (c.spelled fun _ => ['.']) = true := by
    refine Text.isDottedChars_iff.mpr ⟨c.first, c.links.map Prod.snd, ?_⟩
    rw [← c.toList_dotted, Chain.dotted, Text.toList_join_identifiers]
  simp only [callee?, h, dotFor_chars, trimDots_spelled]
  rw [if_pos hdotted, ← c.toList_dotted, String.ofList_toList]

theorem endsCallee_eq_true_iff {d : Char} :
    endsCallee d = true ↔ d ∈ ['(', '<', '[', '{'] := by
  simp [endsCallee, or_assoc]

/-- Nothing in a chain ends it or is dropped from it. -/
theorem plain_of_mem_chars (c : Chain) :
    ∀ d ∈ c.chars, endsCallee d = false ∧ isBlank d = false ∧ d ≠ '$' := by
  have hseparator : ∀ s : Separator, ∀ d ∈ s.chars,
      (!endsCallee d && !isBlank d && d != '$') = true := fun s =>
    List.all_eq_true.mp (by cases s <;> decide)
  refine c.forall_mem_spelled ?_ fun s d hd => by simpa [and_assoc] using hseparator s d hd
  intro d hd
  refine ⟨?_, Text.isBlank_of_continuesIdentifier hd, ?_⟩
  · rw [Bool.eq_false_iff]
    intro hends
    have hnone : ∀ e ∈ ['(', '<', '[', '{'], (!Text.continuesIdentifier e) = true :=
      List.all_eq_true.mp (by decide)
    simpa [hd] using hnone d (endsCallee_eq_true_iff.mp hends)
  · rintro rfl
    exact absurd hd (by decide)

/-- A chain is read as its identifiers with dots between them. -/
theorem callee?_padded (c : Chain) (written tail : List Char) (hwritten : Padded c.chars written)
    (htail : ∀ d ∈ tail.head?, d ∈ ['(', '<', '[', '{']) :
    callee? (String.ofList (written ++ tail)) = some c.dotted := by
  have hplain := plain_of_mem_chars c
  have hsolid : ∀ d ∈ ['(', '<', '[', '{'], (!isBlank d) = true :=
    List.all_eq_true.mp (by decide)
  have hgoes : ∀ d ∈ written, (!endsCallee d) = true := by
    intro d hd
    rcases hwritten.mem d hd with hd | hblank | rfl
    · simp [(hplain d hd).1]
    · rw [Bool.not_eq_true', Bool.eq_false_iff]
      intro hends
      simpa [hblank] using hsolid d (endsCallee_eq_true_iff.mp hends)
    · decide
  have hstops : (tail.takeWhile fun d => !endsCallee d) = [] := by
    cases tail with
    | nil => rfl
    | cons d tail =>
        have hd := endsCallee_eq_true_iff.mpr (htail d rfl)
        exact List.takeWhile_cons_of_neg (by simp [hd])
  apply callee?_eq_some_dotted
  rw [String.toList_ofList, List.takeWhile_append_of_pos hgoes, hstops, List.append_nil]
  exact hwritten.filter_eq fun d hd => (hplain d hd).2

theorem padded_self (cs : List Char) : Padded cs cs := by
  induction cs with
  | nil => exact .nil
  | cons c cs ih => exact .keep ih

/-- A name that is read is made of identifiers with dots between them. -/
theorem exists_identifiers_of_callee? {text name : String} (h : callee? text = some name) :
    ∃ (i : Identifier) (is : List Identifier), name.toList = i.chars ++ dots is := by
  rw [callee?, Option.ite_none_right_eq_some] at h
  obtain ⟨hdotted, hname⟩ := h
  obtain ⟨i, is, hchars⟩ := Text.isDottedChars_iff.mp hdotted
  refine ⟨i, is, ?_⟩
  rw [← Option.some.inj hname, String.toList_ofList, hchars]

/-- A chain is read as its identifiers with dots between them, whatever blanks and dollar signs
stand in it, up to the first character that ends a callee.  Every name that is read, from a chain or
not, is made of identifiers with dots between them, and is read as itself. -/
theorem callee?_normal :
    (∀ (c : Chain) (written tail : List Char), Padded c.chars written →
      (∀ d ∈ tail.head?, d ∈ ['(', '<', '[', '{']) →
      callee? (String.ofList (written ++ tail)) = some c.dotted) ∧
    ∀ text name, callee? text = some name →
      (∃ is : List Identifier, is ≠ [] ∧ name = Text.join "." (is.map (·.val))) ∧
        callee? name = some name := by
  refine ⟨callee?_padded, ?_⟩
  intro text name h
  obtain ⟨i, is, hname⟩ := exists_identifiers_of_callee? h
  have hjoin : name = Text.join "." ((i :: is).map (·.val)) := by
    rw [← String.toList_inj, hname, Text.toList_join_identifiers]
  refine ⟨⟨i :: is, by simp, hjoin⟩, ?_⟩
  -- the name is the chain of its identifiers with dots, and nothing is put in
  have hread := callee?_padded (.ofIdentifiers i is) _ [] (padded_self _) (by simp)
  have hchars : (Chain.ofIdentifiers i is).chars = name.toList := by
    rw [hname, Chain.chars, Chain.spelled_ofIdentifiers i is rfl]
  have hdotted : (Chain.ofIdentifiers i is).dotted = name := by
    rw [← String.toList_inj, Chain.toList_dotted, hname, Chain.spelled_ofIdentifiers i is rfl]
  rw [List.append_nil, hchars, String.ofList_toList, hdotted] at hread
  exact hread

/-- A member that is found through two others. -/
def finding : Chain :=
  ⟨⟨"this", by decide⟩, [(.arrow, ⟨"repo", by decide⟩), (.optional, ⟨"find", by decide⟩)]⟩

/-- Blanks and dollar signs may also stand in a separator or in an identifier. -/
theorem callee?_normal_finding :
    Padded finding.chars "$this\n  - > re po ?. find".toList ∧
      callee? "$this\n  - > re po ?. find<T>(x)" = some "this.repo.find" ∧
      callee? "this.repo.find" = some "this.repo.find" := by
  have hpadded : Padded finding.chars "$this\n  - > re po ?. find".toList := by
    have hchars : finding.chars = "this->repo?.find".toList := by decide +kernel
    rw [hchars]
    repeat first
      | exact .nil
      | apply Padded.keep
      | refine .insert (by decide) ?_
  have hread := callee?_normal.1 finding _ "<T>(x)".toList hpadded (by simp)
  have htext : String.ofList ("$this\n  - > re po ?. find".toList ++ "<T>(x)".toList) =
      "$this\n  - > re po ?. find<T>(x)" := by decide +kernel
  have hname : finding.dotted = "this.repo.find" := by decide +kernel
  rw [htext, hname] at hread
  exact ⟨hpadded, hread, (callee?_normal.2 _ _ hread).2⟩

end Uses
end CodeAtlas
