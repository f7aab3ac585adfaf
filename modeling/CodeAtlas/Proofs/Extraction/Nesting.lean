import CodeAtlas.Proofs.Extraction.Offers
import CodeAtlas.Proofs.Extraction.Rows
import CodeAtlas.Proofs.Sorting

/-!
# Rows recover nesting

A definition is placed by the rows that it covers, while nesting is a matter of bytes.  The two agree
as long as a definition that can hold others contains, or is contained in, whatever shares a row with
it: then the candidates for a definition are those around it, and the one that is offered first is
the innermost of them.
-/

namespace CodeAtlas

open Survey (Definition)

namespace Span

variable {a b outer inner : Span}

/-- The two spans have a row in common. -/
def sharesRow (a b : Span) : Bool :=
  a.start.row ≤ b.stop.row && b.start.row ≤ a.stop.row

theorem byteContains_iff : outer.byteContains inner = true ↔
    outer.startByte ≤ inner.startByte ∧ inner.endByte ≤ outer.endByte := by
  simp [byteContains]

theorem rowsWithin_iff : inner.rowsWithin outer = true ↔
    outer.start.row ≤ inner.start.row ∧ inner.stop.row ≤ outer.stop.row := by
  simp [rowsWithin]

theorem sharesRow_iff : a.sharesRow b = true ↔
    a.start.row ≤ b.stop.row ∧ b.start.row ≤ a.stop.row := by
  simp [sharesRow]

theorem sameRows_iff : a.sameRows b = true ↔
    a.start.row = b.start.row ∧ a.stop.row = b.stop.row := by
  simp [sameRows]

theorem rows_eq_of_sameRows (h : a.sameRows b = true) : a.rows = b.rows := by
  obtain ⟨hstart, hstop⟩ := sameRows_iff.mp h
  rw [rows, rows, hstart, hstop]

theorem sameRows_of_rowsWithin (h : a.rowsWithin b = true) (h' : b.rowsWithin a = true) :
    a.sameRows b = true := by
  rw [rowsWithin_iff] at h h'
  rw [sameRows_iff]
  omega

end Span

namespace Extraction

/-! ## The order of placement -/

theorem placedBefore_iff {a b : Entity × Nat} : placedBefore a b = true ↔
    b.1.span.rows < a.1.span.rows ∨ a.1.span.rows = b.1.span.rows ∧
      (a.1.span.startByte < b.1.span.startByte ∨ a.1.span.startByte = b.1.span.startByte ∧
        (b.1.span.endByte < a.1.span.endByte ∨ a.1.span.endByte = b.1.span.endByte ∧
          a.2 ≤ b.2)) := by
  simp [placedBefore]

theorem placedBefore_trans (a b c : Entity × Nat) (hab : placedBefore a b = true)
    (hbc : placedBefore b c = true) : placedBefore a c = true := by
  rw [placedBefore_iff] at hab hbc ⊢
  omega

theorem placedBefore_total (a b : Entity × Nat) :
    (placedBefore a b || placedBefore b a) = true := by
  rw [Bool.or_eq_true, placedBefore_iff, placedBefore_iff]
  omega

theorem pairwise_placement (es : List (Entity × Nat)) :
    (placement es).Pairwise fun a b => placedBefore a b = true :=
  List.pairwise_mergeSort placedBefore_trans placedBefore_total es

theorem placement_eq_insertionSort (es : List (Entity × Nat)) :
    placement es = es.insertionSort (fun a b => placedBefore a b = true) :=
  Sorting.mergeSort_eq_insertionSort placedBefore_trans placedBefore_total es

/-! ## Candidates -/

/-- The entity can hold the other one by its bytes; of two that cover the same bytes, the first one
holds the second one. -/
structure Around (c x : Entity × Nat) : Prop where
  ne_export : c.1.kind ≠ .export
  ne_assignment : c.1.kind ≠ .assignment
  ne : c.2 ≠ x.2
  contains : c.1.span.byteContains x.1.span = true
  first : x.1.span.byteContains c.1.span = true → c.2 < x.2

/-- Entities of one text in the order of placement. -/
structure Arranged (content : String) (order : List (Entity × Nat)) : Prop where
  size : Text.size content < UInt64.size
  sorted : order.Pairwise fun a b => placedBefore a b = true
  stretch : ∀ x ∈ order, x.1.span.StretchOf content

/-- Entities of one text in the order of placement.  What can hold others contains, or is contained
in, whatever shares a row with it. -/
structure Laid (content : String) (order : List (Entity × Nat)) : Prop
    extends Arranged content order where
  nested : ∀ c ∈ order, ∀ x ∈ order, c.2 ≠ x.2 → c.1.kind ≠ .export → c.1.kind ≠ .assignment →
    c.1.span.sharesRow x.1.span = true →
    c.1.span.byteContains x.1.span = true ∨ x.1.span.byteContains c.1.span = true

variable {content : String} {order before after : List (Entity × Nat)} {c k x : Entity × Nat}

theorem mayHold_iff {o e : Entity} {earlier : Bool} : mayHold o e earlier = true ↔
    o.kind ≠ .assignment ∧ e.span.rowsWithin o.span = true ∧
      (e.span.sameRows o.span = false ∨
        o.span.byteContains e.span = true ∧ earlier = true) := by
  simp [mayHold, and_assoc]

namespace Arranged

theorem placedBefore_of_mem_before (h : Arranged content order) (horder : order = before ++ x :: after)
    (hc : c ∈ before) : placedBefore c x = true := by
  have hsorted := h.sorted
  rw [horder, List.pairwise_append] at hsorted
  exact hsorted.2.2 c hc x List.mem_cons_self

theorem placedBefore_of_mem_after (h : Arranged content order) (horder : order = before ++ x :: after)
    (hc : c ∈ after) : placedBefore x c = true := by
  have hsorted := h.sorted
  rw [horder, List.pairwise_append] at hsorted
  exact List.rel_of_pairwise_cons hsorted.2.1 hc

/-- Rows follow bytes. -/
theorem rowsWithin_of_byteContains (h : Arranged content order) (hc : c ∈ order) (hx : x ∈ order)
    (hcontains : c.1.span.byteContains x.1.span = true) :
    x.1.span.rowsWithin c.1.span = true := by
  obtain ⟨hstart, hend⟩ := Span.byteContains_iff.mp hcontains
  rw [Span.rowsWithin_iff]
  exact ⟨(h.stretch c hc).of.start_row_le (h.stretch x hx).of hstart,
    (h.stretch x hx).of.stop_row_le (h.stretch c hc).of hend⟩

theorem sharesRow_of_rowsWithin (h : Arranged content order) (hx : x ∈ order)
    (hrows : x.1.span.rowsWithin c.1.span = true) : c.1.span.sharesRow x.1.span = true := by
  have hrow := (h.stretch x hx).row_le
  rw [Span.rowsWithin_iff] at hrows
  rw [Span.sharesRow_iff]
  omega

/-- What holds an entity was placed before it. -/
theorem mem_before_of_mem_offered (h : Arranged content order)
    (horder : order = before ++ x :: after) (hc : c ∈ offered before x.1 after) : c ∈ before := by
  rcases mem_offered.mp hc with ⟨hc, -⟩ | ⟨hc, hmay⟩
  · exact hc
  · -- what is placed later covers no more rows
    obtain ⟨-, hrows, hsame⟩ := mayHold_iff.mp hmay
    have hsame := hsame.resolve_right fun h => absurd h.2 (by decide)
    have hx : x ∈ order := by rw [horder]; simp
    have hco : c ∈ order := by rw [horder]; simp [hc]
    have hlater := placedBefore_iff.mp (h.placedBefore_of_mem_after horder hc)
    have hcount := (h.stretch x hx).rows_eq h.size
    have hcount' := (h.stretch c hco).rows_eq h.size
    have hrow := (h.stretch x hx).row_le
    rw [Span.rowsWithin_iff] at hrows
    rw [← Bool.not_eq_true, Span.sameRows_iff] at hsame
    omega

end Arranged

namespace Laid

/-- A candidate for an entity that is no export carrier is around it. -/
theorem around_of_mem_offered (h : Laid content order) (horder : order = before ++ x :: after)
    (hc : c ∈ offered before x.1 after) (hne : c.2 ≠ x.2) (hexport : c.1.kind ≠ .export) :
    Around c x := by
  have hx : x ∈ order := by rw [horder]; simp
  have hco : c ∈ order := mem_of_mem_offered horder hc
  -- on equal rows a candidate was placed before and contains the entity
  have hcases : c.1.kind ≠ .assignment ∧ x.1.span.rowsWithin c.1.span = true ∧
      (x.1.span.sameRows c.1.span = true →
        c.1.span.byteContains x.1.span = true ∧ placedBefore c x = true) := by
    rcases mem_offered.mp hc with ⟨hc, hmay⟩ | ⟨hc, hmay⟩
    · obtain ⟨hassignment, hrows, hsame⟩ := mayHold_iff.mp hmay
      refine ⟨hassignment, hrows, fun hrows' => ?_⟩
      rw [hrows'] at hsame
      exact ⟨(hsame.resolve_left (by decide)).1, h.placedBefore_of_mem_before horder hc⟩
    · obtain ⟨hassignment, hrows, hsame⟩ := mayHold_iff.mp hmay
      refine ⟨hassignment, hrows, fun hrows' => ?_⟩
      rw [hrows'] at hsame
      exact absurd (hsame.resolve_left (by decide)).2 (by decide)
  obtain ⟨hassignment, hrows, hsame⟩ := hcases
  have hfirst : x.1.span.byteContains c.1.span = true →
      c.1.span.byteContains x.1.span = true ∧ c.2 < x.2 := by
    intro hinner
    have hrows' := h.rowsWithin_of_byteContains hx hco hinner
    have hequal := Span.sameRows_of_rowsWithin hrows hrows'
    obtain ⟨hcontains, hbefore⟩ := hsame hequal
    refine ⟨hcontains, ?_⟩
    have hcount := Span.rows_eq_of_sameRows hequal
    rw [Span.byteContains_iff] at hinner hcontains
    rw [placedBefore_iff] at hbefore
    omega
  have hcontains : c.1.span.byteContains x.1.span = true := by
    rcases h.nested c hco x hx hne hexport hassignment (h.sharesRow_of_rowsWithin hx hrows) with
      houter | hinner
    · exact houter
    · exact (hfirst hinner).1
  exact ⟨hexport, hassignment, hne, hcontains, fun hinner => (hfirst hinner).2⟩

/-- What is around an entity is a candidate for it. -/
theorem mem_offered_of_around (h : Laid content order) (horder : order = before ++ x :: after)
    (hc : c ∈ order) (haround : Around c x) : c ∈ offered before x.1 after := by
  have hx : x ∈ order := by rw [horder]; simp
  have hrows := h.rowsWithin_of_byteContains hc hx haround.contains
  rw [mem_offered, mayHold_iff, mayHold_iff]
  rw [horder, List.mem_append, List.mem_cons] at hc
  rcases hc with hc | rfl | hc
  · refine Or.inl ⟨hc, haround.ne_assignment, hrows, ?_⟩
    cases x.1.span.sameRows c.1.span with
    | false => exact Or.inl rfl
    | true => exact Or.inr ⟨haround.contains, rfl⟩
  · exact absurd rfl haround.ne
  · refine Or.inr ⟨hc, haround.ne_assignment, hrows, Or.inl ?_⟩
    -- on equal rows it would have been placed before
    by_contra hsame
    rw [Bool.not_eq_false] at hsame
    have hcount := Span.rows_eq_of_sameRows hsame
    have hafter := placedBefore_iff.mp (h.placedBefore_of_mem_after horder hc)
    have hcontains := Span.byteContains_iff.mp haround.contains
    have hfirst := haround.first
    rw [Span.byteContains_iff] at hfirst
    omega

/-- Candidates are offered from the fewest rows outwards, and on equally many rows the one that was
placed last comes first. -/
theorem pairwise_offered (h : Laid content order) (horder : order = before ++ x :: after) :
    (offered before x.1 after).Pairwise fun a b => a.1.span.rows < b.1.span.rows ∨
      a.1.span.rows = b.1.span.rows ∧ placedBefore b a = true := by
  apply Sorting.pairwise_mergeSort_reverse (fun a : Entity × Nat => a.1.span.rows)
  refine List.Pairwise.sublist ?_ h.sorted
  rw [horder]
  exact List.Sublist.append List.filter_sublist
    (List.filter_sublist.trans (List.sublist_cons_self x after))

/-- The holder of an entity is the innermost of what is around it. -/
theorem around_holder (h : Laid content order) (horder : order = before ++ x :: after)
    (hholder : holder? before x.1 after = some c) (hc : Around c x) (hk : k ∈ order)
    (haround : Around k x) (hne : k.2 ≠ c.2) : Around k c := by
  obtain ⟨hkind, as, bs, hoffered, has⟩ := List.find?_eq_some_iff_append.mp hholder
  have hx : x ∈ order := by rw [horder]; simp
  have hco : c ∈ order := mem_of_mem_offered horder (List.mem_of_find?_eq_some hholder)
  have hbehind : k ∈ bs := by
    have hkoffered := h.mem_offered_of_around horder hk haround
    rw [hoffered, List.mem_append, List.mem_cons] at hkoffered
    rcases hkoffered with hk | rfl | hk
    · exact absurd (by simpa using has k hk) haround.ne_export
    · exact absurd rfl hne
    · exact hk
  have hpair := h.pairwise_offered horder
  rw [hoffered, List.pairwise_append] at hpair
  have hlater := List.rel_of_pairwise_cons hpair.2.1 hbehind
  -- both cover the rows of the entity
  have hshares : k.1.span.sharesRow c.1.span = true := by
    have hrow := (h.stretch x hx).row_le
    have hrows := h.rowsWithin_of_byteContains hk hx haround.contains
    have hrows' := h.rowsWithin_of_byteContains hco hx hc.contains
    rw [Span.rowsWithin_iff] at hrows hrows'
    rw [Span.sharesRow_iff]
    omega
  have hinner : c.1.span.byteContains k.1.span = true →
      k.1.span.byteContains c.1.span = true ∧ k.2 < c.2 := by
    intro hcontains
    have hrows := h.rowsWithin_of_byteContains hco hk hcontains
    have hcount := (h.stretch k hk).rows_eq h.size
    have hcount' := (h.stretch c hco).rows_eq h.size
    have hrow := (h.stretch k hk).row_le
    rw [Span.rowsWithin_iff] at hrows
    rw [placedBefore_iff] at hlater
    rw [Span.byteContains_iff] at hcontains ⊢
    omega
  refine ⟨haround.ne_export, haround.ne_assignment, hne, ?_, fun hcontains => (hinner hcontains).2⟩
  rcases h.nested k hk c hco hne haround.ne_export haround.ne_assignment hshares with
    houter | hcontains
  · exact houter
  · exact (hinner hcontains).1

end Laid

end Extraction

/-! ## Definitions -/

namespace Survey

/-- Other definitions can be placed under this one. -/
def Definition.isContainer (d : Definition) : Bool := d.kind != .export && d.kind != .assignment

/-- Of two definitions that share a row, one contains the other if one of them is a container. -/
def Nested (ds : List Definition) : Prop :=
  ds.Pairwise fun c d => (c.isContainer || d.isContainer) = true →
    c.ownSpan.sharesRow d.ownSpan = true →
    c.ownSpan.byteContains d.ownSpan = true ∨ d.ownSpan.byteContains c.ownSpan = true

instance (ds : List Definition) : Decidable (Nested ds) :=
  inferInstanceAs (Decidable (ds.Pairwise _))

/-- The `i`-th definition is a container and encloses the `j`-th one; of two that cover the same
bytes, the first one encloses the second one. -/
def Encloses (ds : List Definition) (i j : Nat) : Prop :=
  ∃ c d, ds[i]? = some c ∧ ds[j]? = some d ∧ i ≠ j ∧ c.isContainer = true ∧
    c.ownSpan.byteContains d.ownSpan = true ∧ (d.ownSpan.byteContains c.ownSpan = true → i < j)

/-- The `i`-th definition is the smallest one that encloses the `j`-th one: every other one encloses
it too. -/
def Innermost (ds : List Definition) (i j : Nat) : Prop :=
  Encloses ds i j ∧ ∀ k, Encloses ds k j → k = i ∨ Encloses ds k i

theorem Nested.contains {ds : List Definition} (h : Nested ds) {i j : Nat} {c d : Definition}
    (hc : ds[i]? = some c) (hd : ds[j]? = some d) (hij : i ≠ j) (hcontainer : c.isContainer = true)
    (hrow : c.ownSpan.sharesRow d.ownSpan = true) :
    c.ownSpan.byteContains d.ownSpan = true ∨ d.ownSpan.byteContains c.ownSpan = true := by
  obtain ⟨hi, rfl⟩ := List.getElem?_eq_some_iff.mp hc
  obtain ⟨hj, rfl⟩ := List.getElem?_eq_some_iff.mp hd
  have hpairs := List.pairwise_iff_getElem.mp h
  rcases Nat.lt_or_gt_of_ne hij with hlt | hlt
  · exact hpairs i j hi hj hlt (by simp [hcontainer]) hrow
  · refine (hpairs j i hj hi hlt (by simp [hcontainer]) ?_).symm
    rw [Span.sharesRow, Bool.and_comm]
    exact hrow

end Survey

namespace Extraction

open Survey (Nested Encloses Innermost)

variable {language : Language} {path content : String} {s : Survey}
  {before after : List (Entity × Nat)} {x y : Entity × Nat} {i j : Nat}

theorem encloses_iff_around (hx : x ∈ order language path content s)
    (hy : y ∈ order language path content s) :
    Encloses s.definitions (x.2 - 1) (y.2 - 1) ↔ Around x y := by
  obtain ⟨c, hc, hposc, hentityc⟩ := exists_of_mem_order hx
  obtain ⟨d, hd, hposd, hentityd⟩ := exists_of_mem_order hy
  have hkind : x.1.kind = c.kind := by
    rw [hentityc, (Unlinked.entity language path content c).kind_eq]
  have hspanc : x.1.span = c.ownSpan := by
    rw [hentityc, (split_source_entity language path content c).2]
  have hspand : y.1.span = d.ownSpan := by
    rw [hentityd, (split_source_entity language path content d).2]
  constructor
  · rintro ⟨c', d', hc', hd', hne, hcontainer, hcontains, hfirst⟩
    obtain rfl : c = c' := Option.some.inj (hc.symm.trans hc')
    obtain rfl : d = d' := Option.some.inj (hd.symm.trans hd')
    rw [Definition.isContainer, Bool.and_eq_true, bne_iff_ne, bne_iff_ne] at hcontainer
    refine ⟨hkind ▸ hcontainer.1, hkind ▸ hcontainer.2, fun heq => hne (by rw [heq]), ?_, ?_⟩
    · rw [hspanc, hspand]
      exact hcontains
    · rw [hspanc, hspand]
      intro hinner
      have hlt := hfirst hinner
      omega
  · intro haround
    have hne := haround.ne
    refine ⟨c, d, hc, hd, by omega, ?_, ?_, ?_⟩
    · rw [Definition.isContainer, Bool.and_eq_true, bne_iff_ne, bne_iff_ne, ← hkind]
      exact ⟨haround.ne_export, haround.ne_assignment⟩
    · rw [← hspanc, ← hspand]
      exact haround.contains
    · rw [← hspanc, ← hspand]
      intro hinner
      have hlt := haround.first hinner
      omega

theorem arranged_order (language : Language) (path : String)
    (hsize : Text.size content < UInt64.size)
    (hspans : ∀ d ∈ s.definitions, d.ownSpan.StretchOf content) :
    Arranged content (order language path content s) := by
  refine ⟨hsize, pairwise_placement _, ?_⟩
  intro x hx
  obtain ⟨d, hd, -, hentity⟩ := exists_of_mem_order hx
  rw [hentity, (split_source_entity language path content d).2]
  exact hspans d (List.mem_of_getElem? hd)

theorem laid_order (language : Language) (path : String) (hsize : Text.size content < UInt64.size)
    (hspans : ∀ d ∈ s.definitions, d.ownSpan.StretchOf content) (hnested : Nested s.definitions) :
    Laid content (order language path content s) := by
  refine ⟨arranged_order language path hsize hspans, ?_⟩
  intro x hx y hy hne hexport hassignment
  obtain ⟨c, hc, hposc, hentityc⟩ := exists_of_mem_order hx
  obtain ⟨d, hd, hposd, hentityd⟩ := exists_of_mem_order hy
  rw [hentityc, (Unlinked.entity language path content c).kind_eq] at hexport hassignment
  rw [hentityc, hentityd, (split_source_entity language path content c).2,
    (split_source_entity language path content d).2]
  apply hnested.contains hc hd (by omega)
  rw [Definition.isContainer, Bool.and_eq_true, bne_iff_ne, bne_iff_ne]
  exact ⟨hexport, hassignment⟩

/-- Placing definitions by their rows recovers how they are nested: in a text, the parent of a
definition is the innermost container that encloses it, and the file where there is none. -/
theorem parent?_forest_innermost (language : Language) (path : String) {content : String}
    (hsize : Text.size content < UInt64.size) {s : Survey}
    (hkinds : ∀ d ∈ s.definitions, d.kind ≠ .file)
    (hspans : ∀ d ∈ s.definitions, d.ownSpan.StretchOf content) (hnested : Nested s.definitions)
    {j : Nat} {d : Definition} (hd : s.definitions[j]? = some d) (hkind : d.kind ≠ .export) :
    (∃ i, Innermost s.definitions i j ∧
        (forest language path content s).parent? (j + 1) = some (i + 1)) ∨
      (∀ i, ¬ Encloses s.definitions i j) ∧
        (forest language path content s).parent? (j + 1) = some 0 := by
  have hlaid := laid_order language path hsize hspans hnested
  have hx : (entity language path content d, j + 1) ∈ order language path content s :=
    mem_order language path content hd
  have hxkind : (entity language path content d).kind ≠ .export := by
    rwa [(Unlinked.entity language path content d).kind_eq]
  obtain ⟨before, after, horder⟩ := List.append_of_mem hx
  -- what encloses the definition stands in the order of placement
  have hencloses : ∀ k, Encloses s.definitions k j → ∃ y ∈ order language path content s,
      y.2 = k + 1 ∧ Around y (entity language path content d, j + 1) := by
    intro k hk
    have ⟨c, _, hc, _⟩ := hk
    have hy := mem_order language path content hc
    exact ⟨(entity language path content c, k + 1), hy, rfl, (encloses_iff_around hy hx).mp hk⟩
  rw [(marks_forest language path content s).parent?]
  cases outcome_placedForest hkinds horder hxkind with
  | top e hholder hparent _ _ =>
      refine Or.inr ⟨?_, hparent⟩
      intro i hi
      obtain ⟨y, hy, -, haround⟩ := hencloses i hi
      have hoffered := hlaid.mem_offered_of_around horder hy haround
      have hcarrier := List.find?_eq_none.mp hholder y hoffered
      exact haround.ne_export (by simpa using hcarrier)
  | held c _ e hholder hparent _ _ _ _ =>
      have hoffered := List.mem_of_find?_eq_some hholder
      have hcarrier := List.find?_some hholder
      have hc : c ∈ order language path content s := mem_of_mem_offered horder hoffered
      have hne := (setting language path content s).snd_ne_of_mem_offered horder hoffered
      have haround := hlaid.around_of_mem_offered horder hoffered hne (by simpa using hcarrier)
      have hpos : 1 ≤ c.2 := (exists_of_mem_order hc).choose_spec.2.1
      refine Or.inl ⟨c.2 - 1, ⟨(encloses_iff_around hc hx).mpr haround, ?_⟩, ?_⟩
      · intro k hk
        obtain ⟨y, hy, hyk, hyaround⟩ := hencloses k hk
        by_cases hne : y.2 = c.2
        · exact Or.inl (by omega)
        · refine Or.inr ?_
          have hnext := hlaid.around_holder horder hholder haround hy hyaround hne
          have hresult := (encloses_iff_around hy hc).mpr hnext
          rwa [hyk, Nat.add_sub_cancel] at hresult
      · rw [hparent, Nat.sub_add_cancel hpos]

/-- A class with a function on its second row, and a variable on the row of the function. -/
def sharedRow : List Definition :=
  [⟨.cls, ⟨0, 25, ⟨0, 0⟩, ⟨1, 16⟩⟩, [], [⟨"name", ⟨6, 7, ⟨0, 6⟩, ⟨0, 7⟩⟩⟩], none, []⟩,
    ⟨.function, ⟨11, 25, ⟨1, 2⟩, ⟨1, 16⟩⟩, [], [⟨"name", ⟨15, 16, ⟨1, 6⟩, ⟨1, 7⟩⟩⟩], none, []⟩,
    ⟨.assignment, ⟨20, 25, ⟨1, 11⟩, ⟨1, 16⟩⟩, [], [⟨"name", ⟨20, 21, ⟨1, 11⟩, ⟨1, 12⟩⟩⟩], none, []⟩]

/-- The variable stands under the function, which covers the same row. -/
theorem parent?_forest_innermost_sharedRow :
    Text.size "class A:\n  def f(): x = 1" < UInt64.size ∧ Nested sharedRow ∧
      (∀ d ∈ sharedRow, d.kind ≠ .file ∧
        d.ownSpan.StretchOf "class A:\n  def f(): x = 1") ∧
      Innermost sharedRow 1 2 ∧
      (forest .python "/a.py" "class A:\n  def f(): x = 1" ⟨sharedRow, [], []⟩).parent? 3 =
        some 2 := by
  have hsize : Text.size "class A:\n  def f(): x = 1" < UInt64.size := by decide +kernel
  have hnested : Nested sharedRow := by decide
  have hkinds : ∀ d ∈ sharedRow, d.kind ≠ .file := by decide
  have hspans : ∀ d ∈ sharedRow, d.ownSpan.StretchOf "class A:\n  def f(): x = 1" := by
    simp only [sharedRow, List.forall_mem_cons]
    exact ⟨⟨⟨0, 25, by decide +kernel⟩, by decide⟩, ⟨⟨11, 25, by decide +kernel⟩, by decide⟩,
      ⟨⟨20, 25, by decide +kernel⟩, by decide⟩, nofun⟩
  refine ⟨hsize, hnested, fun d hd => ⟨hkinds d hd, hspans d hd⟩, ?_⟩
  have henclosed : Encloses sharedRow 1 2 :=
    ⟨_, _, rfl, rfl, by decide, rfl, by decide, by decide⟩
  rcases parent?_forest_innermost .python "/a.py" hsize (s := ⟨sharedRow, [], []⟩) hkinds hspans
      hnested (j := 2) rfl (by decide) with ⟨i, hinnermost, hparent⟩ | ⟨hnone, -⟩
  · have hi : i = 1 := by
      obtain ⟨hencloses, hothers⟩ := hinnermost
      rcases hothers 1 henclosed with h | ⟨c, d, hc, hd, -, -, hcontains, -⟩
      · exact h.symm
      · -- the function does not enclose the class, and the variable does not enclose itself
        match i with
        | 0 =>
            cases hc
            cases hd
            exact absurd hcontains (by decide)
        | 1 => rfl
        | 2 =>
            obtain ⟨_, _, _, _, hne, _⟩ := hencloses
            exact absurd rfl hne
        | i + 3 => exact absurd hd nofun
    subst hi
    exact ⟨hinnermost, hparent⟩
  · exact absurd henclosed (hnone 1)

end Extraction
end CodeAtlas
