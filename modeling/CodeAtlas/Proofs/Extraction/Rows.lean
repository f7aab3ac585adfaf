import CodeAtlas.Proofs.Extraction.Tree
import CodeAtlas.Proofs.Pattern
import CodeAtlas.Proofs.Text.Rows
import CodeAtlas.Proofs.Uses

/-!
# The rows of an entity

The uses of an entity are looked for in its own text, and a use on a row of that text is reported on
the line that lies as far below the start of the entity.  This is the right line as long as the own
text is one stretch of the file.  Statements further down that belong to the entity are appended to
its text one row after the other, wherever they stand in the file.  So the lines are right when each
of these statements stands on the row behind the one before, and there are files where they are not.
-/

namespace CodeAtlas

open Survey (Definition slice StandsOn rowsOf)

/-! ## The texts that make up an entity -/

namespace Survey.Definition

variable {content : String} {d : Definition}

/-- The span of the entity of the definition: a namespace without braces reaches to the end of what
it holds. -/
def ownSpan (d : Definition) : Span :=
  match d.owned with
  | none => d.span
  | some held => ⟨d.span.startByte, held.endByte, d.span.start, held.stop⟩

/-- The spans whose texts make up the source of the entity, one below the other. -/
def sourceSpans (d : Definition) : List Span := d.ownSpan :: d.chained

/-- The rows of the file on which the rows of the source stand. -/
def sourceRows (d : Definition) (content : String) : List Nat :=
  d.sourceSpans.flatMap (rowsOf content)

/-- The spans of the definition were captured in the text. -/
structure CapturedIn (content : String) (d : Definition) : Prop where
  span : d.span.Of content
  owned : ∀ held, d.owned = some held → held.Of content
  chained : ∀ s ∈ d.chained, s.Of content

theorem CapturedIn.sourceSpans (h : d.CapturedIn content) :
    ∀ s ∈ d.sourceSpans, s.Of content := by
  have hown : d.ownSpan.Of content := by
    rw [ownSpan]
    split
    · exact h.span
    · next held hheld =>
      obtain ⟨first, stop, hspan⟩ := h.span
      obtain ⟨first', stop', hheld'⟩ := h.owned held hheld
      exact ⟨first, stop', by rw [hspan, hheld']; rfl⟩
  intro s hs
  rcases List.mem_cons.mp hs with rfl | hs
  · exact hown
  · exact h.chained s hs

end Survey.Definition

namespace Extraction

variable {language : Language} {path content : String} {d : Definition} {s : Survey} {e : Entity}

theorem addPart_source_span (path content : String) (e : Entity) (p : Survey.Part) :
    (addPart path content e p).source = e.source ∧ (addPart path content e p).span = e.span := by
  simp only [addPart]
  split
  case h_1 => exact ⟨rfl, rfl⟩
  case h_2 => split <;> exact ⟨rfl, rfl⟩
  case h_3 =>
    split
    · exact ⟨rfl, rfl⟩
    · split <;> exact ⟨rfl, rfl⟩
  case h_4 => split <;> exact ⟨rfl, rfl⟩
  case h_5 => exact ⟨rfl, rfl⟩

theorem foldl_addPart_source_span (path content : String) (ps : List Survey.Part) (e : Entity) :
    (ps.foldl (addPart path content) e).source = e.source ∧
      (ps.foldl (addPart path content) e).span = e.span := by
  refine List.foldlRecOn (motive := fun e' : Entity => e'.source = e.source ∧ e'.span = e.span)
    ps _ ⟨rfl, rfl⟩ ?_
  intro e' he' p _
  obtain ⟨hsource, hspan⟩ := addPart_source_span path content e' p
  exact ⟨hsource.trans he'.1, hspan.trans he'.2⟩

theorem entityOf_source_span (language : Language) (path content : String) (d : Definition) :
    (entityOf language path content d).source = slice content d.ownSpan ∧
      (entityOf language path content d).span = d.ownSpan := by
  obtain ⟨hsource, hspan⟩ := foldl_addPart_source_span path content d.ownParts
    { Entity.ofCode path d.kind language (slice content d.span) with
      span := d.span
      documentation := Text.join "\n" (d.comments.map (slice content))
      exportable := isVisible language (slice content d.span) }
  simp only [entityOf, Definition.ownSpan]
  cases d.owned with
  | none => exact ⟨hsource, hspan⟩
  | some held =>
      simp [addOwned, hspan]

/-- Every appended statement adds its rows behind those of the entity. -/
theorem foldl_addStatement_source_span (content : String) (ss : List Span) (e : Entity) :
    Text.split '\n' (ss.foldl (addStatement content) e).source =
        Text.split '\n' e.source ++ ss.flatMap (fun s => Text.split '\n' (slice content s)) ∧
      (ss.foldl (addStatement content) e).span = e.span := by
  induction ss generalizing e with
  | nil => exact ⟨by simp, rfl⟩
  | cons s ss ih =>
      obtain ⟨hsource, hspan⟩ := ih (addStatement content e s)
      have hrow : Text.split '\n' (addStatement content e s).source =
          Text.split '\n' e.source ++ Text.split '\n' (slice content s) := by
        have hchars : (addStatement content e s).source.toList =
            e.source.toList ++ '\n' :: (slice content s).toList := by
          rw [addStatement, String.toList_append, String.toList_append]
          rfl
        rw [Text.split, hchars, Text.splitChars_append_cons, List.map_append]
        rfl
      refine ⟨?_, hspan⟩
      rw [List.foldl_cons, hsource, hrow, List.flatMap_cons, List.append_assoc]

/-- The rows of the source are those of the texts that make it up. -/
theorem split_source_entity (language : Language) (path content : String) (d : Definition) :
    Text.split '\n' (entity language path content d).source =
        d.sourceSpans.flatMap (fun s => Text.split '\n' (slice content s)) ∧
      (entity language path content d).span = d.ownSpan := by
  obtain ⟨hsource, hspan⟩ := entityOf_source_span language path content d
  obtain ⟨hrows, hspan'⟩ :=
    foldl_addStatement_source_span content d.chained (entityOf language path content d)
  constructor
  · rw [entity, hrows, hsource]
    rfl
  · rw [entity, hspan', hspan]

/-- The rows of the source stand on the rows of the spans that make it up. -/
theorem forall₂_standsOn_source (language : Language) (path : String)
    (h : d.CapturedIn content) :
    List.Forall₂ (StandsOn content) (Text.split '\n' (entity language path content d).source)
      (d.sourceRows content) := by
  rw [(split_source_entity language path content d).1]
  have hspans : List.Forall₂ (fun s s' => s = s' ∧ s.Of content) d.sourceSpans d.sourceSpans :=
    List.forall₂_same.mpr fun s hs => ⟨rfl, h.sourceSpans s hs⟩
  refine List.rel_flatMap hspans ?_
  rintro s _ ⟨rfl, hs⟩
  exact Survey.forall₂_standsOn_slice hs

/-! ## Entities in their places -/

end Extraction

/-- The rows follow one another from a first one on. -/
def Consecutive (first : Nat) (rows : List Nat) : Prop := rows = List.range' first rows.length

instance (first : Nat) (rows : List Nat) : Decidable (Consecutive first rows) :=
  inferInstanceAs (Decidable (rows = List.range' first rows.length))

/-- Each row of the own text of the entity stands in the file as far below its start, and so does
what is reported as used there. -/
structure Entity.InPlace (content : String) (e : Entity) : Prop where
  rows : ∀ k text, (Text.split '\n' e.source)[k]? = some text →
    StandsOn content text (e.span.start.row + k)
  lines : ∀ (scope : Scope) (captures : List Capture),
    ∀ use ∈ (Uses.ofCaptures scope e captures).entries, ∀ line ∈ use.2,
      ∃ c ∈ captures, line = e.span.start.row + c.span.start.row + 1 ∧
        ∀ text, (Text.split '\n' e.source)[c.span.start.row]? = some text →
          StandsOn content text (line - 1)

namespace Extraction

variable {language : Language} {path content : String} {d : Definition} {s : Survey} {e : Entity}

theorem inPlace_of_consecutive {rows : List Nat}
    (hstands : List.Forall₂ (StandsOn content) (Text.split '\n' e.source) rows)
    (hrows : Consecutive e.span.start.row rows) : e.InPlace content := by
  have hplace : ∀ k text, (Text.split '\n' e.source)[k]? = some text →
      StandsOn content text (e.span.start.row + k) := by
    intro k text htext
    obtain ⟨hk, rfl⟩ := List.getElem?_eq_some_iff.mp htext
    have hk' : k < rows.length := hstands.length_eq ▸ hk
    have hrow : rows.get ⟨k, hk'⟩ = e.span.start.row + k := by
      rw [List.get_eq_getElem, ← Option.some_inj, ← List.getElem?_eq_getElem hk', hrows]
      simp [hk']
    rw [← hrow]
    exact hstands.get hk hk'
  refine ⟨hplace, ?_⟩
  intro scope captures use huse line hline
  obtain ⟨c, hc, hcline, -⟩ :=
    (Uses.reportsHave_ofCaptures scope e captures use huse).2 line hline
  refine ⟨c, hc, hcline, ?_⟩
  intro text htext
  rw [hcline, Nat.add_sub_cancel]
  exact hplace c.span.start.row text htext

/-- The rows of the file itself stand where they are. -/
theorem inPlace_file (hfile : (fileEntity language path content s).Finishes e) :
    e.InPlace content ∧
      List.Forall₂ (StandsOn content) (Text.split '\n' e.source)
        (List.range' 0 (Text.split '\n' content).length) := by
  obtain ⟨id, n, hbecomes, -⟩ := hfile
  have hsource : e.source = content := hbecomes.source
  have hstart : e.span.start.row = 0 := congrArg (·.start.row) hbecomes.span
  have hstands : List.Forall₂ (StandsOn content) (Text.split '\n' e.source)
      (List.range' 0 (Text.split '\n' content).length) := by
    rw [hsource, List.forall₂_iff_get]
    refine ⟨by rw [List.length_range'], ?_⟩
    intro k hk hk'
    have hrow : (List.range' 0 (Text.split '\n' content).length).get ⟨k, hk'⟩ = k := by simp
    rw [hrow]
    exact ⟨_, List.getElem?_eq_getElem hk, List.infix_rfl⟩
  have hconsecutive :
      Consecutive e.span.start.row (List.range' 0 (Text.split '\n' content).length) := by
    rw [Consecutive, hstart, List.length_range']
  exact ⟨inPlace_of_consecutive hstands hconsecutive, hstands⟩

/-- What the rows of an entity in the list of a file are: those of the file, or those of the spans
that make up a definition. -/
def SourceRows (language : Language) (path content : String) (s : Survey) (e : Entity)
    (rows : List Nat) : Prop :=
  (e.kind = .file ∧ rows = List.range' 0 (Text.split '\n' content).length) ∨
    ∃ d ∈ s.definitions, (entity language path content d).Finishes e ∧ rows = d.sourceRows content

theorem exists_sourceRows (hkinds : ∀ d ∈ s.definitions, d.kind ≠ .file)
    (hspans : ∀ d ∈ s.definitions, d.CapturedIn content)
    (he : e ∈ entities language path content s) :
    ∃ rows, SourceRows language path content s e rows ∧
      List.Forall₂ (StandsOn content) (Text.split '\n' e.source) rows ∧
      (Consecutive e.span.start.row rows → e.InPlace content) := by
  obtain ⟨file, below, hes, htree, -, hfile, hbelow⟩ :=
    fileTree_entities language path content hkinds
  rw [hes] at he
  rcases List.mem_cons.mp he with rfl | he
  · obtain ⟨hplace, hstands⟩ := inPlace_file hfile
    exact ⟨_, Or.inl ⟨htree.kind_file, rfl⟩, hstands, fun _ => hplace⟩
  · obtain ⟨d, hd, -, hfinishes⟩ := exists_definition_of_mem hbelow he
    have hstands : List.Forall₂ (StandsOn content) (Text.split '\n' e.source)
        (d.sourceRows content) := by
      obtain ⟨id, n, hbecomes, -⟩ := hfinishes
      have hsource : e.source = (entity language path content d).source := hbecomes.source
      rw [hsource]
      exact forall₂_standsOn_source language path (hspans d hd)
    exact ⟨_, Or.inr ⟨d, hd, hfinishes, rfl⟩, hstands, inPlace_of_consecutive hstands⟩

end Extraction

/-! ## Captured definitions -/

namespace Survey

variable {p : Syntax.Parsed} {content : String} {d : Definition}

theorem of_ownedBy (hp : p.source = Syntax.Source.ofString content) {site : Syntax.Site}
    {held : Span} (h : ownedBy p site = some held) : held.Of content := by
  simp only [ownedBy] at h
  split at h
  · exact absurd h (by simp)
  · split at h
    · next first last _ _ =>
      obtain rfl := Option.some.inj h
      exact ⟨first.first, _, by rw [hp]⟩
    · exact absurd h (by simp)

theorem of_chainedCalls (hp : p.source = Syntax.Source.ofString content) {name : String}
    {c : Capture} (h : c ∈ Capture.chainedCalls p name) : c.span.Of content := by
  rw [Capture.chainedCalls] at h
  split at h
  · exact absurd h (by simp)
  · obtain ⟨m, -, hc⟩ := List.mem_flatMap.mp h
    obtain ⟨l, -, rfl⟩ := List.mem_map.mp hc
    exact Span.of_span hp l.site

/-- All spans of the definitions that are collected from a text lie in it. -/
theorem capturedIn_of_mem (hp : p.source = Syntax.Source.ofString content)
    (h : d ∈ definitionsOf p content) : d.CapturedIn content := by
  simp only [definitionsOf, List.mem_map, List.mem_filter, List.mem_mergeSort] at h
  obtain ⟨-, ⟨⟨⟨kind, site⟩, -, rfl⟩, -⟩, rfl⟩ := h
  have hsite : (definitionAt p kind site).CapturedIn content := by
    refine ⟨Span.of_span hp site, ?_, fun s hs => absurd hs (by simp [definitionAt])⟩
    intro held hheld
    simp only [definitionAt] at hheld
    split at hheld
    · exact absurd hheld (by simp)
    · exact of_ownedBy hp hheld
  rw [withChained]
  split
  · refine ⟨hsite.span, hsite.owned, ?_⟩
    intro s hs
    obtain ⟨c, hc, rfl⟩ := List.mem_map.mp hs
    exact of_chainedCalls hp hc
  · exact hsite

/-- The definitions that are collected from a text cover stretches of it. -/
theorem stretchOf_of_mem (hp : p.source = Syntax.Source.ofString content)
    (h : d ∈ definitionsOf p content) : d.ownSpan.StretchOf content := by
  have hstretch : ∀ first stop, first ≤ stop → (p.source.span first stop).StretchOf content := by
    intro first stop hle
    rw [hp]
    refine ⟨⟨first, stop, rfl⟩, ?_⟩
    rw [Syntax.Source.span, Syntax.Source.byte_markAt_ofString,
      Syntax.Source.byte_markAt_ofString]
    exact Text.byteLength_take_le hle content.toList
  obtain ⟨l, -, -, chained, hd⟩ := exists_site_of_mem h
  have howned : d.owned = none ∨ d.owned = ownedBy p l.site := by
    rw [hd, definitionAt]
    split
    · exact Or.inl rfl
    · exact Or.inr rfl
  have hspan : d.span = p.span l.site := by rw [hd]; rfl
  rw [Definition.ownSpan]
  split
  · rw [hspan]
    exact hstretch _ _ (Nat.le_max_left _ _)
  · next held hheld =>
    have hheld' := (howned.resolve_left (by simp [hheld])).symm.trans hheld
    simp only [ownedBy] at hheld'
    split at hheld'
    · exact absurd hheld' (by simp)
    · split at hheld'
      · next first last _ _ =>
        obtain rfl := Option.some.inj hheld'
        rw [hspan]
        exact hstretch l.site.tree.first (max l.site.tree.first last.stop) (Nat.le_max_left _ _)
      · exact absurd hheld' (by simp)

end Survey

/-! ## Extracted entities -/

namespace Extraction

/-- Whatever spans of a text a survey holds, the rows of an entity stand on the rows of the spans
that make it up; where these follow one another, each row of the entity and each line reported for
it is in its place.  A survey of a text only holds spans of it. -/
theorem extract?_sourceRows (path content : String) {language : Language}
    (hlanguage : Language.ofPath? path = some language) :
    (∀ s : Survey, (∀ d ∈ s.definitions, d.kind ≠ .file) →
        (∀ d ∈ s.definitions, d.CapturedIn content) →
        ∀ e ∈ entities language path content s,
          ∃ rows, SourceRows language path content s e rows ∧
            List.Forall₂ (StandsOn content) (Text.split '\n' e.source) rows ∧
            (Consecutive e.span.start.row rows → e.InPlace content)) ∧
      (∀ d ∈ (Survey.of language content).definitions,
        d.kind ≠ .file ∧ d.CapturedIn content) ∧
      extract? path content =
        some (entities language path content (Survey.of language content)) := by
  refine ⟨?_, ?_, by rw [extract?, hlanguage]; rfl⟩
  · exact fun s hkinds hspans e he => exists_sourceRows hkinds hspans he
  · intro d hd
    exact ⟨Survey.kind_ne_file_of_mem hd, Survey.capturedIn_of_mem rfl hd⟩

/-- A variable, and a call on it below a number of empty rows. -/
def callBelow (gap : Nat) : String :=
  String.ofList ("a = 1\n".toList ++ List.replicate gap '\n' ++ "a.g()".toList)

/-- The survey of a variable with a call on it. -/
def surveyBelow (gap : Nat) : Survey :=
  ⟨[⟨.assignment, ⟨0, 5, ⟨0, 0⟩, ⟨0, 5⟩⟩, [], [⟨"name", ⟨0, 1, ⟨0, 0⟩, ⟨0, 1⟩⟩⟩], none,
    [⟨gap + 6, gap + 11, ⟨gap + 1, 0⟩, ⟨gap + 1, 5⟩⟩]⟩], [], []⟩

/-- A call on the next row is in its place. -/
theorem extract?_sourceRows_nextRow :
    Language.ofPath? "/a.py" = some .python ∧
      (∀ d ∈ (surveyBelow 0).definitions, d.kind ≠ .file ∧ d.CapturedIn (callBelow 0)) ∧
      ∀ e ∈ entities .python "/a.py" (callBelow 0) (surveyBelow 0), e.InPlace (callBelow 0) := by
  have hlanguage : Language.ofPath? "/a.py" = some .python := by decide +kernel
  have hspans : ∀ d ∈ (surveyBelow 0).definitions, d.CapturedIn (callBelow 0) := by
    rw [surveyBelow, List.forall_mem_singleton]
    refine ⟨⟨0, 5, by decide +kernel⟩, fun _ h => absurd h (by simp), ?_⟩
    rw [List.forall_mem_singleton]
    exact ⟨6, 11, by decide +kernel⟩
  have hkinds : ∀ d ∈ (surveyBelow 0).definitions, d.kind ≠ .file := by decide
  have hstart : ∀ e ∈ entities .python "/a.py" (callBelow 0) (surveyBelow 0),
      e.span.start.row = 0 := by decide +kernel
  refine ⟨hlanguage, fun d hd => ⟨hkinds d hd, hspans d hd⟩, ?_⟩
  intro e he
  obtain ⟨rows, hrows, -, hplace⟩ :=
    (extract?_sourceRows "/a.py" (callBelow 0) hlanguage).1 (surveyBelow 0) hkinds hspans e he
  apply hplace
  rw [hstart e he]
  rcases hrows with ⟨-, rfl⟩ | ⟨d, hd, -, rfl⟩
  · rw [Consecutive, List.length_range']
  · obtain rfl := List.mem_singleton.mp hd
    decide +kernel

theorem survey_callBelow : Survey.of .python (callBelow 1) = surveyBelow 1 := by
  have hlanguage : (Syntax.parse .python (callBelow 1)).language = .python := rfl
  -- the characters of the patterns are laid open first, which keeps the evaluation short
  simp only [Survey.of, Survey.definitionsOf, Survey.definitionAt, Survey.partsOf,
    Survey.exportsOf, Import.statements, Capture.all, Capture.labelled, hlanguage,
    Catalogue.queries_eq_readChars?, Catalogue.groups, Catalogue.python, Catalogue.Python.imports,
    Catalogue.Python.definitions, Catalogue.Python.globals, Catalogue.Python.parts, List.map_cons,
    List.map_nil]
  repeat rw [String.toList_ofList]
  decide +kernel

/-- The rows of an entity are not always where its start puts them: a call below an empty row is the
second row of the variable, but stands on the third row of the file. -/
theorem not_forall_standsOn_source :
    ¬ ∀ (path content : String) (es : List Entity), extract? path content = some es →
      ∀ e ∈ es, ∀ k text, (Text.split '\n' e.source)[k]? = some text →
        StandsOn content text (e.span.start.row + k) := by
  intro h
  have hextract : extract? "/a.py" (callBelow 1) =
      some (entities .python "/a.py" (callBelow 1) (surveyBelow 1)) := by
    have hlanguage : Language.ofPath? "/a.py" = some .python := by decide +kernel
    rw [extract?, hlanguage, Option.map_some, survey_callBelow]
  have hrow : ∃ e ∈ entities .python "/a.py" (callBelow 1) (surveyBelow 1),
      e.span.start.row = 0 ∧ (Text.split '\n' e.source)[1]? = some "a.g()" := by decide +kernel
  obtain ⟨e, he, hstart, htext⟩ := hrow
  obtain ⟨whole, hwhole, hpart⟩ := h _ _ _ hextract e he 1 "a.g()" htext
  have hempty : (Text.split '\n' (callBelow 1))[1]? = some "" := by decide +kernel
  rw [hstart, hempty] at hwhole
  obtain rfl := Option.some.inj hwhole
  exact absurd hpart (by decide)

end Extraction
end CodeAtlas
