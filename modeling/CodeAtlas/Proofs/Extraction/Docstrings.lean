import CodeAtlas.Proofs.Extraction.Bodies
import CodeAtlas.Proofs.Survey.Order

/-!
# Documentation taken out of the code

Where documentation opens the body of a definition, it is taken out of the code.  Its place is
known, but what is taken out is the first occurrence of its text.  So the code is the text of the
definition without the documentation only if the two are the same place, or if removing either of
them gives the same text: then what stands from one to the other and the documentation can be
exchanged.  The header of a definition can hold the text of the documentation, which then stays
while the header is cut.
-/

namespace CodeAtlas

open Survey (Definition Part slice)

/-! ## First occurrences -/

namespace Text

variable {cs piece before front between after : List Char}

/-- The piece stands behind the beginning, and not before. -/
def FirstBehind (before piece : List Char) : Prop :=
  ∀ front, front ++ piece <+: before ++ piece → before.length ≤ front.length

/-- Behind the beginning, the piece stands first or can be exchanged with what stands between its
first occurrence and this one. -/
def StandsFirst (before piece : List Char) : Prop :=
  ∃ front between, before = front ++ between ∧ FirstBehind front piece ∧
    piece ++ between = between ++ piece

/-- A piece is moved before what stands between its first occurrence and this one. -/
theorem append_exchange {rest : List Char} (h : between ++ piece = piece ++ rest)
    (front after : List Char) :
    front ++ between ++ (piece ++ after) = front ++ (piece ++ (rest ++ after)) := by
  rw [List.append_assoc, ← List.append_assoc between, h, List.append_assoc]

theorem length_le_of_splitFirst? {p : List Char × List Char} (h : splitFirst? piece cs = some p)
    (hcs : front ++ piece <+: cs) : p.1.length ≤ front.length := by
  induction cs generalizing p front with
  | nil =>
      obtain ⟨hfront, hpiece⟩ := List.append_eq_nil_iff.mp (List.prefix_nil.mp hcs)
      rw [splitFirst?, hpiece] at h
      obtain rfl := Option.some.inj h
      exact Nat.zero_le _
  | cons c cs ih =>
      rw [splitFirst?] at h
      split at h
      next =>
        obtain rfl := Option.some.inj h
        exact Nat.zero_le _
      next hnone =>
        obtain ⟨q, hq, rfl⟩ := Option.map_eq_some_iff.mp h
        cases front with
        | nil =>
            obtain ⟨rest, hrest⟩ := hcs
            rw [← hrest, List.nil_append, stripPrefix?_append] at hnone
            exact absurd hnone (by simp)
        | cons d front =>
            have hprefix : front ++ piece <+: cs := (List.cons_prefix_cons.mp hcs).2
            exact Nat.succ_le_succ (ih hq hprefix)

theorem firstBehind_of_splitFirst? (h : splitFirst? piece (before ++ piece) = some (before, [])) :
    FirstBehind before piece :=
  fun _ hfront => length_le_of_splitFirst? h hfront

/-- A piece that stands first behind a beginning is found there. -/
theorem splitFirst?_of_firstBehind (h : FirstBehind front piece) (after : List Char) :
    splitFirst? piece (front ++ (piece ++ after)) = some (front, after) := by
  obtain ⟨p, hp⟩ := Option.isSome_iff_exists.mp (isSome_splitFirst?_append front piece after)
  have htext := eq_append_of_splitFirst? hp
  have hle : p.1.length ≤ front.length :=
    length_le_of_splitFirst? hp ⟨after, List.append_assoc _ _ _⟩
  have hfound : p.1 ++ piece <+: front ++ (piece ++ after) :=
    ⟨p.2, by rw [htext, List.append_assoc]⟩
  have hprefix : p.1 ++ piece <+: front ++ piece :=
    List.prefix_of_prefix_length_le hfound ⟨after, List.append_assoc _ _ _⟩ (by simpa using hle)
  have hlength : p.1.length = front.length := Nat.le_antisymm hle (h p.1 hprefix)
  obtain ⟨hfront, hrest⟩ := List.append_inj htext hlength.symm
  rw [hp, hfront, List.append_cancel_left hrest]

/-- A piece behind a beginning has a first occurrence, which does not start later. -/
theorem exists_firstBehind (before piece : List Char) :
    ∃ front between rest, before = front ++ between ∧ FirstBehind front piece ∧
      between ++ piece = piece ++ rest := by
  obtain ⟨p, hp⟩ := Option.isSome_iff_exists.mp (isSome_splitFirst?_append before piece [])
  have htext := eq_append_of_splitFirst? hp
  rw [List.append_nil] at hp htext
  have hle : p.1.length ≤ before.length := length_le_of_splitFirst? hp List.prefix_rfl
  obtain ⟨between, hbetween⟩ : p.1 <+: before :=
    List.prefix_of_prefix_length_le ⟨piece ++ p.2, htext.symm⟩ (List.prefix_append _ _) hle
  refine ⟨p.1, between, p.2, hbetween.symm, ?_, ?_⟩
  · intro front hfront
    refine length_le_of_splitFirst? hp (hfront.trans ⟨p.2, ?_⟩)
    rw [htext, List.append_assoc]
  · rw [← hbetween, List.append_assoc] at htext
    exact List.append_cancel_left htext

end Text

/-! ## Removing a piece -/

namespace Extraction

open Text (FirstBehind StandsFirst)

variable {piece before front after : List Char}

theorem removeFirst_of_firstBehind (h : FirstBehind front piece) (after : List Char) :
    removeFirst (String.ofList piece) (String.ofList (front ++ (piece ++ after))) =
      String.ofList (front ++ after) := by
  rw [removeFirst, String.toList_ofList, String.toList_ofList, Text.splitFirst?_of_firstBehind h]

/-- Removing the first occurrence of a piece removes the piece at a place exactly if it stands first
there, up to what it can be exchanged with. -/
theorem removeFirst_eq_iff (before piece after : List Char) :
    removeFirst (String.ofList piece) (String.ofList (before ++ (piece ++ after))) =
        String.ofList (before ++ after) ↔
      StandsFirst before piece := by
  constructor
  · intro heq
    obtain ⟨front, between, rest, rfl, hfirst, hrest⟩ := Text.exists_firstBehind before piece
    rw [Text.append_exchange hrest, removeFirst_of_firstBehind hfirst, String.ofList_inj,
      List.append_assoc] at heq
    have hsame : rest = between := List.append_cancel_right (List.append_cancel_left heq)
    exact ⟨front, between, rfl, hfirst, by rw [hrest, hsame]⟩
  · rintro ⟨front, between, rfl, hfirst, hexchange⟩
    rw [Text.append_exchange hexchange.symm, removeFirst_of_firstBehind hfirst, List.append_assoc]

theorem removeFirst_empty (text : String) : removeFirst "" text = text := by
  have hfirst : FirstBehind [] [] := fun _ _ => Nat.zero_le _
  simpa using removeFirst_of_firstBehind hfirst text.toList

end Extraction

/-! ## Texts without spans -/

namespace Survey

variable {content : String} {first middle stop : Nat} {s : Span} {spans : List Span}

/-- The byte is that of a place between two characters. -/
def IsPlace (content : String) (byte : Nat) : Prop :=
  ∃ i, byte = Text.byteLength (content.toList.take i)

/-- The characters between two bytes. -/
def between (content : String) (first stop : Nat) : List Char :=
  (Text.sliceBytes? first stop content.toList).getD []

/-- The characters between two bytes that lie outside of spans. -/
def outside (content : String) (stop : Nat) : Nat → List Span → List Char
  | first, [] => between content first stop
  | first, s :: rest =>
    between content first s.startByte ++ outside content stop s.endByte rest

/-- The spans are stretches of the text that follow one another between two bytes. -/
def FollowOneAnother (content : String) (stop : Nat) : Nat → List Span → Prop
  | first, [] => first ≤ stop
  | first, s :: rest =>
    s.StretchOf content ∧ first ≤ s.startByte ∧ FollowOneAnother content stop s.endByte rest

theorem slice_eq_between (content : String) (s : Span) :
    slice content s = String.ofList (between content s.startByte s.endByte) := rfl

theorem isPlace_of_stretchOf (h : s.StretchOf content) :
    IsPlace content s.startByte ∧ IsPlace content s.endByte := by
  obtain ⟨⟨first, stop, rfl⟩, -⟩ := h
  exact ⟨⟨first, Syntax.Source.byte_markAt_ofString content first⟩,
    ⟨stop, Syntax.Source.byte_markAt_ofString content stop⟩⟩

theorem between_of_append {before part after : List Char}
    (h : content.toList = before ++ (part ++ after)) :
    between content (Text.byteLength before) (Text.byteLength (before ++ part)) = part := by
  rw [between, h, Text.sliceBytes?_append, Option.getD_some]

theorem between_append (hfirst : IsPlace content first) (hmiddle : IsPlace content middle)
    (hstop : IsPlace content stop) (hle : first ≤ middle) (hle' : middle ≤ stop) :
    between content first middle ++ between content middle stop = between content first stop := by
  obtain ⟨i, rfl⟩ := hfirst
  obtain ⟨j, rfl⟩ := hmiddle
  obtain ⟨k, rfl⟩ := hstop
  obtain ⟨part, hpart⟩ := Text.prefix_of_byteLength_le (List.take_prefix i content.toList)
    (List.take_prefix j content.toList) hle
  obtain ⟨part', hpart'⟩ := Text.prefix_of_byteLength_le (List.take_prefix j content.toList)
    (List.take_prefix k content.toList) hle'
  have hcontent : content.toList =
      content.toList.take i ++ (part ++ (part' ++ content.toList.drop k)) := by
    rw [← List.append_assoc, hpart, ← List.append_assoc, hpart', List.take_append_drop]
  have hmiddle : content.toList =
      content.toList.take i ++ part ++ (part' ++ content.toList.drop k) := by
    rw [List.append_assoc, ← hcontent]
  have hwhole : content.toList =
      content.toList.take i ++ (part ++ part' ++ content.toList.drop k) := by
    rw [List.append_assoc, ← hcontent]
  rw [← hpart', ← hpart, between_of_append hcontent, between_of_append hmiddle,
    List.append_assoc, between_of_append hwhole]

theorem FollowOneAnother.le (h : FollowOneAnother content stop first spans) : first ≤ stop := by
  induction spans generalizing first with
  | nil => exact h
  | cons s spans ih =>
      obtain ⟨hs, hle, hrest⟩ := h
      exact Nat.le_trans hle (Nat.le_trans hs.le (ih hrest))

/-- The text in front of a span, the span, and the text behind it. -/
theorem FollowOneAnother.between_eq (h : FollowOneAnother content stop first (s :: spans))
    (hfirst : IsPlace content first) (hstop : IsPlace content stop) :
    between content first stop = between content first s.startByte ++
      (between content s.startByte s.endByte ++ between content s.endByte stop) := by
  obtain ⟨hs, hle, hrest⟩ := h
  obtain ⟨hstart, hend⟩ := isPlace_of_stretchOf hs
  rw [between_append hstart hend hstop hs.le hrest.le,
    between_append hfirst hstart hstop hle (Nat.le_trans hs.le hrest.le)]

end Survey

/-! ## Definitions with documentation -/

namespace Survey.Definition

variable {content : String} {d : Definition}

/-- The spans of the documentation that is taken out of the code. -/
def docstrings (d : Definition) : List Span :=
  (d.ownParts.filter (·.label == "documentation")).map (·.span)

/-- The text of the definition without its documentation. -/
def undocumented (d : Definition) (content : String) : String :=
  String.ofList (outside content d.span.endByte d.span.startByte d.docstrings)

/-- The definition is a stretch of the text with its documentation in it, and it holds nothing
else. -/
structure HoldsDocstrings (content : String) (d : Definition) : Prop where
  owned : d.owned = none
  span : d.span.StretchOf content
  inside : FollowOneAnother content d.span.endByte d.span.startByte d.docstrings

end Survey.Definition

namespace Extraction

open Survey (between outside FollowOneAnother IsPlace)
open Text (FirstBehind StandsFirst)

variable {path content : String} {d : Definition} {first stop : Nat} {spans : List Span}
  {before : List Char} {e : Entity}

/-- Pieces are taken out of a text one after the other, each where it stands first. -/
inductive TakesOut : List (List Char) → List Char → List Char → Prop
  | nil (text : List Char) : TakesOut [] text text
  | cons {piece front after text : List Char} {pieces : List (List Char)}
      (hfirst : FirstBehind front piece) (hrest : TakesOut pieces (front ++ after) text) :
      TakesOut (piece :: pieces) (front ++ (piece ++ after)) text

/-- Each of the spans stands first in what is left of the text when those before it are out. -/
def AllStandFirst (content : String) : List Char → Nat → List Span → Prop
  | _, _, [] => True
  | before, first, s :: rest =>
    StandsFirst (before ++ between content first s.startByte)
        (between content s.startByte s.endByte) ∧
      AllStandFirst content (before ++ between content first s.startByte) s.endByte rest

/-- The text without the first occurrences of the texts of spans. -/
def removeAll (content : String) (spans : List Span) (text : String) : String :=
  spans.foldl (fun text s => removeFirst (slice content s) text) text

/-! ### The code of an entity -/

/-- Only documentation changes the code, where blocks are marked by indentation. -/
theorem addPart_code (path content : String) {e : Entity} (h : e.language.usesIndentation = true)
    (p : Part) :
    (addPart path content e p).language = e.language ∧
      (addPart path content e p).code =
        if p.label = "documentation" then removeFirst (slice content p.span) e.code
        else e.code := by
  simp only [addPart]
  split
  case h_1 hlabel => simp [hlabel]
  case h_2 hlabel => split <;> simp [hlabel]
  case h_3 hlabel =>
    rw [if_pos hlabel, if_pos h]
    split
    next hempty =>
      rw [String.isEmpty_iff.mp hempty, removeFirst_empty]
      exact ⟨rfl, rfl⟩
    next => exact ⟨rfl, rfl⟩
  case h_4 hlabel => split <;> simp [hlabel]
  case h_5 hlabel _ => exact ⟨rfl, (if_neg hlabel).symm⟩

theorem foldl_addPart_code (path content : String) (ps : List Part) {e : Entity}
    (h : e.language.usesIndentation = true) :
    (ps.foldl (addPart path content) e).code =
      removeAll content ((ps.filter (·.label == "documentation")).map (·.span)) e.code := by
  induction ps generalizing e with
  | nil => rfl
  | cons p ps ih =>
      obtain ⟨hlanguage, hcode⟩ := addPart_code path content h p
      rw [List.foldl_cons, ih (hlanguage ▸ h), hcode]
      by_cases hlabel : p.label = "documentation"
      · rw [if_pos hlabel, List.filter_cons_of_pos (by simpa using hlabel)]
        rfl
      · rw [if_neg hlabel, List.filter_cons_of_neg (by simpa using hlabel)]

theorem code_entityOf (path content : String) (h : d.owned = none) :
    (entityOf .python path content d).code =
      removeAll content d.docstrings (slice content d.span) := by
  rw [entityOf, h]
  exact foldl_addPart_code path content d.ownParts rfl

/-! ### Documentation that stands first -/

theorem removeAll_cons (content : String) (s : Span) (spans : List Span) (text : List Char) :
    removeAll content (s :: spans) (String.ofList text) =
      removeAll content spans (removeFirst
        (String.ofList (between content s.startByte s.endByte)) (String.ofList text)) :=
  rfl

theorem takesOut_removeAll (hspans : FollowOneAnother content stop first spans)
    (hfirst : IsPlace content first) (hstop : IsPlace content stop) (before : List Char) :
    TakesOut (spans.map fun s => between content s.startByte s.endByte)
      (before ++ between content first stop)
      (removeAll content spans (String.ofList (before ++ between content first stop))).toList := by
  induction spans generalizing first before with
  | nil =>
      rw [removeAll, List.foldl_nil, String.toList_ofList]
      exact .nil _
  | cons s spans ih =>
      -- the first occurrence ends before the text behind the span, which stays as it is
      obtain ⟨front, middle, rest, hbefore, hstands, hrest⟩ := Text.exists_firstBehind
        (before ++ between content first s.startByte) (between content s.startByte s.endByte)
      have htext : before ++ between content first stop =
          front ++ (between content s.startByte s.endByte ++
            (rest ++ between content s.endByte stop)) := by
        rw [hspans.between_eq hfirst hstop, ← List.append_assoc, hbefore,
          Text.append_exchange hrest]
      rw [htext, removeAll_cons, removeFirst_of_firstBehind hstands, List.map_cons]
      refine .cons hstands ?_
      rw [← List.append_assoc]
      exact ih hspans.2.2 (Survey.isPlace_of_stretchOf hspans.1).2 (front ++ rest)

theorem removeAll_of_allStandFirst (hspans : FollowOneAnother content stop first spans)
    (hfirst : IsPlace content first) (hstop : IsPlace content stop)
    (h : AllStandFirst content before first spans) :
    removeAll content spans (String.ofList (before ++ between content first stop)) =
      String.ofList (before ++ outside content stop first spans) := by
  induction spans generalizing first before with
  | nil => rfl
  | cons s spans ih =>
      obtain ⟨hstands, hrest⟩ := h
      rw [hspans.between_eq hfirst hstop, ← List.append_assoc, removeAll_cons,
        (removeFirst_eq_iff _ _ _).mpr hstands,
        ih hspans.2.2 (Survey.isPlace_of_stretchOf hspans.1).2 hrest, outside, List.append_assoc]

/-- The documentation is taken out of the code piece by piece, each where its text stands first in
what is left.  So the code is the text without the documentation when each piece stands first, and
for a lone piece only then. -/
theorem code_entityOf_docstrings (path : String) (h : d.HoldsDocstrings content) :
    TakesOut (d.docstrings.map fun s => between content s.startByte s.endByte)
        (slice content d.span).toList (entityOf .python path content d).code.toList ∧
      (AllStandFirst content [] d.span.startByte d.docstrings →
        (entityOf .python path content d).code = d.undocumented content) ∧
      ∀ s, d.docstrings = [s] →
        ((entityOf .python path content d).code = d.undocumented content ↔
          StandsFirst (between content d.span.startByte s.startByte)
            (between content s.startByte s.endByte)) := by
  obtain ⟨hstart, hend⟩ := Survey.isPlace_of_stretchOf h.span
  rw [code_entityOf path content h.owned, Survey.slice_eq_between, String.toList_ofList]
  refine ⟨takesOut_removeAll h.inside hstart hend [],
    removeAll_of_allStandFirst h.inside hstart hend, ?_⟩
  intro s hs
  have hinside := h.inside
  rw [Definition.undocumented, hs, outside, outside]
  rw [hs] at hinside
  rw [hinside.between_eq hstart hend]
  exact removeFirst_eq_iff _ _ _

/-! ### Documentation in a header -/

/-- A function with a string as default value, and with documentation. -/
def documented (value : Char) : String :=
  String.ofList ("def f(a=\"".toList ++ value :: "\"):\n    \"x\"\n".toList)

/-- The function as a definition. -/
def documentedFunction : Definition where
  kind := .function
  span := ⟨0, 21, ⟨0, 0⟩, ⟨1, 7⟩⟩
  comments := []
  parts := [⟨"name", ⟨4, 5, ⟨0, 4⟩, ⟨0, 5⟩⟩⟩, ⟨"body", ⟨18, 21, ⟨1, 4⟩, ⟨1, 7⟩⟩⟩,
    ⟨"documentation", ⟨18, 21, ⟨1, 4⟩, ⟨1, 7⟩⟩⟩]
  owned := none
  chained := []

theorem holdsDocstrings_documented :
    documentedFunction.HoldsDocstrings (documented 'x') ∧
      documentedFunction.HoldsDocstrings (documented 'y') := by
  have hdocstrings : documentedFunction.docstrings = [⟨18, 21, ⟨1, 4⟩, ⟨1, 7⟩⟩] := by decide
  constructor
  all_goals
    refine ⟨rfl, ⟨⟨0, 21, by decide +kernel⟩, by decide⟩, ?_⟩
    rw [hdocstrings]
    exact ⟨⟨⟨18, 21, by decide +kernel⟩, by decide⟩, by decide, Nat.le_refl 21⟩

/-- Documentation that stands nowhere else is taken out. -/
theorem code_entityOf_docstrings_lone :
    documentedFunction.HoldsDocstrings (documented 'y') ∧
      (entityOf .python "/a.py" (documented 'y') documentedFunction).code =
        documentedFunction.undocumented (documented 'y') := by
  have hholds := holdsDocstrings_documented.2
  have hfirst : FirstBehind (between (documented 'y') 0 18) (between (documented 'y') 18 21) :=
    Text.firstBehind_of_splitFirst? (by decide +kernel)
  refine ⟨hholds, (code_entityOf_docstrings "/a.py" hholds).2.1 ⟨?_, trivial⟩⟩
  exact ⟨_, [], (List.append_nil _).symm, hfirst, List.append_nil _⟩

theorem survey_documented :
    (Survey.of .python (documented 'x')).definitions = [documentedFunction] := by
  have hlanguage : (Syntax.parse .python (documented 'x')).language = .python := rfl
  -- the characters of the patterns are laid open first, which keeps the evaluation short
  simp only [Survey.of, Survey.definitionsOf, Survey.definitionAt, Survey.partsOf,
    Capture.labelled, Pattern.search, Pattern.Ranked.mergeSort_before,
    Survey.mergeSort_startsBefore, hlanguage, Catalogue.queries_eq_readChars?, Catalogue.groups,
    Catalogue.python, Catalogue.Python.definitions, Catalogue.Python.globals,
    Catalogue.Python.parts, List.map_cons, List.map_nil]
  repeat rw [String.toList_ofList]
  decide +kernel

/-- A default value with the text of the documentation is taken out in its place. -/
theorem not_forall_code_eq_undocumented :
    ¬ ∀ (path content : String), ∀ d ∈ (Survey.of .python content).definitions,
      d.HoldsDocstrings content →
        (entityOf .python path content d).code = d.undocumented content := by
  intro h
  have hcode := h "/a.py" (documented 'x') documentedFunction
    (by rw [survey_documented]; exact List.mem_singleton_self _) holdsDocstrings_documented.1
  exact absurd hcode (by decide +kernel)

end Extraction

end CodeAtlas
