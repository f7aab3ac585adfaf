import CodeAtlas.Proofs.Entity.Location
import CodeAtlas.Proofs.Extraction.Rows

/-!
# Bodies in their places

The body of a definition is looked for in its code at the byte where its place in the file puts it,
counted from the end, since headers are put in front.  It is found there when it lies in the
definition and nothing was cut out of the code.
-/

namespace CodeAtlas

open Survey (Definition Part slice)

/-! ## The own code -/

namespace Survey.Definition

/-- The spans of what can be the body of the definition. -/
def bodySpans (d : Definition) : List Span :=
  (d.ownParts.filter (·.label == "body")).map (·.span) ++ d.owned.toList

/-- The body lies in the definition, and no documentation is cut out of the code. -/
structure HoldsBody (language : Language) (d : Definition) : Prop where
  uncut : ∀ p ∈ d.ownParts, p.label = "documentation" → language.usesIndentation = false
  inside : ∀ s ∈ d.bodySpans, d.ownSpan.byteContains s = true

theorem mem_bodySpans {d : Definition} {p : Part} (hp : p ∈ d.ownParts) (hlabel : p.label = "body") :
    p.span ∈ d.bodySpans := by
  refine List.mem_append_left _ (List.mem_map_of_mem (List.mem_filter.mpr ⟨hp, ?_⟩))
  rw [hlabel]
  rfl

end Survey.Definition

namespace Entity

/-- The visible body of the entity stands in its own code where its place in the file puts it. -/
def ShowsBody (e : Entity) (own : String) : Prop :=
  ∃ target before after, e.visibleBody? = some target ∧
    own.toList = before ++ (target.toList ++ after) ∧
    e.expectedOffset? e target (Text.size own) = some (Text.byteLength before)

end Entity

namespace Extraction

variable {language : Language} {path content : String} {d : Definition} {spans : List Span}
  {e : Entity}

/-- The code of the entity is its source, and its body is the text of one of the spans. -/
structure Uncut (language : Language) (content : String) (spans : List Span) (e : Entity) : Prop where
  language : e.language = language
  code : e.code = e.source
  body : e.body = "" ∨ ∃ s ∈ spans, e.body = slice content s ∧ e.bodyStart = s.startByte

namespace Uncut

theorem addPart (h : Uncut language content spans e) {p : Part}
    (hdocumentation : p.label = "documentation" → language.usesIndentation = false)
    (hbody : p.label = "body" → p.span ∈ spans) :
    Uncut language content spans (addPart path content e p) := by
  obtain ⟨hlanguage, hcode, hspan⟩ := h
  simp only [Extraction.addPart]
  split
  case h_1 => exact ⟨hlanguage, hcode, hspan⟩
  case h_2 => split <;> exact ⟨hlanguage, hcode, hspan⟩
  case h_3 hlabel =>
    have huncut : e.language.usesIndentation ≠ true := by simp [hlanguage, hdocumentation hlabel]
    rw [if_neg huncut]
    split <;> exact ⟨hlanguage, hcode, hspan⟩
  case h_4 hlabel =>
    split
    · exact ⟨hlanguage, hcode, Or.inr ⟨p.span, hbody hlabel, rfl, rfl⟩⟩
    · exact ⟨hlanguage, hcode, hspan⟩
  case h_5 => exact ⟨hlanguage, hcode, hspan⟩

theorem addOwned (h : Uncut language content spans e) {owned : Option Span}
    (howned : ∀ s ∈ owned, s ∈ spans) :
    Uncut language content spans (addOwned content e owned) := by
  cases owned with
  | none => exact h
  | some held => exact ⟨h.language, rfl, Or.inr ⟨held, howned held rfl, rfl, rfl⟩⟩

theorem addStatement (h : Uncut language content spans e) (s : Span) :
    Uncut language content spans (addStatement content e s) := by
  refine ⟨h.language, ?_, h.body⟩
  simp only [Extraction.addStatement, h.code]

theorem entity (hd : d.HoldsBody language) :
    Uncut language content d.bodySpans (entity language path content d) := by
  refine List.foldlRecOn d.chained _ ?_ fun _ he s _ => he.addStatement s
  refine addOwned ?_ fun s hs => List.mem_append_right _ (Option.mem_toList.mpr hs)
  refine List.foldlRecOn d.ownParts _ ?_ ?_
  · exact ⟨rfl, rfl, Or.inl rfl⟩
  · intro e he p hp
    exact he.addPart (hd.uncut p hp) (Definition.mem_bodySpans hp)

end Uncut

theorem exists_source_entity (language : Language) (path content : String) (d : Definition) :
    ∃ rest, (entity language path content d).source = slice content d.ownSpan ++ rest := by
  rw [entity, ← (entityOf_source_span language path content d).1]
  refine List.foldlRecOn (motive := fun e : Entity => ∃ rest,
    e.source = (entityOf language path content d).source ++ rest) d.chained _ ⟨"", by simp⟩ ?_
  rintro e ⟨rest, hrest⟩ s _
  refine ⟨rest ++ ("\n" ++ slice content s), ?_⟩
  rw [addStatement, hrest, String.append_assoc]

theorem exists_slice_eq {s : Span} (hs : s.StretchOf content) :
    ∃ part, Text.sliceBytes? s.startByte s.endByte content.toList = some part := by
  obtain ⟨⟨first, stop, rfl⟩, hle⟩ := hs
  rw [Syntax.Source.span, Syntax.Source.byte_markAt_ofString,
    Syntax.Source.byte_markAt_ofString] at hle ⊢
  obtain ⟨part, hpart⟩ := Text.prefix_of_byteLength_le (List.take_prefix first content.toList)
    (List.take_prefix stop content.toList) hle
  refine ⟨part, ?_⟩
  have hslice := Text.sliceBytes?_append (content.toList.take first) part (content.toList.drop stop)
  rwa [hpart, ← List.append_assoc, hpart, List.take_append_drop] at hslice

/-- The visible body of a definition that holds it and is not cut stands in its place. -/
theorem showsBody_of_holdsBody {m : Entity} (hd : d.HoldsBody language)
    (hown : d.ownSpan.StretchOf content) (hm : (entity language path content d).Finishes m)
    (hvisible : m.visibleBody?.isSome) : m.ShowsBody (entity language path content d).code := by
  obtain ⟨target, htarget⟩ := Option.isSome_iff_exists.mp hvisible
  obtain ⟨id, n, hbecomes, -⟩ := hm
  have hwhole : Uncut language content d.bodySpans (entity language path content d) := .entity hd
  have hspan : m.span = d.ownSpan :=
    hbecomes.span.trans (split_source_entity language path content d).2
  obtain ⟨hne, skipped, hskipped⟩ := Entity.exists_body_eq htarget
  obtain ⟨s, hs, hbody, hstart⟩ := hwhole.body.resolve_left fun h => hne (hbecomes.body.trans h)
  obtain ⟨part, hpart⟩ := exists_slice_eq hown
  -- a body that is not empty was cut out of the text
  obtain ⟨inner, hinner⟩ : ∃ inner,
      Text.sliceBytes? s.startByte s.endByte content.toList = some inner := by
    rw [← Option.isSome_iff_exists, ← Option.ne_none_iff_isSome]
    intro hnone
    refine hne (hbecomes.body.trans (hbody.trans ?_))
    rw [slice, hnone]
    rfl
  have hcontains := hd.inside s hs
  simp only [Span.byteContains, Bool.and_eq_true, decide_eq_true_eq] at hcontains
  obtain ⟨before, after, hbefore, hlength⟩ :=
    Text.exists_of_sliceBytes?_within hpart hinner hcontains.1 hcontains.2
  obtain ⟨rest, hrest⟩ := exists_source_entity language path content d
  have hinner' : inner = skipped ++ target.toList := by
    rw [← hskipped, hbecomes.body, hbody, slice, hinner, Option.getD_some, String.toList_ofList]
  refine ⟨target, before ++ skipped, after ++ rest.toList, htarget, ?_, ?_⟩
  · rw [hwhole.code, hrest, String.toList_append, slice, hpart, Option.getD_some,
      String.toList_ofList, hbefore, hinner']
    simp only [List.append_assoc]
  · have hmstart : m.bodyStart = s.startByte := hbecomes.bodyStart.trans hstart
    have hsize : Text.size m.source = Text.size (entity language path content d).code := by
      rw [hwhole.code]
      exact congrArg Text.size hbecomes.source
    have hbodySize : Text.size m.body = Text.byteLength skipped + Text.size target := by
      rw [Text.size, hskipped, Text.byteLength_append, Text.size]
    rw [Entity.expectedOffset?, hmstart, hspan, if_neg (by omega), hsize, hbodySize,
      Text.byteLength_append, hlength]
    simp only [Nat.add_sub_cancel, Nat.le_add_left, if_true]

end Extraction
end CodeAtlas
