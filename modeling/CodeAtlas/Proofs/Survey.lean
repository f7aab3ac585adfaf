import CodeAtlas.Survey
import Mathlib.Data.List.Basic

/-!
# Collected definitions

What holds of every definition that is collected from a text: its kind comes from the label of a
pattern, so that it is never a file, and unless it is an export carrier it has a name.
-/

namespace CodeAtlas

theorem EntityKind.ofLabel?_ne_file (label : String) :
    EntityKind.ofLabel? label ≠ some .file := by
  unfold ofLabel?
  split <;> decide

namespace Survey

variable {p : Syntax.Parsed} {content : String} {d : Definition}

theorem mem_of_mem_distinctBy {α β : Type} [BEq β] {key : α → β} {x : α} {xs : List α}
    {seen : List β} (h : x ∈ distinctBy key xs seen) : x ∈ xs := by
  induction xs generalizing seen with
  | nil => exact absurd h (by simp [distinctBy])
  | cons y ys ih =>
      rw [distinctBy] at h
      split at h
      · exact List.mem_cons_of_mem y (ih h)
      · rcases List.mem_cons.mp h with rfl | h
        · exact List.mem_cons_self
        · exact List.mem_cons_of_mem y (ih h)

theorem kind_withChained (p : Syntax.Parsed) (content : String) (d : Definition) :
    (withChained p content d).kind = d.kind := by
  rw [withChained]
  split <;> rfl

theorem name_withChained (p : Syntax.Parsed) (content : String) (d : Definition) :
    (withChained p content d).name content = d.name content := by
  rw [withChained]
  split <;> rfl

/-- Every definition stands at a node that a pattern for definitions or for globals captures. -/
theorem exists_site_of_mem (h : d ∈ definitionsOf p content) :
    ∃ l : Pattern.Labelled, (l ∈ (Capture.labelled p .definitions p.root).flatten ∨
        l ∈ (Capture.labelled p .globals p.root).flatten) ∧
      EntityKind.ofLabel? l.label = some d.kind ∧
      ∃ chained, d = { definitionAt p d.kind l.site with chained := chained } := by
  simp only [definitionsOf, List.mem_map, List.mem_filter, List.mem_mergeSort] at h
  obtain ⟨-, ⟨⟨⟨kind, site⟩, hfound, rfl⟩, -⟩, rfl⟩ := h
  have hlabel := mem_of_mem_distinctBy hfound
  simp only [List.mem_filterMap, Option.map_eq_some_iff, Prod.mk.injEq, List.mem_append] at hlabel
  obtain ⟨l, hl, k, hk, rfl, rfl⟩ := hlabel
  refine ⟨l, hl, (kind_withChained p content _).symm ▸ hk, ?_⟩
  rw [kind_withChained, withChained]
  split
  · exact ⟨_, rfl⟩
  · exact ⟨[], rfl⟩

theorem exists_label_of_mem_partsOf {s : Syntax.Site} {part : Part} (h : part ∈ partsOf p s) :
    ∃ l ∈ (Capture.labelled p .parts s).flatten,
      part.label = l.label ∧ part.span = p.span l.site := by
  simp only [partsOf, List.mem_map, List.mem_mergeSort] at h
  obtain ⟨l, hl, rfl⟩ := h
  exact ⟨l, mem_of_mem_distinctBy hl, rfl, rfl⟩

theorem Definition.ownFrom_subset (named : Bool) (parts : List Part) :
    Definition.ownFrom named parts ⊆ parts := by
  induction parts generalizing named with
  | nil => exact List.nil_subset _
  | cons part parts ih =>
      rw [Definition.ownFrom]
      split
      · split
        · exact List.nil_subset _
        · exact List.cons_subset_cons part (ih true)
      · exact List.cons_subset_cons part (ih named)

/-- No definition has a kind that no label stands for. -/
theorem kind_ne_of_mem {kind : EntityKind} (hkind : ∀ label, EntityKind.ofLabel? label ≠ some kind)
    (h : d ∈ definitionsOf p content) : d.kind ≠ kind := by
  obtain ⟨l, -, hlabel, -⟩ := exists_site_of_mem h
  rintro rfl
  exact hkind l.label hlabel

theorem kind_ne_file_of_mem (h : d ∈ definitionsOf p content) : d.kind ≠ .file :=
  kind_ne_of_mem EntityKind.ofLabel?_ne_file h

theorem name_ne_empty_of_mem (h : d ∈ definitionsOf p content) (hkind : d.kind ≠ .export) :
    d.name content ≠ "" := by
  simp only [definitionsOf, List.mem_map, List.mem_filter] at h
  obtain ⟨d, ⟨-, hnamed⟩, rfl⟩ := h
  rw [kind_withChained] at hkind
  rw [name_withChained]
  simpa [String.isEmpty_iff, hkind] using hnamed

end Survey
end CodeAtlas
