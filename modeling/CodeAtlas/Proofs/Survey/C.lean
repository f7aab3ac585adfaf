import CodeAtlas.Proofs.Import.Wildcards
import CodeAtlas.Proofs.Pattern.Spots
import CodeAtlas.Proofs.Survey
import CodeAtlas.Proofs.Syntax.C
import CodeAtlas.Proofs.Text.Rows

/-!
# Surveys of C texts

What the patterns for C find: no classes, no namespaces and no export statements, definitions whose
names are single words, and inclusions that list no names.  Kinds and roles are read off the
catalogue; that names are words comes from the grammar.
-/

namespace CodeAtlas

open Syntax (isName)
open Pattern (Labelled Spot)

/-! ## The catalogue -/

theorem Catalogue.plain_spots_c :
    ∀ q ∈ (Catalogue.queries .c .definitions).flatten ++ (Catalogue.queries .c .globals).flatten,
      ∀ spot ∈ q.pattern.spots "", spot.kind ≠ "_" ∧ spot.kind ≠ "namespace_definition" ∧
        (EntityKind.ofLabel? spot.label).all (fun k => k != .export && !k.isClassLike) = true := by
  rw [Catalogue.queries_eq_readChars?, Catalogue.queries_eq_readChars?]
  simp only [Catalogue.groups, Catalogue.c, Catalogue.C.definitions, Catalogue.C.globals,
    List.map_cons, List.map_nil]
  repeat rw [String.toList_ofList]
  decide +kernel

theorem Catalogue.name_spots_c :
    ∀ q ∈ (Catalogue.queries .c .parts).flatten, ∀ spot ∈ q.pattern.spots "",
      spot.label ≠ "alias" ∧ (spot.label = "name" → isName spot.kind spot.field = true) := by
  rw [Catalogue.queries_eq_readChars?]
  simp only [Catalogue.groups, Catalogue.c, Catalogue.C.parts, List.map_cons, List.map_nil]
  repeat rw [String.toList_ofList]
  decide +kernel

theorem Catalogue.labels_imports_c :
    ∀ q ∈ (Catalogue.queries .c .imports).flatten, "name" ∉ q.pattern.labels := by
  rw [Catalogue.queries_eq_readChars?]
  simp only [Catalogue.groups, Catalogue.c, Catalogue.C.imports, List.map_cons, List.map_nil]
  repeat rw [String.toList_ofList]
  decide +kernel

/-- A spot that only names can fill is filled by a name. -/
theorem Pattern.Spot.Describes.isName {spot : Spot} {l : Labelled} (h : spot.Describes l)
    (hspot : Syntax.isName spot.kind spot.field = true) :
    Syntax.isName l.site.tree.kind l.site.tree.field = true := by
  obtain ⟨-, hkind, hfield⟩ := h
  simp only [Syntax.isName, Bool.or_eq_true, beq_iff_eq] at hspot ⊢
  rcases hkind with hkind | hkind <;> rcases hfield with hfield | hfield <;>
    simp_all

namespace Survey

variable {content : String} {d : Definition}

/-! ## Definitions -/

/-- A definition that neither claims nor exports others, and whose name has no dot in it. -/
structure Definition.Plain (content : String) (d : Definition) : Prop where
  kind_ne_export : d.kind ≠ .export
  not_classLike : d.kind.isClassLike = false
  owned : d.owned = none
  label_ne_alias : ∀ part ∈ d.ownParts, part.label ≠ "alias"
  dot_not_mem : '.' ∉ (d.name content).toList

/-- The text of a name in C has no dot in it. -/
theorem dot_not_mem_slice {l : Labelled}
    (hcontains : (Syntax.parse .c content).tree.Contains l.site.tree)
    (hname : isName l.site.tree.kind l.site.tree.field = true) :
    '.' ∉ (slice content ((Syntax.parse .c content).span l.site)).toList := by
  intro hdot
  obtain ⟨i, hfirst, hstop, hget⟩ := exists_get?_of_mem_slice hdot
  obtain ⟨c, hc, hword⟩ :=
    (hcontains _ (Syntax.namesWords_parse_c content)).head hname i hfirst (by omega)
  rw [show (Syntax.parse .c content).source = Syntax.Source.ofString content from rfl, hget] at hc
  obtain rfl := Option.some.inj hc
  have hnot : Syntax.C.lexis.continuesWord '.' = false := by decide
  exact absurd hword (by rw [hnot]; simp)

theorem plain_of_mem (h : d ∈ (Survey.of .c content).definitions) : d.Plain content := by
  obtain ⟨l, hl, hlabel, chained, hd⟩ := exists_site_of_mem h
  have hspot : (Syntax.parse .c content).tree.Contains l.site.tree ∧
      ∃ q ∈ (Catalogue.queries .c .definitions).flatten ++
          (Catalogue.queries .c .globals).flatten,
        ∃ spot ∈ q.pattern.spots "", spot.Describes l := by
    rcases hl with hl | hl
    · obtain ⟨hcontains, q, hq, hspot⟩ := Capture.exists_spot_of_mem_labelled hl
      exact ⟨hcontains, q, List.mem_append_left _ hq, hspot⟩
    · obtain ⟨hcontains, q, hq, hspot⟩ := Capture.exists_spot_of_mem_labelled hl
      exact ⟨hcontains, q, List.mem_append_right _ hq, hspot⟩
  obtain ⟨hcontains, q, hq, spot, hspot, hspotLabel, hspotKind, -⟩ := hspot
  obtain ⟨hany, hnamespace, hplain⟩ := Catalogue.plain_spots_c q hq spot hspot
  rw [hspotLabel, hlabel, Option.all_some, Bool.and_eq_true, bne_iff_ne, Bool.not_eq_true']
    at hplain
  have hsiteKind : l.site.tree.kind ≠ "namespace_definition" :=
    fun heq => hnamespace ((hspotKind.resolve_left hany).trans heq)
  have hparts : ∀ part ∈ d.ownParts, ∃ l' ∈ (Capture.labelled (Syntax.parse .c content) .parts
      l.site).flatten, part.label = l'.label ∧
        part.span = (Syntax.parse .c content).span l'.site := by
    intro part hpart
    have hmem := Definition.ownFrom_subset false d.parts hpart
    rw [hd] at hmem
    change part ∈ (if d.kind == .export then [] else partsOf _ l.site) at hmem
    rw [if_neg (by simpa using hplain.1)] at hmem
    exact exists_label_of_mem_partsOf hmem
  refine ⟨hplain.1, hplain.2, ?_, ?_, ?_⟩
  · rw [hd]
    change (if d.kind == .export then none else ownedBy _ l.site) = none
    rw [if_neg (by simpa using hplain.1), ownedBy, if_pos (by simp [hsiteKind])]
  · intro part hpart
    obtain ⟨l', hl', hlabel', -⟩ := hparts part hpart
    obtain ⟨-, q', hq', spot', hspot', hdescribes⟩ := Capture.exists_spot_of_mem_labelled hl'
    rw [hlabel', ← hdescribes.1]
    exact (Catalogue.name_spots_c q' hq' spot' hspot').1
  · rw [Definition.name]
    cases hfind : d.ownParts.find? (·.label == "name") with
    | none => simp
    | some part =>
        obtain ⟨l', hl', hlabel', hspan⟩ := hparts part (List.mem_of_find?_eq_some hfind)
        obtain ⟨hcontains', q', hq', spot', hspot', hdescribes⟩ :=
          Capture.exists_spot_of_mem_labelled hl'
        have hname : spot'.label = "name" := by
          rw [hdescribes.1, ← hlabel']
          simpa using List.find?_some hfind
        rw [Option.map_some, Option.getD_some, hspan]
        refine dot_not_mem_slice (fun P hall => hcontains' P (hcontains P hall)) ?_
        exact hdescribes.isName ((Catalogue.name_spots_c q' hq' spot' hspot').2 hname)

/-! ## Exports and inclusions -/

/-- Where there are no patterns for export clauses, nothing is exported by one. -/
theorem exports_eq_nil {language : Language} (h : Catalogue.queries language .exports = [])
    (content : String) : (Survey.of language content).exports = [] := by
  have hall : Capture.all (Syntax.parse language content) .exports = [] := by
    rw [Capture.all, Capture.labelled]
    change List.map _ (List.flatMap _ (Catalogue.queries language .exports)) = []
    rw [h]
    rfl
  change ((Capture.all (Syntax.parse language content) .exports).map exportOf).filter _ = []
  rw [hall]
  rfl

end Survey

/-- A match without a name gives none to its part. -/
theorem Import.name_eq_none_of_partOf? {language : Language} (hphp : language ≠ .php)
    {captures : List Capture} (hnames : ∀ c ∈ captures, c.label ≠ "name") {statement : Capture}
    {part : Import.Part} (h : Import.partOf? language captures = some (statement, part)) :
    part.name = none := by
  simp only [partOf?, Option.bind_eq_bind, Option.bind_eq_some_iff, Option.some.injEq,
    Prod.mk.injEq] at h
  obtain ⟨st, -, module, -, -, hpart⟩ := h
  rw [beq_eq_false_iff_ne.mpr hphp] at hpart
  rw [← hpart]
  exact name_foldl_read hnames _

/-- Where no pattern for imports captures names, the statements list none. -/
theorem Import.names_statements_eq_nil {language : Language} (hphp : language ≠ .php)
    (hlabels : ∀ q ∈ (Catalogue.queries language .imports).flatten, "name" ∉ q.pattern.labels)
    (content : String) : ∀ s ∈ (Survey.of language content).imports, s.names = [] := by
  intro s hs
  obtain ⟨d, hd, hs⟩ := List.mem_flatMap.mp hs
  have hparts : ∀ p ∈ d.parts, p.name = none := by
    refine forall_parts_drafts (fun captures hcaptures statement part hpart => ?_) d hd
    obtain ⟨q, hq, hmem⟩ := Capture.exists_query_of_mem_all hcaptures
    exact name_eq_none_of_partOf? hphp (fun c hc heq => hlabels q hq (heq ▸ hmem c hc)) hpart
  have hcounted : ∀ p ∈ d.counted, p.name = none := by
    intro p hp
    rw [Draft.counted, List.mem_mergeSort] at hp
    split at hp
    · exact hparts p (List.mem_of_mem_filter hp)
    · exact hparts p hp
  refine forall_statements (P := fun s => s.names = []) (fun _ => rfl) ?_ ?_ s hs
  · intro p hp s hs
    rw [names_add_of_none s (hcounted p hp), hs]
  · intro s hs
    rw [(named_names_wildcard s).1, hs]

end CodeAtlas
