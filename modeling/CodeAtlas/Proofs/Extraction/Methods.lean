import CodeAtlas.Proofs.Extraction.Nesting
import CodeAtlas.Proofs.Extraction.Outcomes
import CodeAtlas.Proofs.FilePaths
import CodeAtlas.Proofs.Survey.Order

/-!
# Methods

A function becomes a method when a class or an interface claims it, and in no other way.  Then it is
named after its owner, loses its other name and takes an id from its new name.  No class and no
interface changes its own name, so that the name of a method always starts with that of the parent
that is listed for it.
-/

namespace CodeAtlas

open Survey (Definition)

theorem EntityKind.ofLabel?_ne_method (label : String) :
    EntityKind.ofLabel? label ≠ some .method := by
  unfold ofLabel?
  split <;> decide

theorem Survey.kind_ne_method_of_mem {p : Syntax.Parsed} {content : String} {d : Definition}
    (h : d ∈ definitionsOf p content) : d.kind ≠ .method :=
  kind_ne_of_mem EntityKind.ofLabel?_ne_method h

namespace Entity

variable {e e' owner : Entity}

theorem Becomes.isClassLike_eq (h : e.Becomes e') : e'.kind.isClassLike = e.kind.isClassLike := by
  rcases h.named with ⟨hkind, -, -⟩ | ⟨hfun, hmethod, -⟩
  · rw [hkind]
  · rw [hfun, hmethod]
    rfl

theorem Becomes.name_of_isClassLike (h : e.Becomes e') (hclass : e.kind.isClassLike = true) :
    e'.name = e.name := by
  rcases h.named with ⟨-, hname, -⟩ | ⟨hfun, -⟩
  · exact hname
  · rw [hfun] at hclass
    exact absurd hclass (by decide)

/-- What the listed form of an entity keeps of a class. -/
theorem Finishes.classLike (h : e.Finishes e') :
    e'.kind.isClassLike = e.kind.isClassLike ∧
      (e.kind.isClassLike = true → e'.name = e.name) := by
  obtain ⟨id, n, hbecomes, -⟩ := h
  exact ⟨hbecomes.isClassLike_eq, hbecomes.name_of_isClassLike⟩

/-- An entity that is claimed is a function that becomes a method, or keeps its kind. -/
theorem Claimed.cases (h : e.Claimed owner e') :
    (owner.kind.isClassLike = true ∧ e.kind = .function ∧ e'.kind = .method ∧
        e'.name = owner.name ++ "." ++ e.name ∧ e'.id = e.filePath ++ "::" ++ e'.name ∧
        e'.otherName = "") ∨
      ¬ (owner.kind.isClassLike = true ∧ e.kind = .function) ∧ e'.kind = e.kind := by
  obtain ⟨m, ⟨_, _, _, _, rfl⟩, _, _, rfl⟩ := h
  rw [Forest.claimedBy]
  split
  next hpromoted =>
    simp only [spliceHeader, Bool.and_eq_true, beq_iff_eq] at hpromoted
    refine Or.inl ⟨hpromoted.1, hpromoted.2, rfl, ?_, ?_, rfl⟩
    · simp only [spliceHeader]
    · simp only [filePath, spliceHeader]
  next hkept =>
    simp only [spliceHeader, Bool.and_eq_true, beq_iff_eq] at hkept
    refine Or.inr ⟨hkept, ?_⟩
    simp only [spliceHeader]

end Entity

namespace Extraction

variable {language : Language} {path content : String} {s : Survey} {j : Nat}

/-- `e` is the method that its parent `p`, a class or an interface, made of a function of the file. -/
structure MethodOf (language : Language) (path content : String) (s : Survey) (p e : Entity) :
    Prop where
  kind : e.kind = .method
  classLike : p.kind.isClassLike = true
  parent : e.parent = some p.id
  otherName : e.otherName = ""
  id : ∃ n, e.id = Forest.candidateId (path ++ "::" ++ e.name) (e.span.start.row + 1) n
  member : ∃ d ∈ s.definitions, d.kind = .function ∧
    (entity language path content d).Finishes e ∧ e.name = p.name ++ "." ++ d.name content

/-- A listed definition is a method of its parent, or it is of the kind that was captured and no
function under a class. -/
theorem methodOf_or_kind_eq (hlanguage : Language.ofPath? path = some language)
    (hfree : colonFree path) (hs : ∀ d ∈ s.definitions, d.kind ≠ .file)
    (hnames : ∀ d ∈ s.definitions, d.kind ≠ .export → d.name content ≠ "")
    (hj : j ∈ (forest language path content s).descendants 0) :
    ∃ p ∈ entities language path content s,
      ((numberedForest language path content s).named j).parent = some p.id ∧
      (MethodOf language path content s p ((numberedForest language path content s).named j) ∨
        ((numberedForest language path content s).named j).kind = (definitionAt s j).kind ∧
          ¬ (p.kind.isClassLike = true ∧ (definitionAt s j).kind = .function)) := by
  obtain ⟨hexport, -⟩ := exists_outcome hs hj
  obtain ⟨hmem, -⟩ := entity?_forest_of_mem hj
  have hkind := (Unlinked.entity language path content (definitionAt s j)).kind_eq
  cases standing hs hj with
  | top e hparent hmarked hlisted =>
      refine ⟨_, named_mem List.mem_cons_self, hparent, Or.inr ⟨?_, ?_⟩⟩
      · obtain ⟨_, _, _, _, _, hnamed⟩ := hlisted
        obtain ⟨_, _, _, _, rfl⟩ := hmarked
        rw [hnamed]
        exact hkind
      · rw [(named_zero hs).2]
        exact fun h => absurd h.1 (by decide)
  | held before after c owner e horder hoffered hcmem hparent howner hclaimed hlisted hother _ =>
      refine ⟨_, named_mem (List.mem_cons_of_mem 0 hcmem), hparent, ?_⟩
      -- the owner is the listed parent, as far as classes go
      obtain ⟨hclass, hname⟩ :=
        (finishes_named (mem_of_mem_offered horder hoffered) hcmem).classLike
      obtain ⟨n, _, _, _, _, hnamed⟩ := hlisted
      rcases hclaimed.cases with ⟨howned, hfun, hmethod, hmember, hid, halias⟩ | ⟨hnot, hsame⟩
      · rw [howner.isClassLike_eq] at howned
        rw [howner.name_of_isClassLike howned] at hmember
        rw [hkind] at hfun
        obtain ⟨hdname, hdid⟩ := entity_name_id language path content (hnames _ hmem hexport)
        rw [filePath_of_idIn hlanguage hfree (Or.inr ⟨_, hdid⟩)] at hid
        refine Or.inl ⟨?_, hclass.trans howned, hparent, hother.trans halias, ⟨n, ?_⟩,
          definitionAt s j, hmem, hfun, ?_, ?_⟩
        · rw [hnamed]
          exact hmethod
        · rw [hnamed, ← hid]
        · exact finishes_named (mem_order_of_mem_descendants hs hj) hj
        · rw [hnamed, hname howned, ← hdname]
          exact hmember
      · refine Or.inr ⟨?_, ?_⟩
        · rw [hnamed]
          exact hsame.trans hkind
        · rw [hclass, ← howner.isClassLike_eq, ← hkind]
          exact hnot

/-- In the list of a file, no function has a class or an interface as its parent, and every method is
one that its parent made of a captured function. -/
theorem extract?_methods {path : String} {language : Language}
    (hlanguage : Language.ofPath? path = some language) (hfree : colonFree path)
    (content : String) :
    ∃ es, extract? path content = some es ∧
      (∀ e ∈ es, e.kind = .function →
        ∀ p ∈ es, e.parent = some p.id → p.kind.isClassLike = false) ∧
      ∀ e ∈ es, e.kind = .method →
        ∃ p ∈ es, MethodOf language path content (Survey.of language content) p e := by
  have hs : ∀ d ∈ (Survey.of language content).definitions, d.kind ≠ .file :=
    fun d hd => Survey.kind_ne_file_of_mem hd
  have hcases : ∀ e ∈ entities language path content (Survey.of language content),
      e.kind = .file ∨ ∃ d ∈ (Survey.of language content).definitions,
        ∃ p ∈ entities language path content (Survey.of language content), e.parent = some p.id ∧
          (MethodOf language path content (Survey.of language content) p e ∨
            e.kind = d.kind ∧ ¬ (p.kind.isClassLike = true ∧ d.kind = .function)) := by
    intro e he
    rw [entities_eq] at he
    obtain ⟨j, hj, rfl⟩ := List.mem_map.mp he
    rcases List.mem_cons.mp hj with rfl | hj
    · exact Or.inl (named_zero hs).2
    · refine Or.inr ⟨definitionAt _ j, (entity?_forest_of_mem hj).1, ?_⟩
      exact methodOf_or_kind_eq hlanguage hfree hs (fun d hd => Survey.name_ne_empty_of_mem hd) hj
  refine ⟨_, by rw [extract?, hlanguage, Option.map_some], ?_, ?_⟩
  · intro e he hfun p hp hparent
    rcases hcases e he with hfile | ⟨d, hd, q, hq, hparent', hmethodOf | ⟨hkind, hnot⟩⟩
    · rw [hfun] at hfile
      exact absurd hfile (by decide)
    · exact absurd (hfun.symm.trans hmethodOf.kind) (by decide)
    · obtain rfl : p = q :=
        eq_of_id_eq hs hp hq (Option.some.inj (hparent.symm.trans hparent'))
      rw [← Bool.not_eq_true]
      exact fun hclass => hnot ⟨hclass, hkind.symm.trans hfun⟩
  · intro e he hmethod
    rcases hcases e he with hfile | ⟨d, hd, p, hp, -, hmethodOf | ⟨hkind, -⟩⟩
    · rw [hmethod] at hfile
      exact absurd hfile (by decide)
    · exact ⟨p, hp, hmethodOf⟩
    · exact absurd (hkind.symm.trans hmethod) (Survey.kind_ne_method_of_mem hd)

/-! ### Methods with and without a body -/

/-- An interface whose method has no body, and a class whose method has one. -/
def bodies : String := "interface A\nextends B{m():{n():void}}\nclass C{f(){function g(){}}}"

/-- The survey of the two. -/
def bodiesSurvey : Survey where
  definitions :=
    [⟨.interface, ⟨0, 37, ⟨0, 0⟩, ⟨1, 25⟩⟩, [],
        [⟨"name", ⟨10, 11, ⟨0, 10⟩, ⟨0, 11⟩⟩⟩, ⟨"body", ⟨21, 37, ⟨1, 9⟩, ⟨1, 25⟩⟩⟩,
          ⟨"name", ⟨22, 23, ⟨1, 10⟩, ⟨1, 11⟩⟩⟩, ⟨"name", ⟨27, 28, ⟨1, 15⟩, ⟨1, 16⟩⟩⟩], none, []⟩,
      ⟨.function, ⟨22, 36, ⟨1, 10⟩, ⟨1, 24⟩⟩, [],
        [⟨"name", ⟨22, 23, ⟨1, 10⟩, ⟨1, 11⟩⟩⟩, ⟨"name", ⟨27, 28, ⟨1, 15⟩, ⟨1, 16⟩⟩⟩], none, []⟩,
      ⟨.function, ⟨27, 35, ⟨1, 15⟩, ⟨1, 23⟩⟩, [], [⟨"name", ⟨27, 28, ⟨1, 15⟩, ⟨1, 16⟩⟩⟩], none, []⟩,
      ⟨.cls, ⟨38, 66, ⟨2, 0⟩, ⟨2, 28⟩⟩, [],
        [⟨"name", ⟨44, 45, ⟨2, 6⟩, ⟨2, 7⟩⟩⟩, ⟨"body", ⟨45, 66, ⟨2, 7⟩, ⟨2, 28⟩⟩⟩,
          ⟨"name", ⟨46, 47, ⟨2, 8⟩, ⟨2, 9⟩⟩⟩, ⟨"body", ⟨49, 65, ⟨2, 11⟩, ⟨2, 27⟩⟩⟩,
          ⟨"name", ⟨59, 60, ⟨2, 21⟩, ⟨2, 22⟩⟩⟩, ⟨"body", ⟨62, 64, ⟨2, 24⟩, ⟨2, 26⟩⟩⟩], none, []⟩,
      ⟨.function, ⟨46, 65, ⟨2, 8⟩, ⟨2, 27⟩⟩, [],
        [⟨"name", ⟨46, 47, ⟨2, 8⟩, ⟨2, 9⟩⟩⟩, ⟨"body", ⟨49, 65, ⟨2, 11⟩, ⟨2, 27⟩⟩⟩,
          ⟨"name", ⟨59, 60, ⟨2, 21⟩, ⟨2, 22⟩⟩⟩, ⟨"body", ⟨62, 64, ⟨2, 24⟩, ⟨2, 26⟩⟩⟩], none, []⟩,
      ⟨.function, ⟨50, 64, ⟨2, 12⟩, ⟨2, 26⟩⟩, [],
        [⟨"name", ⟨59, 60, ⟨2, 21⟩, ⟨2, 22⟩⟩⟩, ⟨"body", ⟨62, 64, ⟨2, 24⟩, ⟨2, 26⟩⟩⟩], none, []⟩]
  exports := []
  imports := []

theorem survey_bodies : Survey.of .typescript bodies = bodiesSurvey := by
  have hlanguage : (Syntax.parse .typescript bodies).language = .typescript := rfl
  -- every sorted list is gone through by insertion, and every query is read from its characters
  simp only [Survey.of, Survey.definitionsOf, Survey.definitionAt, Survey.partsOf, Survey.exportsOf,
    Import.statements, Capture.all, Capture.labelled, Pattern.search,
    Pattern.Ranked.mergeSort_before, Survey.mergeSort_startsBefore, hlanguage,
    Catalogue.queries_eq_readChars?, Catalogue.groups, Catalogue.script, Catalogue.typedScript,
    Catalogue.Script.imports, Catalogue.Script.definitions, Catalogue.Script.globals,
    Catalogue.Script.parts, Catalogue.Script.exports, Catalogue.TypedScript.definitions,
    Catalogue.TypedScript.parts, List.map_cons, List.map_nil, List.cons_append, List.nil_append]
  repeat rw [String.toList_ofList]
  decide +kernel

theorem extract?_bodies : extract? "/a.ts" bodies =
    some (entities .typescript "/a.ts" bodies bodiesSurvey) := by
  have hlanguage : Language.ofPath? "/a.ts" = some .typescript := by decide +kernel
  rw [extract?, hlanguage, Option.map_some, survey_bodies]

/-- The definitions are placed in the order of the text here. -/
theorem placement_bodies :
    placement ((bodiesSurvey.definitions.map (entity .typescript "/a.ts" bodies)).zipIdx 1) =
      (bodiesSurvey.definitions.map (entity .typescript "/a.ts" bodies)).zipIdx 1 := by
  rw [placement_eq_insertionSort]
  decide +kernel

/-- The function in the class is listed as a method. -/
theorem exists_method_bodies :
    ∃ e ∈ entities .typescript "/a.ts" bodies bodiesSurvey, e.kind = .method ∧ e.name = "C.f" := by
  simp only [entities, forest, Forest.finish, Forest.idOrder_eq_insertionSort, placement_bodies]
  simp only [bodiesSurvey, List.map_cons, List.map_nil, List.zipIdx_cons, List.zipIdx_nil, place,
    candidates, Sorting.mergeSort_key]
  decide +kernel

/-- The method of the class is made of the function that was captured there. -/
theorem extract?_methods_bodies :
    Language.ofPath? "/a.ts" = some .typescript ∧ colonFree "/a.ts" ∧
      ∃ es, extract? "/a.ts" bodies = some es ∧ ∃ e ∈ es, e.name = "C.f" ∧ ∃ p ∈ es,
        MethodOf .typescript "/a.ts" bodies (Survey.of .typescript bodies) p e := by
  have hlanguage : Language.ofPath? "/a.ts" = some .typescript := by decide +kernel
  have hfree : colonFree "/a.ts" := by decide +kernel
  obtain ⟨es, hes, -, hmethods⟩ := extract?_methods hlanguage hfree bodies
  obtain rfl := Option.some.inj (hes.symm.trans extract?_bodies)
  obtain ⟨e, he, hmethod, hname⟩ := exists_method_bodies
  exact ⟨hlanguage, hfree, _, hes, e, he, hname, hmethods e he hmethod⟩

end Extraction
end CodeAtlas
