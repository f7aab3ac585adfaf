import CodeAtlas.Proofs.Import.Stems
import CodeAtlas.Proofs.Index.Scope
import CodeAtlas.Proofs.Index.Stages

/-!
# Own names come first

A name that a file defines takes the place of whatever was known under it, and an imported name is
added only where there is none.  So in whatever order names are added, the last definition of a name
counts, and the first import where the name is not defined.

The names of a file start with its own entities.  Every entity of an index has a name, so that the
last of the own entities that goes by a name is what this name stands for, whatever is imported.
-/

namespace CodeAtlas

/-! ## Names added one after the other -/

namespace Names

/-- One addition to the names of a file. -/
inductive Step where
  | define (name id : String)
  | importAs (name id : String)

namespace Step

/-- The names with one more. -/
def apply (n : Names) : Step → Names
  | define name id => n.define name id
  | importAs name id => n.importAs name id

/-- The id that the step defines a key as. -/
def defined? (key : String) : Step → Option String
  | define name id => if name = key then some id else none
  | importAs _ _ => none

/-- The id that the step imports a key as. -/
def imported? (key : String) : Step → Option String
  | define _ _ => none
  | importAs name id => if name = key then some id else none

end Step

/-- The names after some additions. -/
def after (steps : List Step) : Names := steps.foldl Step.apply empty

theorem after_concat (steps : List Step) (step : Step) :
    after (steps ++ [step]) = step.apply (after steps) := by
  rw [after, List.foldl_append]
  rfl

/-- No step gives the empty text a meaning. -/
theorem find?_apply_empty (n : Names) (step : Step) :
    (step.apply n).find? "" = n.find? "" := by
  cases step with
  | define name id =>
      rw [Step.apply, define]
      split
      next => rfl
      next hname => exact Table.find?_insert_of_ne _ _ fun hempty => hname (hempty ▸ rfl)
  | importAs name id =>
      rw [Step.apply, importAs]
      split
      next => rfl
      next hname =>
        rw [find?, Table.insertNew]
        split
        next => rfl
        next => exact Table.find?_insert_of_ne _ _ fun hempty => hname (hempty ▸ rfl)

theorem find?_apply {key : String} (hkey : key ≠ "") (n : Names) (step : Step) :
    (step.apply n).find? key = ((step.defined? key).or (n.find? key)).or (step.imported? key) := by
  cases step with
  | define name id =>
      rw [Step.apply, find?_define hkey, Step.defined?, Step.imported?, Option.or_none]
      by_cases hname : name = key
      · simp [hname]
      · simp [hname, Ne.symm hname]
  | importAs name id =>
      rw [Step.apply, find?_importAs hkey, Step.defined?, Step.imported?, Option.none_or]
      by_cases hname : name = key
      · simp [hname]
      · simp [hname, Ne.symm hname]

/-- The last definition of a name counts, and else the first import of it. -/
theorem find?_after (steps : List Step) (key : String) :
    (after steps).find? key =
      if key = "" then none
      else (steps.filterMap (·.defined? key)).getLast?.or
        (steps.filterMap (·.imported? key)).head? := by
  induction steps using List.reverseRecOn with
  | nil => simp [after, find?_empty]
  | append_singleton steps step ih =>
      rw [after_concat]
      by_cases hkey : key = ""
      · rw [if_pos hkey] at ih ⊢
        rw [hkey] at ih ⊢
        rw [find?_apply_empty, ih]
      · rw [if_neg hkey] at ih ⊢
        rw [find?_apply hkey, ih, List.filterMap_append, List.filterMap_append,
          List.getLast?_append, List.head?_append, ← Option.or_assoc, ← Option.or_assoc]
        congr 1
        · cases hdefined : step.defined? key <;> simp [hdefined]
        · cases himported : step.imported? key <;> simp [himported]

end Names

/-! ## Every entity has a name -/

namespace Entity

theorem label_ne_empty {e : Entity} (h : e.name ≠ "") : e.label ≠ "" := by
  rw [label]
  split
  next => exact h
  next hother => simpa using hother

theorem Becomes.name_ne_empty {e e' : Entity} (h : e.Becomes e') (hname : e.name ≠ "") :
    e'.name ≠ "" := by
  rcases h.named with ⟨-, hsame, -⟩ | ⟨-, -, owner, hmethod, -⟩
  · rw [hsame]
    exact hname
  · rw [hmethod]
    simp

theorem Finishes.name_ne_empty {e e' : Entity} (h : e.Finishes e') (hname : e.name ≠ "") :
    e'.name ≠ "" := by
  obtain ⟨id, n, hbecomes, -⟩ := h
  exact hbecomes.name_ne_empty hname

end Entity

theorem SourceFile.name_ne_empty {f : SourceFile} {es : List Entity} (h : f.extract? = some es) :
    ∀ e ∈ es, e.name ≠ "" := by
  obtain ⟨l, hl, rfl⟩ := Option.map_eq_some_iff.mp h
  obtain ⟨file, below, hes, -, -, hfile, hforall⟩ :=
    Extraction.fileTree_entities l f.path f.content
      (s := Survey.of l f.content) fun d hd => Survey.kind_ne_file_of_mem hd
  rw [hes]
  refine List.forall_mem_cons.mpr ⟨?_, ?_⟩
  · exact hfile.name_ne_empty (Path.fileStem?_getD_ne_empty (by rw [hl]; rfl))
  · intro e he
    obtain ⟨d, hd, hkind, hfinishes⟩ := Extraction.exists_definition_of_mem hforall he
    have hname := Survey.name_ne_empty_of_mem hd hkind
    refine hfinishes.name_ne_empty ?_
    rw [(Extraction.entity_name_id l f.path f.content hname).1]
    exact hname

namespace Index

variable {x : Index}

/-- Every entity of the index has a name. -/
structure IsNamed (x : Index) : Prop where
  ordered : x.entities.Ordered
  name_ne_empty : ∀ id e, x.find? id = some e → e.name ≠ ""

namespace IsNamed

theorem empty (root : String) : (empty root).IsNamed :=
  ⟨.empty, fun _ _ h => absurd h (by simp [find?, Index.empty])⟩

/-- An entity with a name may be put under any id. -/
theorem insert (h : x.IsNamed) (id : String) {e : Entity} (he : e.name ≠ "") :
    { x with entities := x.entities.insert id e }.IsNamed := by
  refine ⟨h.ordered.insert id e, ?_⟩
  intro k found hfound
  rw [find?, Table.find?_insert] at hfound
  split at hfound
  next =>
    obtain rfl := Option.some.inj hfound
    exact he
  next => exact h.name_ne_empty k found hfound

theorem foldl_addEntity (h : x.IsNamed) {es : List Entity} (hes : ∀ e ∈ es, e.name ≠ "") :
    (es.foldl addEntity x).IsNamed :=
  List.foldlRecOn (motive := IsNamed) es addEntity h fun _ hy e he => hy.insert e.id (hes e he)

theorem addFile (h : x.IsNamed) {es : List Entity} (hes : ∀ e ∈ es, e.name ≠ "") :
    (x.addFile es).IsNamed := by
  rw [Index.addFile]
  cases es.head? with
  | none => exact h.foldl_addEntity hes
  | some file =>
      exact foldl_addEntity (x := { x with files := x.files ++ [file.id] })
        ⟨h.ordered, h.name_ne_empty⟩ hes

theorem addFiles (h : x.IsNamed) (files : List SourceFile) (parsed skipped : Nat) :
    (addFiles files x parsed skipped).1.IsNamed := by
  induction files generalizing x parsed skipped with
  | nil => exact h
  | cons f files ih =>
      rw [addFiles_cons, ← SourceFile.extract?]
      cases hes : f.extract? with
      | some es => exact ih (h.addFile (SourceFile.name_ne_empty hes)) (parsed + 1) skipped
      | none => exact ih h parsed (skipped + 1)

theorem resolveImports (h : x.IsNamed) : x.resolveImports.1.IsNamed := by
  refine List.foldlRecOn (motive := fun y : Index × Nat => y.1.IsNamed) x.files _ h ?_
  intro y hy id _
  rw [resolveFile]
  split
  next => exact hy
  next file hfile => exact hy.insert id (hy.name_ne_empty id file hfile)

theorem addUses (h : x.IsNamed) (found : List (String × Table (List Nat))) :
    (x.addUses found).1.IsNamed := by
  refine ⟨(uncounted_addUses h.ordered found).1, ?_⟩
  intro id e he
  have hsame := (addUses_keeps h.ordered found).2.2 id
  rw [he, Option.map_some] at hsame
  obtain ⟨e', he', huncounted⟩ := Option.map_eq_some_iff.mp hsame.symm
  have hname : e'.uncounted.name = e.uncounted.name := by rw [huncounted]
  exact fun hempty => h.name_ne_empty id e' he' (hname.trans hempty)

theorem run (root : String) (calls : List (List SourceFile)) : (run root calls).IsNamed :=
  List.foldlRecOn (motive := IsNamed) calls _ (.empty root) fun _ hx files _ =>
    ((hx.addFiles files 0 0).resolveImports).addUses _

theorem name_ne_empty_of_mem_below (h : x.IsNamed) (depth : Nat) {es : List Entity}
    (hes : ∀ e ∈ es, e.name ≠ "") : ∀ e ∈ x.below depth es, e.name ≠ "" := by
  induction depth generalizing es with
  | zero => simp [below]
  | succ depth ih =>
      intro e he
      obtain ⟨top, htop, he⟩ := List.mem_flatMap.mp he
      rcases List.mem_cons.mp he with rfl | he
      · exact hes e htop
      · refine ih (fun d hd => ?_) e he
        obtain ⟨id, -, hid⟩ := List.mem_filterMap.mp hd
        exact h.name_ne_empty id d hid

theorem name_ne_empty_of_mem_descendants (h : x.IsNamed) (id : String) :
    ∀ e ∈ x.descendants id, e.name ≠ "" := by
  refine h.name_ne_empty_of_mem_below x.size fun e he => ?_
  rw [topOf] at he
  split at he
  next => exact absurd he (by simp)
  next =>
    obtain ⟨child, -, hchild⟩ := List.mem_filterMap.mp he
    exact h.name_ne_empty child e hchild

end IsNamed

/-! ## Names of a file -/

/-- However names are added, the last definition of a name counts, and else its first import.  In
particular, after every run a name stands in a file for the last entity below the file that goes by
it, if there is one. -/
theorem own_names_first :
    (∀ (steps : List Names.Step) (key : String),
      (Names.after steps).find? key =
        if key = "" then none
        else (steps.filterMap (·.defined? key)).getLast?.or
          (steps.filterMap (·.imported? key)).head?) ∧
      ∀ (root : String) (calls : List (List SourceFile)) (id key : String) (e : Entity),
        (((run root calls).descendants id).filter fun d =>
          d.label = key || d.name = key).getLast? = some e →
        ((run root calls).namesIn id).find? key = some e.id := by
  refine ⟨Names.find?_after, ?_⟩
  intro root calls id key e hlast
  have hmem := List.mem_filter.mp (List.mem_of_getLast? hlast)
  have hname := (IsNamed.run root calls).name_ne_empty_of_mem_descendants id e hmem.1
  have hkey : key ≠ "" := by
    rintro rfl
    simp [hname, Entity.label_ne_empty hname] at hmem
  cases hfile : (run root calls).find? id with
  | none => simp [descendants, topOf, hfile, below_nil] at hlast
  | some file =>
      rw [find?_namesIn _ hfile hkey, ownId?, hlast]
      rfl

end Index
end CodeAtlas
