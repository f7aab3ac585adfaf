import CodeAtlas.Proofs.Index.Imports
import CodeAtlas.Proofs.Text.Renaming

/-!
# What an alias of an import leads to

Aliases are replaced in the text of a file by the names that they stand for, and only then is a name
looked up.  A file that imports two things of one name, one of them under an alias, can therefore
not tell them apart: the alias leads to what the name stands for in the file, which is an own entity
before anything imported, and else what the first import of that name says.  The alias leads to its
own target when nothing else in the file goes by the name.
-/

namespace CodeAtlas

/-! ## Replacing the aliases of a file -/

namespace Import.Statement

variable {s : Import.Statement}

theorem mem_renamings_iff {r : String × String} :
    r ∈ s.renamings ↔
      (∃ n ∈ s.names, n.otherName ≠ "" ∧ n.otherName ≠ n.name ∧ r = (n.otherName, n.name)) ∨
        (s.names = [] ∧ s.moduleAlias ≠ "" ∧ s.moduleAlias ≠ s.module ∧
          Text.isDotted s.module = true ∧ r = (s.moduleAlias, s.module)) := by
  have hnamed : r ∈ (s.names.filterMap fun n =>
        if !n.otherName.isEmpty && n.otherName != n.name then some (n.otherName, n.name)
        else none) ↔
      ∃ n ∈ s.names, n.otherName ≠ "" ∧ n.otherName ≠ n.name ∧ r = (n.otherName, n.name) := by
    rw [List.mem_filterMap]
    refine exists_congr fun n => and_congr_right fun _ => ?_
    rw [Option.ite_none_right_eq_some, Option.some.injEq, @eq_comm _ _ r]
    simp [and_assoc]
  rw [renamings]
  split
  next hmodule =>
    rw [List.mem_append, hnamed, List.mem_singleton]
    simp only [Bool.and_eq_true, Bool.not_eq_true', List.isEmpty_iff, bne_iff_ne,
      String.isEmpty_eq_false_iff] at hmodule
    obtain ⟨⟨⟨hnames, halias⟩, hne⟩, hdotted⟩ := hmodule
    simp [hnames, halias, hne, hdotted]
  next hmodule =>
    rw [hnamed, or_iff_left]
    rintro ⟨hnames, halias, hne, hdotted, -⟩
    exact hmodule (by simp [hnames, halias, hne, hdotted])

theorem ne_of_mem_renamings {r : String × String} (h : r ∈ s.renamings) : r.1 ≠ r.2 := by
  rcases mem_renamings_iff.mp h with ⟨n, -, -, hne, rfl⟩ | ⟨-, -, hne, -, rfl⟩
  · exact hne
  · exact hne

end Import.Statement

/-- An undisturbed alias is replaced by the name that it stands for. -/
theorem Uses.replaceAliases_eq_name {imports : List Import.Statement} {s : Import.Statement}
    {n : Import.Name} (hs : s ∈ imports) (hn : n ∈ s.names)
    (hword : Text.stands n.otherName n.otherName = true)
    (hundisturbed : Text.Undisturbed (imports.flatMap (·.renamings)) n.otherName n.name) :
    Uses.replaceAliases imports n.otherName = n.name := by
  by_cases hne : n.otherName = n.name
  · -- no renaming turns a word into itself, so that nothing touches the alias at all
    have hnone : ∀ r ∈ imports.flatMap (·.renamings), Text.stands r.1 n.otherName = false := by
      intro r hr
      rw [Bool.eq_false_iff]
      intro hstands
      obtain ⟨s', -, hr'⟩ := List.mem_flatMap.mp hr
      have hself := hundisturbed.only r hr hstands
      exact Import.Statement.ne_of_mem_renamings hr' (by rw [hself, hne])
    exact (Text.renamed_of_not_stands hnone).trans hne
  · have halias : n.otherName ≠ "" := by
      intro hempty
      rw [hempty] at hword
      exact absurd hword (by decide)
    have hmem : (n.otherName, n.name) ∈ imports.flatMap (·.renamings) :=
      List.mem_flatMap.mpr
        ⟨s, hs, Import.Statement.mem_renamings_iff.mpr (Or.inl ⟨n, hn, halias, hne, rfl⟩)⟩
    exact Text.renamed_eq_name hundisturbed hword hmem

namespace Names

theorem resolve?_of_find? {n : Names} {token id : String} (h : n.find? token = some id) :
    n.resolve? token = some id := by
  rw [resolve?, h]

end Names

namespace Index

variable {x : Index} {id : String} {file t : Entity} {s : Import.Statement} {n : Import.Name}

/-! ## Looking up an imported name -/

/-- A statement that lists a name binds it to what the name leads to. -/
theorem mem_statementBindings (hresolved : s.isResolved = true) (hwildcard : s.wildcard = false)
    (hn : n ∈ s.names) (ht : x.importTarget? (x.filesWithStem s.path) n = some t)
    (language : Language) : (n.name, t.id) ∈ x.statementBindings language s := by
  have hnames : s.names.isEmpty = false := by
    rw [List.isEmpty_eq_false_iff]
    exact List.ne_nil_of_mem hn
  have hbinding : (n.name, t.id) ∈ x.nameBindings (x.filesWithStem s.path) n := by
    rw [nameBindings, ht]
    exact List.mem_cons_self
  rw [statementBindings, hresolved, hwildcard, hnames]
  exact List.mem_flatMap.mpr ⟨n, hn, hbinding⟩

theorem exists_lookup_of_mem {name target : String} {bindings : List (String × String)}
    (h : (name, target) ∈ bindings) : ∃ first, bindings.lookup name = some first := by
  rw [← Option.ne_none_iff_exists']
  intro hnone
  exact absurd rfl (bne_iff_ne.mp (List.lookup_eq_none_iff.mp hnone _ h))

/-- A name that is imported leads to an own entity of the file, and else to what the first import
that binds it says. -/
theorem resolve?_of_mem_importBindings {name target : String} (hfile : x.find? id = some file)
    (hname : name ≠ "") (hmem : (name, target) ∈ x.importBindings file) :
    (x.namesIn id).resolve? name =
      (x.ownId? id name).or ((x.importBindings file).lookup name) := by
  have hfind := x.find?_namesIn hfile hname
  obtain ⟨first, hfirst⟩ := exists_lookup_of_mem hmem
  rw [hfirst] at hfind ⊢
  cases hown : x.ownId? id name with
  | none =>
      rw [hown] at hfind
      exact Names.resolve?_of_find? hfind
  | some own =>
      rw [hown] at hfind
      exact Names.resolve?_of_find? hfind

theorem ownId?_eq_none {name : String}
    (h : ∀ d ∈ x.descendants id, d.label ≠ name ∧ d.name ≠ name) : x.ownId? id name = none := by
  have hnone : (x.descendants id).filter (fun d => d.label = name || d.name = name) = [] := by
    rw [List.filter_eq_nil_iff]
    intro d hd
    simp [h d hd]
  rw [ownId?, hnone]
  rfl

/-! ## Two modules of one name -/

/-- A text that imports a name as it is, and the same name of another module under an alias. -/
def twinText : String := "from p import x\nfrom q import x as z\n"

def plainImport (path subpath : String) : Import.Statement :=
  ⟨"p", "", [⟨"x", "", subpath⟩], path, "from p import x", ⟨0, 0⟩, ⟨0, 15⟩, false⟩

def aliasedImport (path subpath : String) : Import.Statement :=
  ⟨"q", "", [⟨"x", "z", subpath⟩], path, "from q import x as z", ⟨1, 0⟩, ⟨1, 20⟩, false⟩

/-- Empty modules, and the file that imports from them. -/
def twinFiles (modules : List String) : List SourceFile :=
  modules.map (⟨·, ""⟩) ++ [⟨"/m.py", twinText⟩]

/-- The index of the files before uses are looked for. -/
def twinIndex (modules : List String) : Index :=
  ((modules.foldl (fun x path => x.addFile (Extraction.entities .python path "" ⟨[], [], []⟩))
      (empty "/")).addFile
    (Extraction.entities .python "/m.py" twinText
      ⟨[], [], [plainImport "" "", aliasedImport "" ""]⟩)).resolveImports.1

theorem survey_empty : Survey.of .python "" = ⟨[], [], []⟩ := by
  have hlanguage : (Syntax.parse .python "").language = .python := rfl
  -- the characters of the patterns are laid open first, which keeps the evaluation short
  simp only [Survey.of, Survey.definitionsOf, Survey.exportsOf, Import.statements, Capture.all,
    Capture.labelled, hlanguage, Catalogue.queries_eq_readChars?, Catalogue.groups,
    Catalogue.python, Catalogue.Python.imports, Catalogue.Python.definitions,
    Catalogue.Python.globals, List.map_cons, List.map_nil]
  repeat rw [String.toList_ofList]
  decide +kernel

theorem survey_twinText :
    Survey.of .python twinText = ⟨[], [], [plainImport "" "", aliasedImport "" ""]⟩ := by
  have hlanguage : (Syntax.parse .python twinText).language = .python := rfl
  simp only [Survey.of, Survey.definitionsOf, Survey.exportsOf, Import.statements, Capture.all,
    Capture.labelled, hlanguage, Catalogue.queries_eq_readChars?, Catalogue.groups,
    Catalogue.python, Catalogue.Python.imports, Catalogue.Python.definitions,
    Catalogue.Python.globals, List.map_cons, List.map_nil]
  repeat rw [String.toList_ofList]
  decide +kernel

theorem addFiles_of_survey {f : SourceFile} {language : Language} {survey : Survey}
    (hlanguage : Language.ofPath? f.path = some language)
    (hsurvey : Survey.of language f.content = survey) (new : List SourceFile) (x : Index)
    (parsed skipped : Nat) :
    addFiles (f :: new) x parsed skipped =
      addFiles new (x.addFile (Extraction.entities language f.path f.content survey))
        (parsed + 1) skipped := by
  rw [addFiles_cons, extract?, hlanguage, Option.map_some, hsurvey]

theorem uncounted_run_twinFiles {modules : List String}
    (hmodules : ∀ path ∈ modules, Language.ofPath? path = some .python) :
    (run "/" [twinFiles modules]).uncounted = (twinIndex modules).uncounted := by
  have hfiles : ∀ (x : Index) (parsed : Nat),
      (addFiles (twinFiles modules) x parsed 0).1 =
        (modules.foldl (fun x path => x.addFile (Extraction.entities .python path "" ⟨[], [], []⟩))
          x).addFile (Extraction.entities .python "/m.py" twinText
            ⟨[], [], [plainImport "" "", aliasedImport "" ""]⟩) := by
    induction modules with
    | nil =>
        intro x parsed
        have hlanguage : Language.ofPath? "/m.py" = some .python := by decide +kernel
        exact congrArg Prod.fst
          (addFiles_of_survey (f := ⟨"/m.py", twinText⟩) hlanguage survey_twinText [] x parsed 0)
    | cons path modules ih =>
        intro x parsed
        rw [List.forall_mem_cons] at hmodules
        rw [twinFiles, List.map_cons, List.cons_append,
          addFiles_of_survey (f := ⟨path, ""⟩) hmodules.1 survey_empty]
        exact ih hmodules.2 _ (parsed + 1)
  rw [uncounted_run_singleton, hfiles]
  rfl

/-- What the index before uses says about the importing file and about the target of its alias is
true of the index after a run. -/
theorem exists_twinFile (modules : List String) (imports : List Import.Statement)
    (hmodules : ∀ path ∈ modules, Language.ofPath? path = some .python)
    (hfile : ((twinIndex modules).find? "/m.py").map
      (fun e => (e.imports, e.language, e.label, e.name)) = some (imports, .python, "m", "m"))
    (hbelow : ((twinIndex modules).descendants "/m.py").map (·.id) = [])
    (htarget : ((twinIndex modules).importTarget? ((twinIndex modules).filesWithStem "/q")
      ⟨"x", "z", "/q/x"⟩).map (·.id) = some "/q/x.py") :
    ∃ file t : Entity, (run "/" [twinFiles modules]).find? "/m.py" = some file ∧
      (file.imports = imports ∧ file.language = .python ∧ file.label = "m" ∧ file.name = "m") ∧
      (run "/" [twinFiles modules]).descendants "/m.py" = [] ∧
      (run "/" [twinFiles modules]).importTarget?
        ((run "/" [twinFiles modules]).filesWithStem "/q") ⟨"x", "z", "/q/x"⟩ = some t ∧
      t.id = "/q/x.py" := by
  have hsame := uncounted_run_twinFiles hmodules
  rw [← map_find?_of_uncounted hsame fun _ => rfl] at hfile
  rw [← map_descendants_of_uncounted hsame fun _ => rfl, List.map_eq_nil_iff] at hbelow
  rw [← map_importTarget?_of_uncounted hsame fun _ => rfl] at htarget
  obtain ⟨file, hfind, hview⟩ := Option.map_eq_some_iff.mp hfile
  obtain ⟨t, ht, hid⟩ := Option.map_eq_some_iff.mp htarget
  simp only [Prod.mk.injEq] at hview
  exact ⟨file, t, hfind, hview, hbelow, ht, hid⟩

/-! ## Where an alias leads -/

/-- After any run, the alias of an imported name is replaced by the name, which leads to an own
entity of the file, and else to what the first import that binds it says.  The target of the alias
is among what the name is bound to, and the alias leads there when nothing else in the file goes by
the name. -/
theorem resolve?_replaceAliases (root : String) (calls : List (List SourceFile))
    (hfile : (run root calls).find? id = some file) (hs : s ∈ file.imports)
    (hresolved : s.isResolved = true) (hn : n ∈ s.names) (hname : n.name ≠ "")
    (hword : Text.stands n.otherName n.otherName = true)
    (hundisturbed : Text.Undisturbed (file.imports.flatMap (·.renamings)) n.otherName n.name)
    (ht : (run root calls).importTarget? ((run root calls).filesWithStem s.path) n = some t) :
    Uses.replaceAliases file.imports n.otherName = n.name ∧
      ((run root calls).namesIn id).resolve? n.name =
        ((run root calls).ownId? id n.name).or
          (((run root calls).importBindings file).lookup n.name) ∧
      (n.name, t.id) ∈ (run root calls).importBindings file ∧
      ((∀ d ∈ (run root calls).descendants id, d.label ≠ n.name ∧ d.name ≠ n.name) →
        (∀ b ∈ (run root calls).importBindings file, b.1 = n.name → b.2 = t.id) →
        ((run root calls).namesIn id).resolve? (Uses.replaceAliases file.imports n.otherName) =
          some t.id) := by
  have hwildcard : s.wildcard = false := by
    rw [Bool.eq_false_iff]
    intro htrue
    have hempty := (wildcardAlone_run root calls).imports id file hfile s hs htrue
    exact List.ne_nil_of_mem hn hempty
  have hreplaced := Uses.replaceAliases_eq_name hs hn hword hundisturbed
  have hmem : (n.name, t.id) ∈ (run root calls).importBindings file :=
    List.mem_flatMap.mpr ⟨s, hs, mem_statementBindings hresolved hwildcard hn ht file.language⟩
  have hresolve := resolve?_of_mem_importBindings hfile hname hmem
  refine ⟨hreplaced, hresolve, hmem, ?_⟩
  intro hown honly
  obtain ⟨first, hfirst⟩ := exists_lookup_of_mem hmem
  obtain ⟨before, after, hsplit, -⟩ := List.lookup_eq_some_iff.mp hfirst
  have htarget : first = t.id := honly (n.name, first) (by rw [hsplit]; simp) rfl
  rw [hreplaced, hresolve, ownId?_eq_none hown, hfirst, htarget]
  rfl

/-- In a file that imports one thing of a name, the alias leads there. -/
theorem resolve?_replaceAliases_lone :
    ∃ file t : Entity, (run "/" [twinFiles ["/q/x.py"]]).find? "/m.py" = some file ∧
      aliasedImport "/q" "/q/x" ∈ file.imports ∧ t.id = "/q/x.py" ∧
      ((run "/" [twinFiles ["/q/x.py"]]).namesIn "/m.py").resolve?
        (Uses.replaceAliases file.imports "z") = some t.id := by
  have hmodules : ∀ path ∈ ["/q/x.py"], Language.ofPath? path = some .python := by decide +kernel
  obtain ⟨file, t, hfile, ⟨himports, hlanguage, -⟩, hown, ht, hid⟩ :=
    exists_twinFile ["/q/x.py"] [plainImport "" "", aliasedImport "/q" "/q/x"] hmodules
      (by decide +kernel) (by decide +kernel) (by decide +kernel)
  have hmem : aliasedImport "/q" "/q/x" ∈ file.imports := by
    rw [himports]
    decide
  have hundisturbed : Text.Undisturbed (file.imports.flatMap (·.renamings)) "z" "x" := by
    rw [himports]
    exact ⟨by decide +kernel, by decide +kernel⟩
  have honly : (run "/" [twinFiles ["/q/x.py"]]).importBindings file = [("x", "/q/x.py")] := by
    rw [importBindings, himports, hlanguage]
    simp only [List.flatMap_cons, List.flatMap_nil,
      statementBindings_of_uncounted (uncounted_run_twinFiles hmodules)]
    decide +kernel
  refine ⟨file, t, hfile, hmem, hid, ?_⟩
  refine (resolve?_replaceAliases "/" [twinFiles ["/q/x.py"]] (n := ⟨"x", "z", "/q/x"⟩) hfile hmem
    (by decide) (by decide) (by decide) (by decide +kernel) hundisturbed ht).2.2.2 ?_ ?_
  · rw [hown]
    exact fun d hd => absurd hd (by simp)
  · rw [honly, hid]
    decide

/-- A word that serves as an alias once in a file and is no name of anything else there. -/
structure FreshAlias (x : Index) (id : String) (file : Entity) (word : String) : Prop where
  ne_empty : word ≠ ""
  once : (file.imports.flatMap fun s => s.moduleAlias :: s.names.map (·.otherName)).count word = 1
  not_own : ∀ e ∈ file :: x.descendants id, e.label ≠ word ∧ e.name ≠ word
  not_imported : ∀ s ∈ file.imports, ∀ n ∈ s.names, n.name ≠ word

/-- A fresh alias does not always lead to its target: the name that it stands for may belong to an
earlier import. -/
theorem not_forall_resolve?_freshAlias :
    ¬ ∀ (root : String) (files : List SourceFile) (id : String) (file t : Entity)
        (s : Import.Statement) (n : Import.Name),
      (run root [files]).find? id = some file → s ∈ file.imports → s.isResolved = true →
      n ∈ s.names → (run root [files]).FreshAlias id file n.otherName →
      (run root [files]).importTarget? ((run root [files]).filesWithStem s.path) n = some t →
      ((run root [files]).namesIn id).resolve? (Uses.replaceAliases file.imports n.otherName) =
        some t.id := by
  intro h
  have hmodules : ∀ path ∈ ["/p/x.py", "/q/x.py"], Language.ofPath? path = some .python := by
    decide +kernel
  obtain ⟨file, t, hfile, ⟨himports, -, hlabel, hname⟩, hown, ht, hid⟩ :=
    exists_twinFile ["/p/x.py", "/q/x.py"]
      [plainImport "/p" "/p/x", aliasedImport "/q" "/q/x"] hmodules
      (by decide +kernel) (by decide +kernel) (by decide +kernel)
  have hfresh : (run "/" [twinFiles ["/p/x.py", "/q/x.py"]]).FreshAlias "/m.py" file "z" := by
    refine ⟨by decide, by rw [himports]; decide +kernel, ?_, by rw [himports]; decide +kernel⟩
    rw [hown, List.forall_mem_singleton, hlabel, hname]
    decide
  have hlead := h "/" (twinFiles ["/p/x.py", "/q/x.py"]) "/m.py" file t (aliasedImport "/q" "/q/x")
    ⟨"x", "z", "/q/x"⟩ hfile (by rw [himports]; simp) (by decide) (by decide) hfresh ht
  rw [namesIn_of_uncounted (uncounted_run_twinFiles hmodules), himports, hid] at hlead
  exact absurd hlead (by decide +kernel)

end Index
end CodeAtlas
