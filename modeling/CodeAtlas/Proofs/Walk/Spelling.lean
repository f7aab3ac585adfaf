import CodeAtlas.Proofs.Index.Batch
import CodeAtlas.Proofs.Walk.Files

/-!
# Indexing a folder under its spellings

Under two spellings of a folder the same files are indexed, with the lead of each spelling in front
of their paths.  So the indices differ by these fronts only, as far as imports do not matter, and
altogether if the imports differ by the fronts only.

Imports need not do so: where a module is looked for is a normal form, and no normal form is the path
of a file below a root that goes up or starts with two slashes.  Spellings without these have the
same front.
-/

namespace CodeAtlas
namespace Walk

/-! ## Spellings -/

/-- The two lists are the same but for the fronts of paths. -/
def Alike {α : Type} (under : String → α → α) (front front' : String) (xs ys : List α) : Prop :=
  ∃ zs : List α, xs = zs.map (under front) ∧ ys = zs.map (under front')

/-- The imports of an entity. -/
def importsOf (x : Index) (id : String) : List Import.Statement :=
  ((x.find? id).map Entity.imports).getD []

/-- The imports of two indices are the same but for the fronts of paths. -/
def ImportsAlike (front front' : String) (x y : Index) : Prop :=
  ∀ id, Alike Import.Statement.under front front' (importsOf x (Path.under front id))
    (importsOf y (Path.under front' id))

/-- Two indices are the same but for the fronts of paths, as far as imports do not matter. -/
structure OutlinesAlike (front front' : String) (x y : Index × Summary) : Prop where
  parsed : y.2.parsed = x.2.parsed
  skipped : y.2.skipped = x.2.skipped
  entities : y.2.entities = x.2.entities
  records : Alike EntityRecord.under front front' (x.1.records.map EntityRecord.outlined)
    (y.1.records.map EntityRecord.outlined)
  defines : Alike Link.under front front' x.1.definesLinks y.1.definesLinks

/-- Two indices are the same but for the fronts of paths. -/
structure IndicesAlike (front front' : String) (x y : Index × Summary) : Prop where
  summary : y.2 = x.2
  records : Alike EntityRecord.under front front' x.1.records y.1.records
  links : Alike Link.under front front' x.1.links y.1.links

/-- What stands in front of the files below a root. -/
def front (here root : String) : String := Path.lead (Path.absolute here root)

/-- A way to write a folder of a disk. -/
structure IsSpelling (disk : Disk) (here root : String) (t : Trail) : Prop where
  ne_empty : root ≠ ""
  leads : disk.locate? (Path.absolute here root) = some (.folder t)
  slashes : '\\' ∉ (Path.absolute here root).toList

/-- The root has neither `..` nor two slashes at its start. -/
structure IsPlain (root : String) : Prop where
  stays : ['.', '.'] ∉ Path.rawSegments root
  single : Text.startsWith root "//" = false

/-- The index of the files below a root. -/
def indexed (disk : Disk) (g : Guide) (root : String) : Index × Summary :=
  let read := readAll disk (sources disk g root)
  let added := (Index.empty root).add read.1
  (added.1, { added.2 with skipped := added.2.skipped + read.2 })

section Spellings

variable {g : Guide} {disk : Disk} {here p q : String} {t u : Trail}

theorem IsSpelling.index_eq (h : IsSpelling disk here p t) (settings : Settings) :
    index disk here p settings =
      match Exclusion.ofSettings settings with
      | .error cause => .error (.exclusion cause)
      | .ok exclusion => .ok (indexed disk ⟨settings, exclusion⟩ (Path.absolute here p)) := by
  rw [index, if_neg (by simpa using h.ne_empty), Text.replaceChar_of_not_mem '/' h.slashes, addRoot]
  rfl

theorem isFile_of_mem_sources {root path : String} (hroot : Path.isRooted root = true)
    (hleads : disk.locate? root = some (.folder t)) (h : path ∈ sources disk g root) :
    Path.IsFile path := by
  have hreplace : ∀ s : String, Path.isRooted s = true →
      Path.isRooted (Text.replaceChar '\\' '/' s) = true := by
    intro s hs
    obtain ⟨rest, rfl⟩ := Path.exists_of_isRooted hs
    rw [Text.replaceChar_append, Text.replaceChar_of_not_mem (s := "/") '/' (by decide)]
    exact Path.isRooted_slash_append _
  rw [sources, List.mem_mergeSort, List.mem_filter, allFiles, hleads] at h
  obtain ⟨behind, hbehind, rfl⟩ := List.mem_map.mp h.1
  obtain ⟨below, -, rfl⟩ := List.mem_map.mp hbehind
  refine ⟨hreplace _ ?_, (Bool.and_eq_true_iff.mp h.2).2⟩
  rw [Path.append]
  split
  next hrooted => exact hrooted
  next =>
    split
    next => rw [Path.isRooted_append, if_neg (Path.ne_empty_of_isRooted hroot), hroot]
    next =>
      rw [String.append_assoc, Path.isRooted_append, if_neg (Path.ne_empty_of_isRooted hroot),
        hroot]

section Same

variable (hhere : Path.IsNormal here) (hp : IsSpelling disk here p t)
  (hq : IsSpelling disk here q t)

include hhere hp hq

/-- Plain spellings of a folder cannot be told apart. -/
theorem indexed_plain
    (hsame : Path.normalSegments (Path.absolute here p) =
      Path.normalSegments (Path.absolute here q))
    (hplain : IsPlain (Path.absolute here p)) (hplain' : IsPlain (Path.absolute here q)) :
    (indexed disk g (Path.absolute here q)).2 = (indexed disk g (Path.absolute here p)).2 ∧
      (indexed disk g (Path.absolute here q)).1.records =
        (indexed disk g (Path.absolute here p)).1.records ∧
      (indexed disk g (Path.absolute here q)).1.links =
        (indexed disk g (Path.absolute here p)).1.links := by
  obtain ⟨opening, segments, hlead⟩ := Path.exists_hasLead_absolute hhere p
  obtain ⟨opening', segments', hlead'⟩ := Path.exists_hasLead_absolute hhere q
  have happend : ∀ path, Path.append (Path.absolute here p) path =
      Path.append (Path.absolute here q) path := by
    refine Path.append_congr hlead.ne_empty hlead'.ne_empty ?_
    rw [hlead.lead_eq_of_plain hplain.stays hplain.single, hsame,
      hlead'.lead_eq_of_plain hplain'.stays hplain'.single]
  have hsources : sources disk g (Path.absolute here q) = sources disk g (Path.absolute here p) := by
    rw [sources, sources, allFiles, allFiles, hp.leads, hq.leads, funext happend]
  have hfiles : ∀ f ∈ (readAll disk (sources disk g (Path.absolute here p))).1,
      Path.IsFile f.path := fun f hf =>
    isFile_of_mem_sources hlead.isRooted_eq hp.leads (path_mem_of_mem_readAll hf)
  obtain ⟨hsummary, hrecords, hlinks⟩ := Index.add_reroot happend hfiles
  rw [indexed, indexed, hsources]
  refine ⟨?_, hrecords, hlinks⟩
  dsimp only
  rw [hsummary]

/-- Under all spellings of a folder the same files are read. -/
theorem exists_files (hfree : colonFree (Path.absolute here p))
    (hfree' : colonFree (Path.absolute here q)) (ht : ∀ e ∈ t.entries, IsProper e) (g : Guide) :
    ∃ files unreadable, (∀ f ∈ files, Path.IsFile f.path) ∧
      readAll disk (sources disk g (Path.absolute here p)) =
        (Index.filesUnder (front here p) files, unreadable) ∧
      readAll disk (sources disk g (Path.absolute here q)) =
        (Index.filesUnder (front here q) files, unreadable) := by
  obtain ⟨files, unreadable, hpaths, hread⟩ := exists_readAll_under disk t (below g t)
  have hfiles : ∀ {root}, IsSpelling disk here root t → colonFree (Path.absolute here root) →
      readAll disk (sources disk g (Path.absolute here root)) =
        (Index.filesUnder (front here root) files, unreadable) := by
    intro root hroot hfree
    obtain ⟨opening, segments, hlead⟩ := Path.exists_hasLead_absolute hhere root
    rw [sources_eq hlead.ne_empty (hlead.isFront hfree) hroot.slashes hroot.leads ht]
    refine hread _ fun path hpath => ?_
    have hbelow := (isFile_of_mem_below ht hpath).1
    -- the walk goes to the folder first, and the rest of the path starts there
    have hwalk := Disk.locate?_eq_folder_iff.mp hroot.leads
    rw [Disk.segments, ← Path.filter_rawSegments_lead] at hwalk
    rw [Path.under_of_isRooted hbelow.rooted, disk.read?_eq]
    exact Trail.read?_append hwalk hbelow.rooted hbelow.named
  exact ⟨files, unreadable, fun f hf => (isFile_of_mem_below ht (hpaths f hf)).2,
    hfiles hp hfree, hfiles hq hfree'⟩

/-- Whatever the spelling of a folder, outlines differ by its front only, and so does all else if the
imports do. -/
theorem indexed_alike (hfree : colonFree (Path.absolute here p))
    (hfree' : colonFree (Path.absolute here q)) (ht : ∀ e ∈ t.entries, IsProper e)
    {x y : Index × Summary} (hx : indexed disk g (Path.absolute here p) = x)
    (hy : indexed disk g (Path.absolute here q) = y) :
    OutlinesAlike (front here p) (front here q) x y ∧
      (ImportsAlike (front here p) (front here q) x.1 y.1 →
        IndicesAlike (front here p) (front here q) x y) := by
  obtain ⟨files, unreadable, hfiles, hread, hread'⟩ := exists_files hhere hp hq hfree hfree' ht g
  obtain ⟨_, _, hlead⟩ := Path.exists_hasLead_absolute hhere p
  obtain ⟨_, _, hlead'⟩ := Path.exists_hasLead_absolute hhere q
  have hfront : Path.IsFront (front here p) := hlead.isFront hfree
  have hfront' : Path.IsFront (front here q) := hlead'.isFront hfree'
  rw [indexed, hread] at hx
  rw [indexed, hread'] at hy
  subst hx hy
  obtain ⟨hparsed, hskipped, hentities⟩ := Index.summary_add hfront hfiles (Path.absolute here p)
  obtain ⟨hparsed', hskipped', hentities'⟩ :=
    Index.summary_add hfront' hfiles (Path.absolute here q)
  refine ⟨?_, fun himports => ?_⟩
  · exact {
      parsed := hparsed'.trans hparsed.symm
      skipped := congrArg (· + unreadable) (hskipped'.trans hskipped.symm)
      entities := hentities'.trans hentities.symm
      records := ⟨_, Index.records_add_outlined hfront hfiles _,
        Index.records_add_outlined hfront' hfiles _⟩
      defines := ⟨_, Index.definesLinks_add hfront hfiles _,
        Index.definesLinks_add hfront' hfiles _⟩ }
  · choose imports himport himport' using himports
    have hadd := Index.add_filesUnder hfront hfiles imports (Path.absolute here p)
      fun id e he => by
        have hid := himport id
        rw [importsOf, he] at hid
        exact hid
    have hadd' := Index.add_filesUnder hfront' hfiles imports (Path.absolute here q)
      fun id e he => by
        have hid := himport' id
        rw [importsOf, he] at hid
        exact hid
    rw [hadd, hadd']
    exact {
      summary := rfl
      records := ⟨_, Index.records_under hfront _, Index.records_under hfront' _⟩
      links := ⟨_, Index.links_under hfront _, Index.links_under hfront' _⟩ }

end Same

/-- Two spellings of a folder give the same index if neither goes up or starts with two slashes.
Any two of them, unless a double colon or an entry without a name is in the way, give the same files
and entities with their own fronts, and indices that differ by the fronts only if the imports do. -/
theorem index_spellings (hhere : Path.IsNormal here) (hp : IsSpelling disk here p t)
    (hq : IsSpelling disk here q u)
    (hsame : Path.normalize (Path.absolute here p) = Path.normalize (Path.absolute here q))
    (settings : Settings) :
    (∃ cause, index disk here p settings = .error (.exclusion cause) ∧
      index disk here q settings = .error (.exclusion cause)) ∨
    ∃ x y : Index × Summary, index disk here p settings = .ok x ∧
      index disk here q settings = .ok y ∧
      (IsPlain (Path.absolute here p) → IsPlain (Path.absolute here q) →
        y.2 = x.2 ∧ y.1.records = x.1.records ∧ y.1.links = x.1.links) ∧
      (colonFree (Path.absolute here p) → colonFree (Path.absolute here q) →
        (∀ e ∈ t.entries, IsProper e) →
        OutlinesAlike (front here p) (front here q) x y ∧
          (ImportsAlike (front here p) (front here q) x.1 y.1 →
            IndicesAlike (front here p) (front here q) x y)) := by
  obtain ⟨_, _, hlead⟩ := Path.exists_hasLead_absolute hhere p
  obtain ⟨_, _, hlead'⟩ := Path.exists_hasLead_absolute hhere q
  have hnormal :=
    Path.normalSegments_eq_of_normalize_eq hlead.isRooted_eq hlead'.isRooted_eq hsame
  obtain rfl := Disk.trail_eq_of_normalSegments hp.leads hq.leads hnormal
  rw [hp.index_eq, hq.index_eq]
  cases Exclusion.ofSettings settings with
  | error cause => exact .inl ⟨cause, rfl, rfl⟩
  | ok exclusion =>
      refine .inr ⟨_, _, rfl, rfl, ?_, ?_⟩
      · exact indexed_plain hhere hp hq hnormal
      · intro hfree hfree' ht
        exact indexed_alike hhere hp hq hfree hfree' ht rfl rfl

end Spellings

/-! ## Going up and down again -/

/-- A disk with one folder. -/
def repository (entries : List Entry) : Disk := ⟨[.folder "repo" entries]⟩

/-- The way to the folder of a repository. -/
def repositoryTrail (entries : List Entry) : Trail :=
  ⟨[⟨"repo", entries⟩], (repository entries).entries⟩

theorem isSpelling_repository (entries : List Entry) :
    IsSpelling (repository entries) "/" "repo" (repositoryTrail entries) ∧
      IsSpelling (repository entries) "/" "./repo/" (repositoryTrail entries) ∧
      IsSpelling (repository entries) "/" "repo/../repo" (repositoryTrail entries) := by
  have hwalk : ∀ {root segments}, Disk.segments (Path.absolute "/" root) = segments →
      (repository entries).start.walk? segments = some (repositoryTrail entries) →
      (repository entries).locate? (Path.absolute "/" root) =
        some (.folder (repositoryTrail entries)) := by
    intro root segments hsegments hwalk
    rw [Disk.locate?_eq_folder_iff, hsegments, hwalk]
  have hdown : Disk.segments (Path.absolute "/" "repo") = ["repo"] := by decide +kernel
  have hslash : Disk.segments (Path.absolute "/" "./repo/") = ["repo"] := by decide +kernel
  have hup : Disk.segments (Path.absolute "/" "repo/../repo") = ["repo", "..", "repo"] := by
    decide +kernel
  exact ⟨⟨by decide, hwalk hdown rfl, by decide +kernel⟩,
    ⟨by decide, hwalk hslash rfl, by decide +kernel⟩,
    ⟨by decide, hwalk hup rfl, by decide +kernel⟩⟩

/-- Settings that exclude nothing. -/
def openSettings : Settings :=
  { Settings.standard with excludedFolders := [], excludedEndings := [] }

theorem IsSpelling.index_openSettings {disk : Disk} {here p : String} {t : Trail}
    (h : IsSpelling disk here p t) :
    index disk here p openSettings =
      .ok (indexed disk ⟨openSettings, ⟨[]⟩⟩ (Path.absolute here p)) :=
  h.index_eq openSettings

theorem indexed_of_reading {disk : Disk} {g : Guide} {root : String} {paths : List String}
    {files : List SourceFile}
    (hpaths : ((allFiles disk g root).map (Text.replaceChar '\\' '/')).filter isSource = paths)
    (hsorted : paths.Pairwise fun a b => decide (a ≤ b) = true)
    (hfiles : readAll disk paths = (files, 0)) :
    indexed disk g root = (Index.empty root).add files := by
  rw [indexed, sources, hpaths, List.mergeSort_of_pairwise hsorted, hfiles]
  rfl

/-- Files without imports give an index without imports. -/
theorem importsOf_add_of_quiet (root : String) {files : List SourceFile}
    (h : ∀ e ∈ Index.extracted files, e.imports = []) (id : String) :
    importsOf ((Index.empty root).add files).1 id = [] := by
  have hstored : ∀ k e, (Index.addFiles files (Index.empty root) 0 0).1.find? k = some e →
      e.imports = [] := by
    rw [funext (Index.find?_addFiles files (Index.empty root) 0 0)]
    refine List.foldlRecOn (motive := fun x : Index => ∀ k e, x.find? k = some e → e.imports = [])
      _ _ (fun k e he => absurd he (by simp [Index.find?, Index.empty])) ?_
    intro x hx e he k d hd
    rw [Index.find?, Index.addEntity, Table.find?_insert] at hd
    split at hd
    next =>
      obtain rfl := Option.some.inj hd
      exact h e he
    next => exact hx k d hd
  rw [importsOf, Index.imports_add]
  cases hfind : (Index.addFiles files (Index.empty root) 0 0).1.find? id with
  | none => rfl
  | some e =>
      rw [Option.map_some, Option.getD_some, Entity.resolved, hstored id e hfind]
      split <;> rfl

/-- A folder with a module that says nothing. -/
def quietEntries : List Entry := [.file "u.py" "".toUTF8]

theorem importsOf_quiet (root u : String)
    (hpaths : ((allFiles (repository quietEntries) ⟨openSettings, ⟨[]⟩⟩ root).map
      (Text.replaceChar '\\' '/')).filter isSource = [u])
    (hread : readAll (repository quietEntries) [u] = ([⟨u, ""⟩], 0))
    (hu : Language.ofPath? u = some .python)
    (himports : ∀ e ∈ Extraction.entities .python u "" ⟨[], [], []⟩, e.imports = []) (id : String) :
    importsOf (indexed (repository quietEntries) ⟨openSettings, ⟨[]⟩⟩ root).1 id = [] := by
  rw [indexed_of_reading hpaths (List.pairwise_singleton _ u) hread]
  refine importsOf_add_of_quiet root (fun e he => himports e ?_) id
  rw [Index.extracted, List.filterMap_cons_some (Index.extract?_emptyModule u hu)] at he
  simpa using he

/-- A folder with a module that imports from another one beside it. -/
def relativeEntries : List Entry :=
  [.file "m.py" "from .u import x\n".toUTF8, .file "u.py" "".toUTF8]

theorem index_spellings_repository :
    Path.IsNormal "/" ∧
      IsSpelling (repository relativeEntries) "/" "repo" (repositoryTrail relativeEntries) ∧
      IsSpelling (repository relativeEntries) "/" "./repo/" (repositoryTrail relativeEntries) ∧
      (∃ x y : Index × Summary, index (repository relativeEntries) "/" "repo" openSettings = .ok x ∧
        index (repository relativeEntries) "/" "./repo/" openSettings = .ok y ∧
        y.2 = x.2 ∧ y.1.records = x.1.records ∧ y.1.links = x.1.links) ∧
      IsSpelling (repository quietEntries) "/" "repo" (repositoryTrail quietEntries) ∧
      IsSpelling (repository quietEntries) "/" "repo/../repo" (repositoryTrail quietEntries) ∧
      ∃ x y : Index × Summary, index (repository quietEntries) "/" "repo" openSettings = .ok x ∧
        index (repository quietEntries) "/" "repo/../repo" openSettings = .ok y ∧
        IndicesAlike "/repo" "/repo/../repo" x y := by
  obtain ⟨hdown, hslash, -⟩ := isSpelling_repository relativeEntries
  obtain ⟨hquiet, -, hup⟩ := isSpelling_repository quietEntries
  refine ⟨by decide, hdown, hslash, ?_, hquiet, hup, ?_⟩
  · rcases index_spellings (by decide) hdown hslash (by decide +kernel) openSettings with
      ⟨cause, herror, -⟩ | ⟨x, y, hx, hy, hplain, -⟩
    · rw [hdown.index_openSettings] at herror
      exact absurd herror (by simp)
    · exact ⟨x, y, hx, hy, hplain ⟨by decide +kernel, by decide +kernel⟩
        ⟨by decide +kernel, by decide +kernel⟩⟩
  · rcases index_spellings (by decide) hquiet hup (by decide +kernel) openSettings with
      ⟨cause, herror, -⟩ | ⟨x, y, hx, hy, -, halike⟩
    · rw [hquiet.index_openSettings] at herror
      exact absurd herror (by simp)
    · have hroot : Path.absolute "/" "repo" = "/repo" := by decide +kernel
      have hroot' : Path.absolute "/" "repo/../repo" = "/repo/../repo" := by decide +kernel
      have hfront : front "/" "repo" = "/repo" := by decide +kernel
      have hfront' : front "/" "repo/../repo" = "/repo/../repo" := by decide +kernel
      obtain rfl := Except.ok.inj (hquiet.index_openSettings.symm.trans hx)
      obtain rfl := Except.ok.inj (hup.index_openSettings.symm.trans hy)
      rw [hroot, hroot', hfront, hfront'] at halike
      have hnone := importsOf_quiet "/repo" "/repo/u.py" (by decide +kernel)
        (by decide +kernel) (by decide +kernel) (by decide +kernel)
      have hnone' := importsOf_quiet "/repo/../repo" "/repo/../repo/u.py"
        (by decide +kernel) (by decide +kernel) (by decide +kernel) (by decide +kernel)
      refine ⟨_, _, hx, hy, ?_⟩
      rw [hroot, hroot']
      refine (halike (by decide +kernel) (by decide +kernel)
        (List.forall_mem_singleton.mpr ⟨by decide, by decide +kernel⟩)).2 ?_
      exact fun id => ⟨[], hnone _, hnone' _⟩

def relativeImport : Import.Statement :=
  ⟨".u", "", [⟨"x", "", ""⟩], "", "from .u import x", ⟨0, 0⟩, ⟨0, 16⟩, false⟩

theorem survey_relativeImport :
    Survey.of .python "from .u import x\n" = ⟨[], [], [relativeImport]⟩ := by
  have hlanguage : (Syntax.parse .python "from .u import x\n").language = .python := rfl
  simp only [Survey.of, Survey.definitionsOf, Survey.exportsOf, Import.statements, Capture.all,
    Capture.labelled, hlanguage, Catalogue.queries_eq_readChars?, Catalogue.groups,
    Catalogue.python, Catalogue.Python.imports, Catalogue.Python.definitions,
    Catalogue.Python.globals, List.map_cons, List.map_nil]
  repeat rw [String.toList_ofList]
  decide +kernel

theorem unresolved_relative {root m u : String}
    (hpaths : ((allFiles (repository relativeEntries) ⟨openSettings, ⟨[]⟩⟩ root).map
      (Text.replaceChar '\\' '/')).filter isSource = [m, u])
    (hsorted : [m, u].Pairwise fun a b => decide (a ≤ b) = true)
    (hread : readAll (repository relativeEntries) [m, u] =
      ([⟨m, "from .u import x\n"⟩, ⟨u, ""⟩], 0))
    (hm : Language.ofPath? m = some .python) (hu : Language.ofPath? u = some .python) :
    (indexed (repository relativeEntries) ⟨openSettings, ⟨[]⟩⟩ root).2.unresolved =
      (((Index.empty root).addFile
        (Extraction.entities .python m "from .u import x\n" ⟨[], [], [relativeImport]⟩)).addFile
          (Extraction.entities .python u "" ⟨[], [], []⟩)).resolveImports.2 := by
  rw [indexed_of_reading hpaths hsorted hread, Index.add_eq]
  dsimp only
  rw [Index.addFiles_of_survey (f := ⟨m, "from .u import x\n"⟩) hm survey_relativeImport,
    Index.addFiles_of_survey (f := ⟨u, ""⟩) hu Index.survey_empty]
  rfl

/-- A module that is imported from beside it is found, but not if the folder was reached by going up
and down again. -/
theorem not_forall_summary_eq :
    ¬ ∀ (disk : Disk) (here p q : String) (t u : Trail) (settings : Settings)
      (x y : Index × Summary), Path.IsNormal here → IsSpelling disk here p t →
      IsSpelling disk here q u →
      Path.normalize (Path.absolute here p) = Path.normalize (Path.absolute here q) →
      colonFree (Path.absolute here p) → colonFree (Path.absolute here q) →
      (∀ e ∈ t.entries, IsProper e) → index disk here p settings = .ok x →
      index disk here q settings = .ok y → y.2 = x.2 := by
  intro h
  obtain ⟨hdown, -, hup⟩ := isSpelling_repository relativeEntries
  have hproper : ∀ e ∈ (repositoryTrail relativeEntries).entries, IsProper e :=
    List.forall_mem_cons.mpr ⟨⟨by decide, by decide +kernel⟩,
      List.forall_mem_singleton.mpr ⟨by decide, by decide +kernel⟩⟩
  have hsame := h _ "/" "repo" "repo/../repo" _ _ openSettings _ _ (by decide) hdown hup
    (by decide +kernel) (by decide +kernel) (by decide +kernel) hproper hdown.index_openSettings
    hup.index_openSettings
  have hroot : Path.absolute "/" "repo" = "/repo" := by decide +kernel
  have hroot' : Path.absolute "/" "repo/../repo" = "/repo/../repo" := by decide +kernel
  have hfound : (indexed (repository relativeEntries) ⟨openSettings, ⟨[]⟩⟩ "/repo").2.unresolved =
      0 :=
    (unresolved_relative (m := "/repo/m.py") (u := "/repo/u.py") (by decide +kernel)
      (by decide +kernel) (by decide +kernel) (by decide +kernel) (by decide +kernel)).trans
      (by decide +kernel)
  have hlost : (indexed (repository relativeEntries) ⟨openSettings, ⟨[]⟩⟩
      "/repo/../repo").2.unresolved = 1 :=
    (unresolved_relative (m := "/repo/../repo/m.py") (u := "/repo/../repo/u.py") (by decide +kernel)
      (by decide +kernel) (by decide +kernel) (by decide +kernel) (by decide +kernel)).trans
      (by decide +kernel)
  rw [hroot, hroot'] at hsame
  have hcount := congrArg Summary.unresolved hsame
  rw [hfound, hlost] at hcount
  exact absurd hcount (by decide)

end Walk
end CodeAtlas
