import CodeAtlas.Proofs.Index.Scope
import CodeAtlas.Proofs.Related

/-!
# Indices that mirror one another

Two indices can hold the same entities in another form: without counts, with other paths in front,
or beside other files.  As long as entities that stand for one another have such entities below
them, looking for a label and following an import lead from the ones to the others, the same names
are bound to them, and so the names in scope of a file are the same.  Every result that compares
the names of two indices is an instance of this.
-/

namespace CodeAtlas

/-! ## Statements with other paths -/

/-- The imported name with another path of its module. -/
def Import.Name.placed (place : String → String) (n : Name) : Name :=
  { n with subpath := place n.subpath }

/-- The import statement with other paths to which it leads. -/
def Import.Statement.placed (place : String → String) (s : Statement) : Statement :=
  { s with path := place s.path, names := s.names.map (Name.placed place) }

theorem Import.Statement.placed_id : placed id = id := by
  funext s
  have hnames : s.names.map (Name.placed id) = s.names := List.map_id s.names
  rw [placed, hnames]
  rfl

/-- The entity goes by the same names as another one, and imports the same.  Ids are written in
another way, and so are the paths of imports. -/
structure Entity.Resembles (key place : String → String) (e e' : Entity) : Prop where
  id : e'.id = key e.id
  label : e'.label = e.label
  name : e'.name = e.name
  kind : e'.kind = e.kind
  exportable : e'.exportable = e.exportable
  language : e'.language = e.language
  imports : e'.imports = e.imports.map (Import.Statement.placed place)

namespace Index

variable {key place : String → String} {x y : Index}

/-! ## Rewriting the entities of an index -/

/-- The entities of `y` are those of `x` in another form, under other ids. -/
structure Rewrites (key : String → String) (v : Entity → Entity) (x y : Index) : Prop where
  find? : ∀ id, y.find? (key id) = (x.find? id).map v
  children : ∀ e, (v e).children = e.children.map key
  size : y.size = x.size

namespace Rewrites

variable {v : Entity → Entity} (h : Rewrites key v x y)

include h

theorem filterMap_find? (ids : List String) :
    (ids.map key).filterMap y.find? = (ids.filterMap x.find?).map v := by
  rw [List.filterMap_map, List.map_filterMap]
  exact List.filterMap_congr fun id _ => h.find? id

theorem childrenOf (e : Entity) : y.childrenOf (v e) = (x.childrenOf e).map v := by
  rw [Index.childrenOf, Index.childrenOf, h.children, h.filterMap_find?]

theorem topOf (id : String) : y.topOf (key id) = (x.topOf id).map v := by
  rw [Index.topOf, Index.topOf, h.find?]
  cases x.find? id with
  | none => rfl
  | some e => exact h.childrenOf e

theorem below (depth : Nat) (es : List Entity) :
    y.below depth (es.map v) = (x.below depth es).map v := by
  induction depth generalizing es with
  | zero => rfl
  | succ depth ih =>
      rw [Index.below, Index.below, List.flatMap_map, List.map_flatMap]
      simp only [h.childrenOf, ih, List.map_cons]

theorem descendants (id : String) : y.descendants (key id) = (x.descendants id).map v := by
  rw [Index.descendants, Index.descendants, h.topOf, h.size, h.below]

theorem ordered (hfiles : y.files = x.files.map key) (hid : ∀ e, (v e).id = key e.id) :
    y.ordered = x.ordered.map v := by
  rw [Index.ordered, Index.ordered, hfiles, h.filterMap_find?, List.flatMap_map, List.map_flatMap]
  simp only [hid, h.descendants, List.map_cons]

end Rewrites

/-! ## Entities that stand for one another -/

/-- Entities of `x` stand for entities of `y` that resemble them, and so does what is below them. -/
structure Mirrors (key place : String → String) (R : Entity → Entity → Prop) (x y : Index) :
    Prop where
  resembles : ∀ {e e'}, R e e' → e.Resembles key place e'
  isEmpty : ∀ p, (place p).isEmpty = p.isEmpty
  topOf : ∀ {e e'}, R e e' → List.Forall₂ R (x.topOf e.id) (y.topOf e'.id)
  descendants : ∀ {e e'}, R e e' → List.Forall₂ R (x.descendants e.id) (y.descendants e'.id)

/-- The files that an import statement shows stand for one another. -/
structure ShowAlike (R : Entity → Entity → Prop) (place : String → String) (x y : Index)
    (language : Language) (s : Import.Statement) : Prop where
  module : s.isResolved = true →
    List.Forall₂ R (x.filesWithStem s.path) (y.filesWithStem (place s.path))
  folder : s.isResolved = true →
    (s.wildcard = true ∨ s.names = [] ∧ language.importsWholeFiles = true) →
      x.filesWithStem s.path = [] →
        List.Forall₂ R ((x.resolver.filesIn s.path).filterMap x.find?)
          ((y.resolver.filesIn (place s.path)).filterMap y.find?)
  name : ∀ n ∈ s.names, n.subpath ≠ "" →
    List.Forall₂ R (x.filesWithStem n.subpath) (y.filesWithStem (place n.subpath))

/-- The same name is bound to entities that stand for one another. -/
def Bound (R : Entity → Entity → Prop) (b b' : String × String) : Prop :=
  b'.1 = b.1 ∧ ∃ e e', R e e' ∧ b.2 = e.id ∧ b'.2 = e'.id

namespace Mirrors

variable {R : Entity → Entity → Prop} {e e' : Entity} (h : Mirrors key place R x y)

include h

/-! ## Following imports -/

theorem labelledIn? (label : String) (he : R e e') :
    Option.Rel R (x.labelledIn? label e) (y.labelledIn? label e') := by
  have hlabel : ∀ d d', R d d' → (d.label == label) = (d'.label == label) :=
    fun d d' hd => by rw [(h.resembles hd).label]
  rw [Index.labelledIn?, Index.labelledIn?]
  obtain ⟨htop, htop'⟩ | ⟨d, d', htop, htop', hd⟩ :=
    Related.none_or_some (Related.find? hlabel (h.topOf he))
  · rw [htop, htop']
    exact Related.find? hlabel (h.descendants he)
  · rw [htop, htop']
    exact .some hd

theorem importTarget? {files files' : List Entity} (hfiles : List.Forall₂ R files files')
    {n : Import.Name} (hn : n.subpath ≠ "" →
      List.Forall₂ R (x.filesWithStem n.subpath) (y.filesWithStem (place n.subpath))) :
    Option.Rel R (x.importTarget? files n) (y.importTarget? files' (n.placed place)) := by
  have hlabelled : ∀ e e', R e e' →
      Option.Rel R (x.labelledIn? n.name e) (y.labelledIn? n.name e') :=
    fun e e' he => h.labelledIn? n.name he
  have hempty : (n.placed place).subpath.isEmpty = n.subpath.isEmpty := h.isEmpty n.subpath
  rw [Index.importTarget?, Index.importTarget?, hempty]
  obtain ⟨hfound, hfound'⟩ | ⟨e, e', hfound, hfound', he⟩ :=
    Related.none_or_some (Related.findSome? hlabelled hfiles)
  · rw [hfound, Import.Name.placed, hfound']
    dsimp only
    split
    next => exact .none
    next hsubpath =>
      rw [String.isEmpty_iff] at hsubpath
      have hown := hn hsubpath
      obtain ⟨hmodule, hmodule'⟩ | ⟨e, e', hmodule, hmodule', he⟩ :=
        Related.none_or_some (Related.findSome? hlabelled hown)
      · rw [hmodule, hmodule']
        exact Related.head? hown
      · rw [hmodule, hmodule']
        exact .some he
  · rw [hfound, Import.Name.placed, hfound']
    exact .some he

/-! ## Bound names -/

theorem treeBindings (name : String) (he : R e e') :
    List.Forall₂ (Bound R) (x.treeBindings name e) (y.treeBindings name e') := by
  refine .cons ⟨rfl, e, e', he, rfl, rfl⟩ (List.rel_filterMap ?_ (h.descendants he))
  intro d d' hd
  have hname : nameBelow? name e' d' = nameBelow? name e d := by
    rw [nameBelow?, nameBelow?, (h.resembles he).kind, (h.resembles he).label, (h.resembles hd).label]
  dsimp only
  rw [hname]
  cases nameBelow? name e d with
  | none => exact .none
  | some name => exact .some ⟨rfl, d, d', hd, rfl, rfl⟩

theorem labelBindings {es es' : List Entity} (hes : List.Forall₂ R es es') :
    List.Forall₂ (Bound R) (x.labelBindings es) (y.labelBindings es') := by
  refine List.rel_flatMap hes ?_
  intro e e' he
  dsimp only
  rw [(h.resembles he).label]
  exact h.treeBindings e.label he

theorem nameBindings {files files' : List Entity} (hfiles : List.Forall₂ R files files')
    {n : Import.Name} (hn : n.subpath ≠ "" →
      List.Forall₂ R (x.filesWithStem n.subpath) (y.filesWithStem (place n.subpath))) :
    List.Forall₂ (Bound R) (x.nameBindings files n) (y.nameBindings files' (n.placed place)) := by
  rw [Index.nameBindings, Index.nameBindings]
  obtain ⟨htarget, htarget'⟩ | ⟨e, e', htarget, htarget', he⟩ :=
    Related.none_or_some (h.importTarget? hfiles hn)
  · rw [htarget, htarget']
    exact .nil
  · rw [htarget, htarget']
    exact h.treeBindings n.name he

theorem exportableBindings {files files' : List Entity} (hfiles : List.Forall₂ R files files') :
    List.Forall₂ (Bound R)
      (files.flatMap fun f => x.labelBindings ((x.topOf f.id).filter (·.exportable)))
      (files'.flatMap fun f => y.labelBindings ((y.topOf f.id).filter (·.exportable))) := by
  refine List.rel_flatMap hfiles ?_
  intro f f' hf
  refine h.labelBindings (List.rel_filter ?_ (h.topOf hf))
  intro d d' hd
  dsimp only
  rw [(h.resembles hd).exportable]

theorem statementBindings {language : Language} {s : Import.Statement}
    (hs : ShowAlike R place x y language s) :
    List.Forall₂ (Bound R) (x.statementBindings language s)
      (y.statementBindings language (s.placed place)) := by
  have hresolved : (s.placed place).isResolved = s.isResolved := congrArg (!·) (h.isEmpty s.path)
  have hwildcard : (s.placed place).wildcard = s.wildcard := rfl
  have hempty : (s.placed place).names.isEmpty = s.names.isEmpty := List.isEmpty_map
  rw [Index.statementBindings, Index.statementBindings, hresolved, hwildcard, hempty]
  split
  next => exact .nil
  next hresolved =>
    rw [Bool.not_eq_true', Bool.not_eq_false] at hresolved
    have hfiles := hs.module hresolved
    dsimp only
    split
    next hwhole =>
      refine h.exportableBindings ?_
      have hisEmpty : (y.filesWithStem (s.placed place).path).isEmpty =
          (x.filesWithStem s.path).isEmpty := (Related.isEmpty_eq hfiles).symm
      rw [hisEmpty]
      split
      next hnone => exact hs.folder hresolved (by simpa using hwhole) (List.isEmpty_iff.mp hnone)
      next => exact hfiles
    next =>
      split
      next =>
        obtain ⟨hhead, hhead'⟩ | ⟨f, f', hhead, hhead', hf⟩ :=
          Related.none_or_some (Related.head? hfiles)
        · rw [hhead, Import.Statement.placed, hhead']
          exact .nil
        · rw [hhead, Import.Statement.placed, hhead']
          exact h.treeBindings s.scopeToken hf
      next =>
        have hnames : List.Forall₂ (fun n n' => n' = n.placed place ∧ n ∈ s.names) s.names
            (s.placed place).names :=
          List.forall₂_map_right_iff.mpr (List.forall₂_same.mpr fun n hn => ⟨rfl, hn⟩)
        refine List.rel_flatMap hnames ?_
        rintro n _ ⟨rfl, hn⟩
        exact h.nameBindings hfiles (hs.name n hn)

theorem importBindings (he : R e e')
    (hshow : ∀ s ∈ e.imports, ShowAlike R place x y e.language s) :
    List.Forall₂ (Bound R) (x.importBindings e) (y.importBindings e') := by
  rw [Index.importBindings, Index.importBindings, (h.resembles he).imports, (h.resembles he).language, List.flatMap_map]
  have hstatements : List.Forall₂ (fun s s' => s = s' ∧ s ∈ e.imports) e.imports e.imports :=
    List.forall₂_same.mpr fun s hs => ⟨rfl, hs⟩
  refine List.rel_flatMap hstatements ?_
  rintro s _ ⟨rfl, hs⟩
  exact h.statementBindings (hshow s hs)

theorem packageBindings {id id' : String}
    (hpackage : List.Forall₂ (fun f f' => List.Forall₂ R (x.topOf f) (y.topOf f'))
      (x.packageFiles e id) (y.packageFiles e' id')) :
    List.Forall₂ (Bound R) (x.packageBindings e id) (y.packageBindings e' id') :=
  List.rel_flatMap hpackage fun _ _ htop => h.labelBindings htop

/-- Bound names are the same, with ids written in the other way. -/
theorem bindings_eq {bs bs' : List (String × String)} (hbs : List.Forall₂ (Bound R) bs bs') :
    bs' = bs.map fun b => (b.1, key b.2) := by
  rw [← List.map_id' bs']
  refine (Related.map_eq_map ?_ hbs).symm
  rintro ⟨name, -⟩ ⟨-, -⟩ ⟨rfl, e, e', he, rfl, rfl⟩
  rw [(h.resembles he).id]

/-! ## Names in scope -/

variable {id id' : String} (hfile : x.find? id = some e) (hfile' : y.find? id' = some e')
  (he : R e e') (hown : List.Forall₂ R (x.descendants id) (y.descendants id'))
  (hshow : ∀ s ∈ e.imports, ShowAlike R place x y e.language s)
  (hpackage : List.Forall₂ (fun f f' => List.Forall₂ R (x.topOf f) (y.topOf f'))
    (x.packageFiles e id) (y.packageFiles e' id'))

include hfile hfile' he hown hshow hpackage

/-- The names in scope are the same and stand for the same entities, whose ids are written in the
other way. -/
theorem namesIn : y.namesIn id' = (x.namesIn id).mapped key := by
  have hdefined : Names.empty.defineMany (y.descendants id') =
      (Names.empty.defineMany (x.descendants id)).mapped key :=
    Names.defineMany_mapped key Names.empty (hown.imp fun _ _ hd =>
      ⟨(h.resembles hd).label, (h.resembles hd).name, (h.resembles hd).id⟩)
  rw [y.namesIn_eq hfile', x.namesIn_eq hfile, hdefined, ← Names.importMany_mapped,
    List.map_append, ← h.bindings_eq (h.importBindings he hshow),
    ← h.bindings_eq (h.packageBindings hpackage)]

omit hfile' in
/-- What a name in scope stands for has an entity that stands for it. -/
theorem standFor_namesIn : (x.namesIn id).StandFor fun id => ∃ d d', R d d' ∧ d.id = id := by
  rw [x.namesIn_eq hfile]
  refine .importMany (.defineMany (fun key id hid => absurd hid (by simp [Names.find?_empty])) ?_) ?_
  · intro d hd
    obtain ⟨d', -, hdd'⟩ := Related.exists_of_mem hown.flip hd
    exact ⟨d, d', hdd', rfl⟩
  · intro b hb
    obtain ⟨b', -, -, d, d', hd, hid, -⟩ := Related.exists_of_mem
      (List.rel_append (h.importBindings he hshow) (h.packageBindings hpackage)).flip hb
    exact ⟨d, d', hd, hid.symm⟩

end Mirrors

/-! ## Rewriting an index -/

/-- The entities of `y` are those of `x` in another form, and the files of an import are found in
the same way. -/
structure Transports (key place : String → String) (v : Entity → Entity) (x y : Index) : Prop
    extends Rewrites key v x y where
  resembles : ∀ e : Entity, e.Resembles key place (v e)
  injective : Function.Injective key
  isEmpty : ∀ p, (place p).isEmpty = p.isEmpty
  stems : ∀ stem,
    y.resolver.filesWithStem (place stem) = (x.resolver.filesWithStem stem).map key
  folders : ∀ folder, y.resolver.filesIn (place folder) = (x.resolver.filesIn folder).map key

namespace Transports

variable {v : Entity → Entity} (h : Transports key place v x y)

include h

theorem mirrors : Mirrors key place (fun e e' => e' = v e) x y where
  resembles := by
    rintro e _ rfl
    exact h.resembles e
  isEmpty := h.isEmpty
  topOf := by
    rintro e _ rfl
    rw [(h.resembles e).id, h.topOf]
    exact Related.map_right v _
  descendants := by
    rintro e _ rfl
    rw [(h.resembles e).id, h.descendants]
    exact Related.map_right v _

theorem filesWithStem (stem : String) :
    y.filesWithStem (place stem) = (x.filesWithStem stem).map v := by
  rw [Index.filesWithStem, Index.filesWithStem, h.stems, h.filterMap_find?]

theorem showAlike (language : Language) (s : Import.Statement) :
    ShowAlike (fun e e' => e' = v e) place x y language s where
  module _ := by
    rw [h.filesWithStem]
    exact Related.map_right v _
  folder _ _ _ := by
    rw [h.folders, h.filterMap_find?]
    exact Related.map_right v _
  name n _ _ := by
    rw [h.filesWithStem]
    exact Related.map_right v _

theorem importTarget? (files : List Entity) (n : Import.Name) :
    y.importTarget? (files.map v) (n.placed place) = (x.importTarget? files n).map v := by
  refine Related.eq_map_of_rel (h.mirrors.importTarget? (Related.map_right v files) fun _ => ?_)
  rw [h.filesWithStem]
  exact Related.map_right v _

theorem statementBindings (language : Language) (s : Import.Statement) :
    y.statementBindings language (s.placed place) =
      (x.statementBindings language s).map fun b => (b.1, key b.2) :=
  h.mirrors.bindings_eq (h.mirrors.statementBindings (h.showAlike language s))

theorem packageFiles (e : Entity) {id : String}
    (hparent : (Path.parent? (key id)).getD "" = place ((Path.parent? id).getD "")) :
    y.packageFiles (v e) (key id) = (x.packageFiles e id).map key := by
  have hothers : ∀ files : List String, (files.map key).filter (· != key id) =
      (files.filter (· != id)).map key := by
    intro files
    rw [List.filter_map]
    congr 1
    refine List.filter_congr fun f _ => ?_
    rw [Function.comp_apply, Bool.eq_iff_iff, bne_iff_ne, bne_iff_ne, h.injective.ne_iff]
  rw [Index.packageFiles, Index.packageFiles, (h.resembles e).language, hparent, h.folders, hothers,
    ← List.map_nil (f := key), ← apply_ite (List.map key)]
  rfl

theorem namesIn {id : String}
    (hparent : (Path.parent? (key id)).getD "" = place ((Path.parent? id).getD "")) :
    y.namesIn (key id) = (x.namesIn id).mapped key := by
  have hfind := h.find? id
  cases hfile : x.find? id with
  | none =>
      rw [hfile] at hfind
      rw [Index.namesIn, Index.namesIn, hfind, hfile]
      rfl
  | some file =>
      rw [hfile] at hfind
      refine h.mirrors.namesIn hfile hfind rfl ?_ (fun s _ => h.showAlike file.language s) ?_
      · rw [h.descendants]
        exact Related.map_right v _
      · rw [h.packageFiles file hparent, List.forall₂_map_right_iff, List.forall₂_same]
        intro f _
        rw [h.topOf]
        exact Related.map_right v _

end Transports
end Index
end CodeAtlas
