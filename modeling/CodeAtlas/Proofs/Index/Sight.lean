import CodeAtlas.Proofs.Import.Sorted
import CodeAtlas.Proofs.Index.Graph
import CodeAtlas.Proofs.Index.Uncounted
import CodeAtlas.Proofs.Uses

/-!
# What a file sees

The names in scope of a file come from its own entities, from the files that its imports lead to,
and in a package from the files beside it.  So a file sees nothing but entities of these files, and
in two indices that store these files alike it sees the same.

Both are one statement about two indices.  Entities that the two hold for the same extracted entity
are *twins*.  Going down, looking for a label and following an import lead from twins to twins, and
twins are bound to names in the same way.  With one index in both places this says which entities a
name can stand for; with two it says that names, and hence uses, do not depend on the rest.
-/

namespace CodeAtlas

/-! ## Files that imports lead to -/

/-- An import statement leads to a file: as the module, as part of the folder that is imported as a
whole, or as the module of an imported name. -/
inductive Import.Statement.LeadsTo (r : Import.Resolver) (language : Language)
    (s : Import.Statement) (path : String) : Prop
  | module (hresolved : s.isResolved = true) (hpath : path ∈ r.filesWithStem s.path)
  | folder (hwhole : s.wildcard = true ∨ s.names = [] ∧ language.importsWholeFiles = true)
      (hpath : path ∈ r.filesIn s.path)
  | name (n : Import.Name) (hn : n ∈ s.names) (hsubpath : n.subpath ≠ "")
      (hpath : path ∈ r.filesWithStem n.subpath)

/-- A file leads to another one by an import statement, or as part of the same package. -/
inductive Entity.LeadsTo (r : Import.Resolver) (file : Entity) (path : String) : Prop
  | statement (s : Import.Statement) (hs : s ∈ file.imports)
      (hleads : s.LeadsTo r file.language path)
  | package (hjava : file.language = .java)
      (hpath : path ∈ r.filesIn ((Path.parent? file.id).getD ""))

/-- An import statement shows a file: as above, but of a folder only when no file has its path as
the stem. -/
inductive Import.Statement.Shows (r : Import.Resolver) (language : Language)
    (s : Import.Statement) (path : String) : Prop
  | module (hresolved : s.isResolved = true) (hpath : path ∈ r.filesWithStem s.path)
  | folder (hresolved : s.isResolved = true)
      (hwhole : s.wildcard = true ∨ s.names = [] ∧ language.importsWholeFiles = true)
      (hnone : r.filesWithStem s.path = []) (hpath : path ∈ r.filesIn s.path)
  | name (n : Import.Name) (hn : n ∈ s.names) (hsubpath : n.subpath ≠ "")
      (hpath : path ∈ r.filesWithStem n.subpath)

/-- A file sees another one by an import statement, or as part of the same package. -/
inductive Entity.Sees (r : Import.Resolver) (file : Entity) (path : String) : Prop
  | statement (s : Import.Statement) (hs : s ∈ file.imports)
      (hshows : s.Shows r file.language path)
  | package (hjava : file.language = .java)
      (hpath : path ∈ r.filesIn ((Path.parent? file.id).getD ""))

theorem Entity.Sees.leadsTo {r : Import.Resolver} {file : Entity} {path : String}
    (h : file.Sees r path) : file.LeadsTo r path := by
  rcases h with ⟨s, hs, hshows⟩ | ⟨hjava, hpath⟩
  · refine .statement s hs ?_
    rcases hshows with ⟨hresolved, hpath⟩ | ⟨-, hwhole, -, hpath⟩ | ⟨n, hn, hsubpath, hpath⟩
    · exact .module hresolved hpath
    · exact .folder hwhole hpath
    · exact .name n hn hsubpath hpath
  · exact .package hjava hpath

theorem Entity.leadsTo_uncounted {r : Import.Resolver} {file : Entity} {path : String} :
    file.uncounted.LeadsTo r path ↔ file.LeadsTo r path := by
  constructor
  · rintro (⟨s, hs, hleads⟩ | ⟨hjava, hpath⟩)
    · exact .statement s hs hleads
    · exact .package hjava hpath
  · rintro (⟨s, hs, hleads⟩ | ⟨hjava, hpath⟩)
    · exact .statement s hs hleads
    · exact .package hjava hpath

/-! ## Uses without counts -/

theorem Uses.find_uncounted (s : Scope) (e : Entity) (children : List Entity)
    (parent : Option Entity) :
    Uses.find s e.uncounted (children.map Entity.uncounted) (parent.map Entity.uncounted) =
      Uses.find s e children parent := by
  rw [find, find, analysed, analysed, prepare_of_textual (v := Entity.uncounted) fun _ => rfl]
  rfl

namespace Subtrees

variable {parent : String} {ids : List String} {es : List Entity}

/-- Below every entity of subtrees there are subtrees again. -/
theorem exists_below (h : Subtrees parent ids es) {e : Entity} (he : e ∈ es) :
    ∃ inner, Subtrees e.id e.children inner ∧ inner.Sublist es := by
  induction h with
  | nil => exact absurd he (by simp)
  | @cons parent d ids inner rest _ hinner _ ihinner ihrest =>
      have hsubInner : inner.Sublist (d :: (inner ++ rest)) :=
        (List.sublist_append_left inner rest).cons d
      have hsubRest : rest.Sublist (d :: (inner ++ rest)) :=
        (List.sublist_append_right inner rest).cons d
      rcases List.mem_cons.mp he with rfl | he
      · exact ⟨inner, hinner, hsubInner⟩
      · rcases List.mem_append.mp he with he | he
        · obtain ⟨inner', hinner', hsub⟩ := ihinner he
          exact ⟨inner', hinner', hsub.trans hsubInner⟩
        · obtain ⟨inner', hinner', hsub⟩ := ihrest he
          exact ⟨inner', hinner', hsub.trans hsubRest⟩

end Subtrees

theorem FileBlock.exists_below (b : FileBlock) {e : Entity} (he : e ∈ b.entities) :
    ∃ inner, Subtrees e.id e.children inner ∧ inner.Sublist b.below := by
  rcases List.mem_cons.mp he with rfl | he
  · exact ⟨b.below, b.tree.subtrees, .refl _⟩
  · exact b.tree.subtrees.exists_below he

namespace Index

variable {x y : Index} {blocks blocks' : List FileBlock} {S : String → Prop}

/-! ## Twins -/

/-- Two indices that know the same files, and that store some of them alike but for what they
count. -/
structure Alike (x y : Index) (blocks blocks' : List FileBlock) (S : String → Prop) : Prop where
  left : Stores x blocks
  right : Stores y blocks'
  resolver : y.resolver = x.resolver
  mem : ∀ b ∈ blocks, S b.file.id → b ∈ blocks'
  current : ∀ b ∈ blocks, S b.file.id → ∀ d ∈ b.entities,
    (x.current d).uncounted = (y.current d).uncounted

/-- What two indices hold for the same extracted entity of one of the files. -/
def Twins (x y : Index) (blocks : List FileBlock) (S : String → Prop) (e e' : Entity) : Prop :=
  ∃ b ∈ blocks, S b.file.id ∧ ∃ d ∈ b.entities, e = x.current d ∧ e' = y.current d

theorem Stores.childrenOf_current (h : Stores x blocks) {b : FileBlock} (hb : b ∈ blocks)
    {d : Entity} (hd : d ∈ b.entities) :
    x.childrenOf (x.current d) = (namingParent d.id b.entities).map x.current := by
  have hchildren : d.children = (namingParent d.id b.entities).map (·.id) :=
    (b.tree.namingParent_id hd).symm
  rw [childrenOf, h.children_current (mem_entitiesOf hb hd), hchildren, List.filterMap_map,
    ← List.filterMap_eq_map]
  apply List.filterMap_congr
  intro e he
  exact h.find?_eq (mem_entitiesOf hb (List.mem_of_mem_filter he))

/-- Files are stored, so that none has a stem when none of the stored ones has it. -/
theorem Stores.filesWithStem_eq_nil (h : Stores x blocks) {stem : String}
    (hnil : x.filesWithStem stem = []) : x.resolver.filesWithStem stem = [] := by
  rw [filesWithStem, List.filterMap_eq_nil_iff] at hnil
  rw [List.eq_nil_iff_forall_not_mem]
  intro id hid
  have hstored : id ∈ blocks.map (·.file.id) :=
    h.files ▸ Import.mem_sorted.mp (List.mem_of_mem_filter hid)
  obtain ⟨b, hb, rfl⟩ := List.mem_map.mp hstored
  have hfind := h.find?_eq (mem_entitiesOf hb b.file_mem)
  exact absurd (hnil b.file.id hid) (by rw [hfind]; simp)

namespace Alike

variable {e e' : Entity}

theorem refl (h : Stores x blocks) (S : String → Prop) : Alike x x blocks blocks S :=
  ⟨h, h, rfl, fun _ hb _ => hb, fun _ _ _ _ _ => rfl⟩

theorem uncounted_eq (h : Alike x y blocks blocks' S) (he : Twins x y blocks S e e') :
    e.uncounted = e'.uncounted := by
  obtain ⟨b, hb, hS, d, hd, rfl, rfl⟩ := he
  exact h.current b hb hS d hd

/-- Twins agree in everything that is not counted. -/
theorem view_eq {α : Type} (h : Alike x y blocks blocks' S) (he : Twins x y blocks S e e')
    (view : Entity → α) (hview : ∀ d : Entity, view d.uncounted = view d) : view e = view e' := by
  rw [← hview e, h.uncounted_eq he, hview]

theorem id_eq (h : Alike x y blocks blocks' S) (he : Twins x y blocks S e e') : e.id = e'.id :=
  h.view_eq he (·.id) fun _ => rfl

theorem find?_eq (h : Alike x y blocks blocks' S) (he : Twins x y blocks S e e') :
    x.find? e.id = some e ∧ y.find? e'.id = some e' := by
  obtain ⟨b, hb, hS, d, hd, rfl, rfl⟩ := he
  have hleft := mem_entitiesOf hb hd
  have hright := mem_entitiesOf (h.mem b hb hS) hd
  rw [h.left.id_current hleft, h.right.id_current hright]
  exact ⟨h.left.find?_eq hleft, h.right.find?_eq hright⟩

/-- Extracted entities of a file have twins. -/
theorem map_current (_ : Alike x y blocks blocks' S) {b : FileBlock} (hb : b ∈ blocks)
    (hS : S b.file.id) {ds : List Entity} (hds : ∀ d ∈ ds, d ∈ b.entities) :
    List.Forall₂ (Twins x y blocks S) (ds.map x.current) (ds.map y.current) := by
  rw [List.forall₂_map_left_iff, List.forall₂_map_right_iff, List.forall₂_same]
  intro d hd
  exact ⟨b, hb, hS, d, hds d hd, rfl, rfl⟩

/-! ## Going down -/

theorem childrenOf (h : Alike x y blocks blocks' S) (he : Twins x y blocks S e e') :
    List.Forall₂ (Twins x y blocks S) (x.childrenOf e) (y.childrenOf e') := by
  obtain ⟨b, hb, hS, d, hd, rfl, rfl⟩ := he
  rw [h.left.childrenOf_current hb hd, h.right.childrenOf_current (h.mem b hb hS) hd]
  exact h.map_current hb hS fun c hc => List.mem_of_mem_filter hc

theorem uncounted_parent (h : Alike x y blocks blocks' S) (he : Twins x y blocks S e e') :
    (e.parent.bind x.find?).map Entity.uncounted =
      (e'.parent.bind y.find?).map Entity.uncounted := by
  have hparent : e.parent = e'.parent := h.view_eq he (·.parent) fun _ => rfl
  rw [← hparent]
  obtain ⟨b, hb, hS, d, hd, rfl, -⟩ := he
  have hb' := h.mem b hb hS
  rw [h.left.current_keeps (mem_entitiesOf hb hd) (·.parent) fun _ => rfl]
  cases hq : d.parent with
  | none => rfl
  | some q =>
      obtain ⟨p, hp, rfl⟩ := List.mem_map.mp (parent_mem_ids hd hq)
      rw [Option.bind_some, Option.bind_some, h.left.find?_eq (mem_entitiesOf hb hp),
        h.right.find?_eq (mem_entitiesOf hb' hp), Option.map_some, Option.map_some,
        h.current b hb hS p hp]

theorem topOf (h : Alike x y blocks blocks' S) (he : Twins x y blocks S e e') :
    List.Forall₂ (Twins x y blocks S) (x.topOf e.id) (y.topOf e'.id) := by
  obtain ⟨hleft, hright⟩ := h.find?_eq he
  rw [Index.topOf, Index.topOf, hleft, hright]
  exact h.childrenOf he

theorem descendants (h : Alike x y blocks blocks' S) (he : Twins x y blocks S e e') :
    List.Forall₂ (Twins x y blocks S) (x.descendants e.id) (y.descendants e'.id) := by
  obtain ⟨b, hb, hS, d, hd, rfl, rfl⟩ := he
  obtain ⟨inner, hinner, hsub⟩ := b.exists_below hd
  have hb' := h.mem b hb hS
  rw [h.left.id_current (mem_entitiesOf hb hd), h.right.id_current (mem_entitiesOf hb' hd),
    h.left.descendants_of_subtrees hb hd hinner hsub,
    h.right.descendants_of_subtrees hb' hd hinner hsub]
  exact h.map_current hb hS fun c hc => List.mem_cons_of_mem b.file (hsub.subset hc)

/-! ## Following imports -/

/-- A known file has twins, if it is among those that are stored alike. -/
theorem exists_twins (h : Alike x y blocks blocks' S) {id : String}
    (hid : id ∈ x.resolver.files) (hS : S id) :
    ∃ e e', Twins x y blocks S e e' ∧ e.id = id ∧ e'.id = id := by
  have hstored : id ∈ blocks.map (·.file.id) := h.left.files ▸ Import.mem_sorted.mp hid
  obtain ⟨b, hb, rfl⟩ := List.mem_map.mp hstored
  refine ⟨x.current b.file, y.current b.file, ⟨b, hb, hS, b.file, b.file_mem, rfl, rfl⟩, ?_, ?_⟩
  · exact h.left.id_current (mem_entitiesOf hb b.file_mem)
  · exact h.right.id_current (mem_entitiesOf (h.mem b hb hS) b.file_mem)

theorem filterMap_find? (h : Alike x y blocks blocks' S) {ids : List String}
    (hids : ∀ id ∈ ids, id ∈ x.resolver.files ∧ S id) :
    List.Forall₂ (Twins x y blocks S) (ids.filterMap x.find?) (ids.filterMap y.find?) := by
  have hfiles : List.Forall₂ (fun id id' => id = id' ∧ id ∈ x.resolver.files ∧ S id) ids ids :=
    List.forall₂_same.mpr fun id hid => ⟨rfl, hids id hid⟩
  refine List.rel_filterMap ?_ hfiles
  rintro id _ ⟨rfl, hid, hS⟩
  obtain ⟨e, e', he, heid, heid'⟩ := h.exists_twins hid hS
  obtain ⟨hleft, hright⟩ := h.find?_eq he
  rw [← heid, hleft, heid, ← heid', hright]
  exact .some he

theorem filesWithStem (h : Alike x y blocks blocks' S) {stem : String}
    (hstem : ∀ id ∈ x.resolver.filesWithStem stem, S id) :
    List.Forall₂ (Twins x y blocks S) (x.filesWithStem stem) (y.filesWithStem stem) := by
  rw [Index.filesWithStem, Index.filesWithStem, h.resolver]
  exact h.filterMap_find? fun id hid => ⟨List.mem_of_mem_filter hid, hstem id hid⟩

theorem mirrors (h : Alike x y blocks blocks' S) : Mirrors id id (Twins x y blocks S) x y where
  resembles he := resembles_of_uncounted (h.uncounted_eq he).symm
  isEmpty _ := rfl
  topOf := h.topOf
  descendants := h.descendants

theorem showAlike (h : Alike x y blocks blocks' S) {language : Language} {s : Import.Statement}
    (hs : ∀ id, s.Shows x.resolver language id → S id) :
    ShowAlike (Twins x y blocks S) id x y language s where
  module hresolved := h.filesWithStem fun id hid => hs id (.module hresolved hid)
  folder hresolved hwhole hnil := by
    have hnone := h.left.filesWithStem_eq_nil hnil
    rw [h.resolver]
    exact h.filterMap_find? fun id hid =>
      ⟨List.mem_of_mem_filter hid, hs id (.folder hresolved hwhole hnone hid)⟩
  name n hn hsubpath := h.filesWithStem fun id hid => hs id (.name n hn hsubpath hid)

theorem packageFiles (h : Alike x y blocks blocks' S) (he : Twins x y blocks S e e')
    (hsees : ∀ id, e.Sees x.resolver id → S id) :
    List.Forall₂ (fun f f' => List.Forall₂ (Twins x y blocks S) (x.topOf f) (y.topOf f'))
      (x.packageFiles e e.id) (y.packageFiles e' e'.id) := by
  have hfiles : y.packageFiles e' e'.id = x.packageFiles e e.id := by
    have hlanguage : e.language = e'.language := h.view_eq he (·.language) fun _ => rfl
    rw [Index.packageFiles, Index.packageFiles, h.resolver, hlanguage, h.id_eq he]
  rw [hfiles, List.forall₂_same]
  intro id hid
  have hknown : id ∈ x.resolver.files ∧ S id := by
    rw [Index.packageFiles] at hid
    split at hid
    · next hjava =>
      have hfolder := List.mem_of_mem_filter hid
      exact ⟨List.mem_of_mem_filter hfolder, hsees id (.package (by simpa using hjava) hfolder)⟩
    · exact absurd hid (by simp)
  obtain ⟨f, f', hf, hfid, hfid'⟩ := h.exists_twins hknown.1 hknown.2
  have htop := h.topOf hf
  rwa [hfid, hfid'] at htop

/-! ## Names in scope -/

/-- The names in scope of a file are the same, if it sees files that are stored alike. -/
theorem namesIn (h : Alike x y blocks blocks' S) (he : Twins x y blocks S e e')
    (hsees : ∀ id, e.Sees x.resolver id → S id) : x.namesIn e.id = y.namesIn e'.id := by
  obtain ⟨hleft, hright⟩ := h.find?_eq he
  rw [h.mirrors.namesIn hleft hright he (h.descendants he)
    (fun s hs => h.showAlike fun id hid => hsees id (.statement s hs hid))
    (h.packageFiles he hsees), Names.mapped_id]

/-- What a name in scope can stand for: an entity of the file or of one that it sees. -/
theorem standFor_namesIn (h : Alike x y blocks blocks' S) (he : Twins x y blocks S e e')
    (hsees : ∀ id, e.Sees x.resolver id → S id) :
    (x.namesIn e.id).StandFor fun id => ∃ d d', Twins x y blocks S d d' ∧ d.id = id :=
  h.mirrors.standFor_namesIn (h.find?_eq he).1 he (h.descendants he)
    (fun s hs => h.showAlike fun id hid => hsees id (.statement s hs hid)) (h.packageFiles he hsees)

/-! ## Uses -/

/-- The uses of a file are the same, if it sees files that are stored alike. -/
theorem usesInFile (h : Alike x y blocks blocks' S) (he : Twins x y blocks S e e')
    (hsees : ∀ id, e.Sees x.resolver id → S id) : x.usesInFile e.id = y.usesInFile e'.id := by
  obtain ⟨hleft, hright⟩ := h.find?_eq he
  have hlanguage : e.language = e'.language := h.view_eq he (·.language) fun _ => rfl
  have himports : e.imports = e'.imports := h.view_eq he (·.imports) fun _ => rfl
  rw [Index.usesInFile, Index.usesInFile, hleft, hright]
  dsimp only
  rw [h.namesIn he hsees, hlanguage, himports]
  congr 1
  have hall := List.Forall₂.cons he (h.descendants he)
  rw [← List.forall₂_eq_eq_eq]
  refine List.rel_map ?_ hall
  intro d d' hd
  have hchildren : (x.childrenOf d).map Entity.uncounted =
      (y.childrenOf d').map Entity.uncounted := by
    rw [← List.forall₂_eq_eq_eq]
    exact List.rel_map (fun _ _ hc => h.uncounted_eq hc) (h.childrenOf hd)
  dsimp only
  rw [← Uses.find_uncounted, h.uncounted_eq hd, hchildren, h.uncounted_parent hd,
    Uses.find_uncounted, h.id_eq hd]

/-- Uses are found in the entities of the file, and lead to entities of it or of files that it
sees. -/
theorem mem_usesInFile (h : Alike x y blocks blocks' S) (he : Twins x y blocks S e e')
    (hsees : ∀ id, e.Sees x.resolver id → S id) {found : String × Table (List Nat)}
    (hfound : found ∈ x.usesInFile e.id) :
    (∃ d ∈ e :: x.descendants e.id, found.1 = d.id) ∧
      ∀ target ∈ found.2.keys, ∃ d d', Twins x y blocks S d d' ∧ d.id = target := by
  rw [Index.usesInFile, (h.find?_eq he).1] at hfound
  obtain ⟨d, hd, rfl⟩ := List.mem_map.mp (List.mem_of_mem_filter hfound)
  refine ⟨⟨d, hd, rfl⟩, ?_⟩
  intro target htarget
  exact Uses.target_of_mem (h.standFor_namesIn he hsees) htarget

end Alike
end Index
end CodeAtlas
