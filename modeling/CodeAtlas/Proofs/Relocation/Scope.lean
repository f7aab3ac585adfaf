import CodeAtlas.Proofs.Index.Mirror
import CodeAtlas.Proofs.Relocation.Extraction

/-!
# Names in scope below a front

An index whose ids and paths are all written from a folder on becomes the index of the folder when
a front is put before them.  Everything that is looked up in it then gets the front: the entities
below an id, the files to which an import leads, and what the names in scope of a file stand for.
The names themselves do not change.
-/

namespace CodeAtlas

variable {front root : String}

/-! ## Names with a front -/

/-- The names with a front before the ids that they stand for. -/
def Names.under (front : String) (n : Names) : Names := ⟨n.table.rekey id (Path.under front)⟩

theorem Names.resolve?_under (n : Names) (token : String) :
    (n.under front).resolve? token = (n.resolve? token).map (Path.under front) :=
  n.resolve?_mapped (Path.under front) token

/-! ## Statements with a front -/

namespace Import.Statement

variable (s : Statement)

@[simp] theorem renamings_under : (s.under front).renamings = s.renamings := by
  simp only [renamings, under, List.filterMap_map, List.isEmpty_map]
  rfl

theorem isResolved_under (h : Path.IsFront front) : (s.under front).isResolved = s.isResolved :=
  congrArg (!·) (h.isEmpty_folderUnder s.path)

end Import.Statement

/-! ## Going down below a front -/

namespace Index

/-- The index of a folder with a front before all paths and ids. -/
def under (root front : String) (x : Index) : Index where
  root := root
  entities := x.entities.rekey (Path.under front) (Entity.under front)
  files := x.files.map (Path.under front)
  uses := x.uses.rekey (Path.under front) (Table.rekey (Path.under front) id)

@[simp] theorem files_under (x : Index) :
    (x.under root front).files = x.files.map (Path.under front) := rfl

@[simp] theorem size_under (x : Index) : (x.under root front).size = x.size :=
  Table.size_rekey ..

section Descent

variable (h : Path.IsFront front) (x : Index)

include h

theorem rewrites_under :
    Rewrites (Path.under front) (Entity.under front) x (x.under root front) where
  find? id := Table.find?_rekey h.strictMono_under (Entity.under front) x.entities id
  children _ := rfl
  size := size_under x

theorem find?_under (id : String) :
    (x.under root front).find? (Path.under front id) = (x.find? id).map (Entity.under front) :=
  (x.rewrites_under h).find? id

theorem childrenOf_under (e : Entity) :
    (x.under root front).childrenOf (e.under front) =
      (x.childrenOf e).map (Entity.under front) :=
  (x.rewrites_under h).childrenOf e

theorem descendants_under (id : String) :
    (x.under root front).descendants (Path.under front id) =
      (x.descendants id).map (Entity.under front) :=
  (x.rewrites_under h).descendants id

theorem ordered_under :
    (x.under root front).ordered = x.ordered.map (Entity.under front) :=
  (x.rewrites_under h).ordered (files_under x) Entity.id_under

end Descent

/-! ## What imports lead to below a front -/

/-- The files of the index are written from a folder on, and their languages are known. -/
def HasFiles (x : Index) : Prop := ∀ f ∈ x.files, Path.IsFile f

section Scope

variable (h : Path.IsFront front) {x : Index} (hx : x.HasFiles)

include h

theorem files_resolver_under (x : Index) :
    (x.under root front).resolver.files = x.resolver.files.map (Path.under front) :=
  Import.sorted_map h.strictMono_under x.files

include hx

theorem HasFiles.filesWithStem_under (stem : String) :
    (x.under root front).resolver.filesWithStem (Path.folderUnder front stem) =
      (x.resolver.filesWithStem stem).map (Path.under front) := by
  rw [Import.Resolver.filesWithStem, Import.Resolver.filesWithStem, files_resolver_under h,
    List.filter_map]
  congr 1
  refine List.filter_congr fun f hf => ?_
  exact (hx f (Import.mem_sorted.mp hf)).withoutExtension_under_beq h stem

theorem HasFiles.filesIn_under (folder : String) :
    (x.under root front).resolver.filesIn (Path.folderUnder front folder) =
      (x.resolver.filesIn folder).map (Path.under front) := by
  rw [Import.Resolver.filesIn, Import.Resolver.filesIn, files_resolver_under h, List.filter_map]
  congr 1
  refine List.filter_congr fun f hf => ?_
  exact (hx f (Import.mem_sorted.mp hf)).any_parent?_under h folder

theorem HasFiles.transports_under :
    Transports (Path.under front) (Path.folderUnder front) (Entity.under front) x
      (x.under root front) where
  toRewrites := x.rewrites_under h
  resembles _ := ⟨rfl, rfl, rfl, rfl, rfl, rfl, rfl⟩
  injective := h.under_injective
  isEmpty := h.isEmpty_folderUnder
  stems := hx.filesWithStem_under h
  folders := hx.filesIn_under h

/-! ## Names in scope -/

/-- A front before the paths of an index is a front before what the names in scope stand for. -/
theorem HasFiles.namesIn_under {id : String} (hid : Path.IsFile id) :
    (x.under root front).namesIn (Path.under front id) = (x.namesIn id).under front := by
  refine (hx.transports_under h).namesIn ?_
  rw [hid.parent?_under h]
  cases Path.parent? id with
  | none => exact (Path.folderUnder_of_not_isRooted rfl).symm
  | some folder => rfl

end Scope

end Index
end CodeAtlas
