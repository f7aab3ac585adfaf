import CodeAtlas.Proofs.Import.Blind
import CodeAtlas.Proofs.Relocation.Paths

/-!
# Extraction below a front

The entities of a file depend on the path of the file through their ids only.  With a front before
the path, every id gets the same front, and so do the ids by which entities name their parents and
children; no text and no degree changes.  Each step of an extraction commutes with the front, and
hence the whole of it does.
-/

namespace CodeAtlas

variable {front : String}

/-! ## Entities with a front -/

/-- The imported name with a front before the path of its module. -/
def Import.Name.under (front : String) (n : Name) : Name :=
  { n with subpath := Path.folderUnder front n.subpath }

/-- The import statement with a front before the paths to which it leads. -/
def Import.Statement.under (front : String) (s : Statement) : Statement :=
  { s with path := Path.folderUnder front s.path, names := s.names.map (Name.under front) }

theorem Import.Statement.under_empty : Statement.under "" = id := by
  funext s
  have hname : Name.under "" = id := funext fun n => by
    rw [Name.under, Path.folderUnder_empty]
    rfl
  rw [under, Path.folderUnder_empty, hname, List.map_id]
  rfl

/-- The entity with a front before all paths and ids. -/
def Entity.under (front : String) (e : Entity) : Entity :=
  { e with
    id := Path.under front e.id
    parent := e.parent.map (Path.under front)
    children := e.children.map (Path.under front)
    imports := e.imports.map (Import.Statement.under front) }

namespace Entity

variable (e : Entity)

@[simp] theorem id_under : (e.under front).id = Path.under front e.id := rfl

@[simp] theorem kind_under : (e.under front).kind = e.kind := rfl

@[simp] theorem name_under : (e.under front).name = e.name := rfl

@[simp] theorem label_under : (e.under front).label = e.label := rfl

@[simp] theorem language_under : (e.under front).language = e.language := rfl

@[simp] theorem span_under : (e.under front).span = e.span := rfl

@[simp] theorem imports_under :
    (e.under front).imports = e.imports.map (Import.Statement.under front) := rfl

@[simp] theorem parent_under : (e.under front).parent = e.parent.map (Path.under front) := rfl

@[simp] theorem children_under : (e.under front).children = e.children.map (Path.under front) := rfl

@[simp] theorem signature_under : (e.under front).signature = e.signature := rfl

theorem spliceHeader_under (header : String) :
    (e.spliceHeader header).under front = (e.under front).spliceHeader header := rfl

theorem filePath_under (h : Path.IsFront front) :
    (e.under front).filePath = Path.under front e.filePath :=
  h.beforeColons_under e.id

end Entity

theorem Import.Statement.Fresh.under_eq {s : Statement} (h : s.Fresh) (front : String) :
    s.under front = s := by
  have hempty : Path.folderUnder front "" = "" := Path.folderUnder_of_not_isRooted rfl
  have hnames : s.names.map (Name.under front) = s.names := by
    conv_rhs => rw [← List.map_id s.names]
    refine List.map_congr_left fun n hn => ?_
    rw [Name.under, h.2 n hn, hempty, ← h.2 n hn, id]
  rw [under, hnames, h.1, hempty, ← h.1]

namespace Extraction

open Survey (Definition Part)

/-- What stands behind a double colon is not part of a path. -/
theorem under_append_colons (front path name : String) :
    Path.under front (path ++ "::" ++ name) = Path.under front path ++ "::" ++ name := by
  rw [String.append_assoc, Path.under_append _ _ (by simp [Path.isRooted]), String.append_assoc]

theorem addPart_under (path content : String) (e : Entity) (p : Part) :
    addPart (Path.under front path) content (e.under front) p =
      (addPart path content e p).under front := by
  simp only [addPart, ← under_append_colons]
  split
  next => rfl
  next =>
    rw [apply_ite (Entity.under front)]
    rfl
  next =>
    rw [apply_ite (Entity.under front), apply_ite (Entity.under front)]
    rfl
  next =>
    rw [apply_ite (Entity.under front)]
    rfl
  next => rfl

theorem entity_under (language : Language) (path content : String) (d : Definition) :
    entity language (Path.under front path) content d =
      (entity language path content d).under front := by
  have hparts : ∀ e : Entity, d.ownParts.foldl (addPart (Path.under front path) content)
      (e.under front) = (d.ownParts.foldl (addPart path content) e).under front := fun e =>
    List.foldl_hom (Entity.under front) fun e p => addPart_under path content e p
  have howned : ∀ e : Entity,
      addOwned content (e.under front) d.owned = (addOwned content e d.owned).under front := by
    intro e
    cases d.owned <;> rfl
  have hentity : entityOf language (Path.under front path) content d =
      (entityOf language path content d).under front := by
    rw [entityOf, entityOf, ← howned, ← hparts]
    rfl
  rw [entity, entity, hentity]
  exact List.foldl_hom (Entity.under front) fun _ _ => rfl

end Extraction

/-! ## Forests with a front -/

/-- The cell with a front before the ids of its entity. -/
def Cell.under (front : String) (c : Cell) : Cell := { c with entity := c.entity.under front }

namespace Forest

/-- The forest with a front before all ids. -/
def under (front : String) (f : Forest) : Forest := ⟨f.cells.map (Cell.under front)⟩

variable (f : Forest)

@[simp] theorem size_under : (f.under front).size = f.size := List.length_map ..

@[simp] theorem cell?_under (i : Nat) :
    (f.under front).cell? i = (f.cell? i).map (Cell.under front) :=
  List.getElem?_map ..

@[simp] theorem entity?_under (i : Nat) :
    (f.under front).entity? i = (f.entity? i).map (Entity.under front) := by
  rw [entity?, entity?, cell?_under, Option.map_map, Option.map_map]
  rfl

@[simp] theorem parent?_under (i : Nat) : (f.under front).parent? i = f.parent? i := by
  rw [parent?, parent?, cell?_under]
  cases f.cell? i <;> rfl

@[simp] theorem children_under (i : Nat) : (f.under front).children i = f.children i := by
  rw [children, children, cell?_under]
  cases f.cell? i <;> rfl

/-- Changes that agree below a front lead to forests that agree below it. -/
theorem under_modify_congr (i : Nat) {g g' : Cell → Cell}
    (hg : ∀ c : Cell, (g c).under front = g' (c.under front)) :
    (f.modifyCell i g).under front = (f.under front).modifyCell i g' := by
  rw [modifyCell, modifyCell, under, under]
  congr 1
  apply List.ext_getElem?
  intro j
  simp only [List.getElem?_modify, List.getElem?_map]
  cases f.cells[j]? with
  | none => rfl
  | some c =>
      by_cases hij : i = j
      · simp [hij, hg]
      · simp [hij]

theorem under_modifyCell (i : Nat) {g : Cell → Cell}
    (hg : ∀ c : Cell, (g c).under front = g (c.under front)) :
    (f.modifyCell i g).under front = (f.under front).modifyCell i g :=
  under_modify_congr f i hg

theorem under_modify (i : Nat) {g : Entity → Entity}
    (hg : ∀ e : Entity, (g e).under front = g (e.under front)) :
    (f.modify i g).under front = (f.under front).modify i g :=
  under_modify_congr f i fun c => congrArg (fun e : Entity => { c with entity := e }) (hg c.entity)

theorem under_push (e : Entity) :
    (f.push e).under front = (f.under front).push (e.under front) := by
  rw [push, push, under, under, List.map_append]
  rfl

theorem under_attach (p c : Nat) : (f.attach p c).under front = (f.under front).attach p c := by
  simp only [attach]
  rw [under_modify, under_modify, under_modifyCell, under_modifyCell] <;> exact fun _ => rfl

theorem under_detach (p c : Nat) : (f.detach p c).under front = (f.under front).detach p c := by
  simp only [detach, children_under]
  split
  next => rw [under_modifyCell, under_modify, under_modify, under_modifyCell] <;> exact fun _ => rfl
  next => rfl

@[simp] theorem isFree_under (i : Nat) : (f.under front).isFree i = f.isFree i := by
  rw [isFree, isFree, parent?_under]
  cases f.parent? i with
  | none => rfl
  | some p =>
      dsimp only
      rw [entity?_under, Option.any_map]
      rfl

theorem claimedBy_under (h : Path.IsFront front) (e owner : Entity) :
    (claimedBy e owner).under front = claimedBy (e.under front) (owner.under front) := by
  simp only [claimedBy, e.filePath_under h, Entity.kind_under, Entity.name_under,
    ← Extraction.under_append_colons]
  split <;> rfl

theorem under_relate (h : Path.IsFront front) (i candidate : Nat) :
    (f.relate i candidate).1.under front = ((f.under front).relate i candidate).1 := by
  rw [relate, relate, entity?_under, entity?_under]
  cases f.entity? i with
  | none => rfl
  | some e =>
      cases f.entity? candidate with
      | none => rfl
      | some owner =>
          have hclaim : ∀ g : Forest, (g.modify i (claimedBy · owner)).under front =
              (g.under front).modify i (claimedBy · (owner.under front)) := fun g =>
            under_modify_congr g i fun c =>
              congrArg (fun e : Entity => { c with entity := e }) (claimedBy_under h c.entity owner)
          have hsplice : (f.modify i (·.spliceHeader owner.signature)).under front =
              (f.under front).modify i (·.spliceHeader owner.signature) :=
            under_modify f i fun e => e.spliceHeader_under owner.signature
          simp only [Option.map_some, isFree_under, parent?_under, Entity.span_under,
            Entity.kind_under, Entity.signature_under]
          split
          next => rfl
          next =>
            split
            next => exact under_modify f i fun _ => rfl
            next =>
              dsimp only
              rw [hclaim, under_attach, ← hsplice]
              cases f.parent? i with
              | none => rfl
              | some old =>
                  dsimp only
                  rw [under_detach]

@[simp] theorem below_under (depth i : Nat) : (f.under front).below depth i = f.below depth i := by
  induction depth generalizing i with
  | zero => rfl
  | succ depth ih => simp only [below, children_under, ih]

@[simp] theorem descendants_under (i : Nat) :
    (f.under front).descendants i = f.descendants i := by
  rw [descendants, descendants, size_under, below_under]

theorem under_propagateExport (i : Nat) :
    (f.propagateExport i).under front = (f.under front).propagateExport i := by
  rw [propagateExport, propagateExport, entity?_under, Option.any_map, descendants_under]
  have hmark : ∀ (g : Forest) (c : Nat),
      (g.under front).modify c (fun e => { e with exportable := true }) =
        (g.modify c fun e => { e with exportable := true }).under front := by
    intro g c
    rw [under_modify]
    exact fun _ => rfl
  rw [apply_ite (under front), List.foldl_hom (under front) hmark]
  rfl

/-! ## Unique ids below a front -/

theorem candidateId_under (base : String) (line n : Nat) :
    candidateId (Path.under front base) line n = Path.under front (candidateId base line n) := by
  have hat : ∀ rest : String, Path.isRooted ("@" ++ rest) = false := by
    intro rest
    simp [Path.isRooted]
  rcases n with _ | _ | n
  · rfl
  · simp only [candidateId, String.append_assoc]
    rw [Path.under_append _ _ (hat _)]
  · simp only [candidateId, String.append_assoc]
    rw [Path.under_append _ _ (hat _)]

theorem freshId_under (h : Path.IsFront front) (taken : List String) (base : String)
    (line fuel n : Nat) :
    freshId (taken.map (Path.under front)) (Path.under front base) line fuel n =
      Path.under front (freshId taken base line fuel n) := by
  have hcontains : ∀ id, (taken.map (Path.under front)).contains (Path.under front id) =
      taken.contains id := by
    intro id
    rw [Bool.eq_iff_iff, List.contains_iff_mem, List.contains_iff_mem,
      List.mem_map_of_injective h.under_injective]
  induction fuel generalizing n with
  | zero => exact candidateId_under base line n
  | succ fuel ih =>
      simp only [freshId, candidateId_under, hcontains, ih]
      exact (apply_ite (Path.under front) ..).symm

@[simp] theorem idOrder_under (root : Nat) : (f.under front).idOrder root = f.idOrder root := by
  have hkey : ∀ i, ((f.under front).entity? i).map (·.span.startByte) =
      (f.entity? i).map (·.span.startByte) := by
    intro i
    rw [entity?_under, Option.map_map]
    rfl
  simp only [idOrder, size_under, hkey]

theorem under_giveIds (h : Path.IsFront front) (indices : List Nat) (taken : List String) :
    (f.giveIds indices taken).under front =
      (f.under front).giveIds indices (taken.map (Path.under front)) := by
  induction indices generalizing f taken with
  | nil => rfl
  | cons i indices ih =>
      rw [giveIds, giveIds, entity?_under]
      cases f.entity? i with
      | none => exact ih f taken
      | some e =>
          simp only [Option.map_some, Entity.kind_under, Entity.id_under, Entity.span_under,
            List.length_map, freshId_under h]
          by_cases hexport : (e.kind == .export) = true
          · rw [if_pos hexport, if_pos hexport, ih]
          · rw [if_neg hexport, if_neg hexport, ih, List.map_cons]
            congr 1
            exact under_modify_congr f i fun _ => rfl

@[simp] theorem idAt_under (i : Nat) :
    (f.under front).idAt i = Path.under front (f.idAt i) := by
  rw [idAt, idAt, entity?_under]
  cases f.entity? i with
  | none => rfl
  | some e => rfl

theorem linked?_under (i : Nat) :
    (f.under front).linked? i = (f.linked? i).map (Entity.under front) := by
  have hid : (f.under front).idAt = Path.under front ∘ f.idAt := funext f.idAt_under
  rw [linked?, linked?, cell?_under, Option.map_map, Option.map_map, hid]
  congr 1
  funext c
  simp [Cell.under, Entity.under]

theorem finish_under (h : Path.IsFront front) (root : Nat) :
    (f.under front).finish root = (f.finish root).map (Entity.under front) := by
  have hids : (f.under front).giveIds ((f.under front).idOrder root) [] =
      (f.giveIds (f.idOrder root) []).under front := by
    rw [idOrder_under, under_giveIds f h]
    rfl
  simp only [finish, hids, descendants_under, List.map_filterMap]
  exact List.filterMap_congr fun i _ => linked?_under _ i

end Forest

/-! ## Files with a front -/

namespace Extraction

/-- Entities with their indices, with a front before all ids. -/
def placedUnder (front : String) (entities : List (Entity × Nat)) : List (Entity × Nat) :=
  entities.map (Prod.map (Entity.under front) id)

theorem mergeSort_placedUnder {le : Entity × Nat → Entity × Nat → Bool}
    (hle : ∀ a b, le a b =
      le (Prod.map (Entity.under front) id a) (Prod.map (Entity.under front) id b))
    (entities : List (Entity × Nat)) :
    (placedUnder front entities).mergeSort le = placedUnder front (entities.mergeSort le) :=
  (List.map_mergeSort fun a _ b _ => hle a b).symm

theorem candidates_under (before : List (Entity × Nat)) (e : Entity) (after : List (Entity × Nat)) :
    candidates (placedUnder front before) (e.under front) (placedUnder front after) =
      candidates before e after := by
  have hfilter : ∀ (entities : List (Entity × Nat)) (earlier : Bool),
      (placedUnder front entities).filter (fun c => mayHold c.1 (e.under front) earlier) =
        placedUnder front (entities.filter fun c => mayHold c.1 e earlier) :=
    fun _ _ => List.filter_map
  have hfound : ∀ l l' : List (Entity × Nat),
      (placedUnder front l ++ placedUnder front l').reverse = placedUnder front (l ++ l').reverse := by
    intro l l'
    rw [placedUnder, placedUnder, placedUnder, ← List.map_append, List.map_reverse]
  simp only [candidates, hfilter, hfound]
  rw [mergeSort_placedUnder fun _ _ => rfl, placedUnder, List.map_map]
  rfl

theorem place_under (h : Path.IsFront front) (file : Nat) (before after : List (Entity × Nat))
    (f : Forest) :
    place file (placedUnder front before) (placedUnder front after) (f.under front) =
      (place file before after f).under front := by
  induction after generalizing before f with
  | nil => rfl
  | cons a after ih =>
      obtain ⟨e, i⟩ := a
      have hbefore : placedUnder front before ++ [(e.under front, i)] =
          placedUnder front (before ++ [(e, i)]) := by
        rw [placedUnder, placedUnder, List.map_append]
        rfl
      have hplaced : placedUnder front ((e, i) :: after) =
          (e.under front, i) :: placedUnder front after := rfl
      have hrelate : ∀ g c, ((Forest.under front g).relate i c).1 = (g.relate i c).1.under front :=
        fun g c => (Forest.under_relate g h i c).symm
      rw [hplaced, place, place, hbefore, ← ih]
      simp only [Entity.kind_under, candidates_under, ← Forest.under_attach]
      rw [List.foldl_hom (Forest.under front) hrelate, apply_ite (Forest.under front)]

theorem applyExport_under (file : Nat) (f : Forest) (clause : String × String) :
    applyExport file (f.under front) clause = (applyExport file f clause).under front := by
  have hnamed : ∀ i, ((f.under front).entity? i).any (fun e => e.kind != .export && e.name == clause.1) =
      (f.entity? i).any fun e => e.kind != .export && e.name == clause.1 := by
    intro i
    rw [Forest.entity?_under, Option.any_map]
    rfl
  simp only [applyExport, hnamed, Forest.children_under]
  split
  next => rfl
  next =>
    rw [Forest.under_modify]
    exact fun _ => rfl

theorem file_under (h : Path.IsFront front) {path : String} (hpath : Path.IsFile path)
    (content : String) (language : Language) :
    Entity.file (Path.under front path) content language =
      (Entity.file path content language).under front := by
  obtain ⟨stem, -, hstem, -⟩ := hpath.withoutExtension_eq
  rw [Entity.file, Entity.file, hpath.fileStem?_under h, hstem]
  rfl

theorem forest_under (h : Path.IsFront front) {path : String} (hpath : Path.IsFile path)
    (language : Language) (content : String) {s : Survey} (hfresh : ∀ i ∈ s.imports, i.Fresh) :
    forest language (Path.under front path) content s =
      (forest language path content s).under front := by
  have himports : s.imports.map (Import.Statement.under front) = s.imports := by
    conv_rhs => rw [← List.map_id s.imports]
    exact List.map_congr_left fun i hi => (hfresh i hi).under_eq front
  have hfile : { Entity.file (Path.under front path) content language with imports := s.imports } =
      { Entity.file path content language with imports := s.imports }.under front := by
    rw [file_under h hpath]
    conv_lhs => rw [← himports]
    rfl
  have hentities : s.definitions.map (entity language (Path.under front path) content) =
      (s.definitions.map (entity language path content)).map (Entity.under front) := by
    rw [List.map_map]
    exact List.map_congr_left fun d _ => entity_under language path content d
  have hpush : ∀ (es : List Entity) (f : Forest), (es.map (Entity.under front)).foldl Forest.push
      (f.under front) = (es.foldl Forest.push f).under front := by
    intro es f
    rw [List.foldl_map]
    exact List.foldl_hom (Forest.under front) fun f e => (Forest.under_push f e).symm
  have hplacement : ∀ es : List Entity,
      placement ((es.map (Entity.under front)).zipIdx 1) =
        placedUnder front (placement (es.zipIdx 1)) := by
    intro es
    rw [List.zipIdx_map]
    exact mergeSort_placedUnder (fun _ _ => rfl) _
  have hplace : ∀ es f, place 0 [] (placedUnder front es) (Forest.under front f) =
      (place 0 [] es f).under front := fun es f => place_under h 0 [] es f
  have hexports : ∀ f, s.exports.foldl (applyExport 0) (Forest.under front f) =
      (s.exports.foldl (applyExport 0) f).under front := fun f =>
    List.foldl_hom (Forest.under front) (applyExport_under 0)
  have hmarks : ∀ (indices : List Nat) (f : Forest), indices.foldl Forest.propagateExport
      (f.under front) = (indices.foldl Forest.propagateExport f).under front := fun indices f =>
    List.foldl_hom (Forest.under front) fun f i => (Forest.under_propagateExport f i).symm
  have hempty : Forest.empty = Forest.empty.under front := rfl
  simp only [forest, hfile, hentities, hplacement]
  rw [hempty, ← Forest.under_push, hpush, hplace, hexports, Forest.children_under, hmarks]
  rfl

end Extraction

/-- A front before the path of a file is a front before all ids of its entities. -/
theorem extract?_under (h : Path.IsFront front) {path : String} (hpath : Path.IsFile path)
    (content : String) :
    extract? (Path.under front path) content =
      (extract? path content).map (List.map (Entity.under front)) := by
  rw [extract?, extract?, hpath.ofPath?_under h, Option.map_map]
  refine Option.map_congr fun l _ => ?_
  have hforest := Extraction.forest_under h hpath l content
    (s := Survey.of l content) (Import.fresh_statements l content)
  rw [Function.comp_apply, Extraction.entities, Extraction.entities, hforest,
    Forest.finish_under _ h]

end CodeAtlas
