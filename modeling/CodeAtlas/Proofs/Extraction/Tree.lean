import CodeAtlas.Proofs.Extraction.Entities
import CodeAtlas.Proofs.Extraction.Placement
import CodeAtlas.Proofs.Forest.Finish
import CodeAtlas.Proofs.Related
import CodeAtlas.Proofs.Survey

/-!
# The tree of a file

The forest of a file starts with the file and its definitions side by side.  The definitions are
then placed, and marking what is exported changes neither the edges nor the degrees.  So the
finished list is a tree in pre-order with the file at its head, and it holds every definition that
is no export carrier exactly once.
-/

namespace CodeAtlas

open Survey (Definition)

namespace Forest

variable {f g k : Forest} {i j : Nat}

/-! ## Marking entities -/

/-- `g` is `f` with other texts and marks in its entities. -/
structure Marks (f g : Forest) : Prop where
  grows : f.Grows g
  linked : f.Linked → g.Linked
  parent? : ∀ i, g.parent? i = f.parent? i
  children : ∀ i, g.children i = f.children i

namespace Marks

theorem refl (f : Forest) : f.Marks f :=
  ⟨.refl f, id, fun _ => rfl, fun _ => rfl⟩

theorem trans (h : f.Marks g) (h' : g.Marks k) : f.Marks k :=
  ⟨h.grows.trans h'.grows, h'.linked ∘ h.linked, fun i => (h'.parent? i).trans (h.parent? i),
    fun i => (h'.children i).trans (h.children i)⟩

theorem modify {step : Entity → Entity} (hstep : ∀ e : Entity, e.Becomes (step e))
    (hin : ∀ e, (step e).inDegree = e.inDegree) (hout : ∀ e, (step e).outDegree = e.outDegree) :
    f.Marks (f.modify i step) :=
  ⟨.modify hstep, fun h => h.modify hin hout, fun j => parent?_modify f i j step,
    fun j => children_modify f i j step⟩

theorem foldl {α : Type} {step : Forest → α → Forest} (hstep : ∀ (f : Forest) a, f.Marks (step f a))
    (f : Forest) (as : List α) : f.Marks (as.foldl step f) := by
  induction as generalizing f with
  | nil => exact refl f
  | cons a as ih => exact (hstep f a).trans (ih (step f a))

theorem applyExport (f : Forest) (file : Nat) (clause : String × String) :
    f.Marks (Extraction.applyExport file f clause) := by
  rw [Extraction.applyExport]
  split
  · exact refl f
  · exact modify (fun e => ⟨rfl, rfl, rfl, rfl, rfl, rfl, Or.inl ⟨rfl, rfl, rfl⟩⟩)
      (fun _ => rfl) (fun _ => rfl)

theorem propagateExport (f : Forest) (i : Nat) : f.Marks (f.propagateExport i) := by
  rw [Forest.propagateExport]
  split
  · refine foldl (fun g c => ?_) f _
    exact modify (fun e => ⟨rfl, rfl, rfl, rfl, rfl, rfl, Or.inl ⟨rfl, rfl, rfl⟩⟩)
      (fun _ => rfl) (fun _ => rfl)
  · exact refl f

end Marks

/-! ## Entities side by side -/

/-- The forest of entities without edges. -/
def planted (es : List Entity) : Forest := es.foldl push empty

theorem cells_foldl_push (f : Forest) (es : List Entity) :
    (es.foldl push f).cells = f.cells ++ es.map fun e => ⟨e, none, []⟩ := by
  induction es generalizing f with
  | nil => simp
  | cons e es ih => rw [List.foldl_cons, ih, push, List.map_cons, List.append_assoc]; rfl

theorem cell?_planted (es : List Entity) (i : Nat) :
    (planted es).cell? i = (es[i]?).map fun e => ⟨e, none, []⟩ := by
  rw [cell?, planted, cells_foldl_push, empty, List.nil_append, List.getElem?_map]

@[simp] theorem size_planted (es : List Entity) : (planted es).size = es.length := by
  simp [size, planted, cells_foldl_push, empty]

theorem entity?_planted (es : List Entity) (i : Nat) : (planted es).entity? i = es[i]? := by
  rw [entity?, cell?_planted]
  cases es[i]? <;> rfl

theorem parent?_planted (es : List Entity) (i : Nat) : (planted es).parent? i = none := by
  rw [parent?, cell?_planted]
  cases es[i]? <;> rfl

theorem linked_planted {es : List Entity} (hin : ∀ e ∈ es, e.inDegree = 0)
    (hout : ∀ e ∈ es, e.outDegree = 0) : (planted es).Linked :=
  List.foldlRecOn es push .empty fun _ hf e he => hf.push (hin e he) (hout e he)

end Forest

namespace Extraction

open Forest (planted)

variable {language : Language} {path content : String} {s : Survey} {j : Nat}

/-! ## The forest of a file -/

/-- The entity of a file with its imports. -/
def fileEntity (language : Language) (path content : String) (s : Survey) : Entity :=
  { Entity.file path content language with imports := s.imports }

/-- The file and the entities of its definitions. -/
def unplaced (language : Language) (path content : String) (s : Survey) : List Entity :=
  fileEntity language path content s :: s.definitions.map (entity language path content)

/-- The entities of the definitions with their indices, in the order in which they are placed. -/
def order (language : Language) (path content : String) (s : Survey) : List (Entity × Nat) :=
  placement ((s.definitions.map (entity language path content)).zipIdx 1)

theorem order_perm (language : Language) (path content : String) (s : Survey) :
    (order language path content s).Perm
      ((s.definitions.map (entity language path content)).zipIdx 1) :=
  List.mergeSort_perm _ _

theorem setting (language : Language) (path content : String) (s : Survey) :
    Setting (planted (unplaced language path content s)) (order language path content s) := by
  have hmem : ∀ x ∈ order language path content s, 1 ≤ x.2 ∧
      (s.definitions.map (entity language path content))[x.2 - 1]? = some x.1 := by
    intro x hx
    exact List.mk_mem_zipIdx_iff_le_and_getElem?_sub.mp
      ((order_perm language path content s).mem_iff.mp hx)
  constructor
  · simp [unplaced]
  · intro x hx
    obtain ⟨hpos, hget⟩ := hmem x hx
    rw [Forest.entity?_planted, unplaced, List.getElem?_cons, if_neg (by omega), hget]
  · intro x hx
    have := (hmem x hx).1
    omega
  · rw [((order_perm language path content s).map Prod.snd).nodup_iff, List.zipIdx_map_snd]
    exact List.nodup_range'

/-- The forest of a file once its definitions are placed. -/
def placedForest (language : Language) (path content : String) (s : Survey) : Forest :=
  place 0 [] (order language path content s) (planted (unplaced language path content s))

theorem placed_planted (language : Language) (path content : String) (s : Survey) :
    Placed (planted (unplaced language path content s)) (order language path content s) []
      (planted (unplaced language path content s)) := by
  constructor
  · apply Forest.linked_planted
    · intro e he
      rcases List.mem_cons.mp he with rfl | he
      · rfl
      · obtain ⟨d, -, rfl⟩ := List.mem_map.mp he
        exact (Unlinked.entity language path content d).inDegree
    · intro e he
      rcases List.mem_cons.mp he with rfl | he
      · rfl
      · obtain ⟨d, -, rfl⟩ := List.mem_map.mp he
        exact (Unlinked.entity language path content d).outDegree
  · exact .refl _
  · intro x hx
    exact absurd hx (by simp)
  · intro j p hp
    rw [Forest.parent?_planted] at hp
    exact absurd hp (by simp)

theorem placed (language : Language) (path content : String) (s : Survey) :
    Placed (planted (unplaced language path content s)) (order language path content s)
      (order language path content s) (placedForest language path content s) :=
  (setting language path content s).place_rest rfl (placed_planted language path content s)

/-- The forest of a file is the placed one with marks. -/
theorem marks_forest (language : Language) (path content : String) (s : Survey) :
    (placedForest language path content s).Marks (forest language path content s) :=
  (Forest.Marks.foldl (fun f clause => .applyExport f 0 clause) _ s.exports).trans
    (.foldl (fun f i => .propagateExport f i) _ _)

theorem linked_forest (language : Language) (path content : String) (s : Survey) :
    (forest language path content s).Linked :=
  (marks_forest language path content s).linked (placed language path content s).linked

theorem exists_ranked_forest (language : Language) (path content : String) (s : Survey) :
    ∃ rank, (forest language path content s).Ranked rank := by
  obtain ⟨rank, hrank⟩ :=
    (setting language path content s).exists_ranked (placed language path content s)
  refine ⟨rank, ?_⟩
  intro i p hp
  rw [(marks_forest language path content s).parent?] at hp
  exact hrank i p hp

theorem grows_forest (language : Language) (path content : String) (s : Survey) :
    (planted (unplaced language path content s)).Grows (forest language path content s) :=
  (placed language path content s).grows.trans (marks_forest language path content s).grows

theorem parent?_forest_zero (language : Language) (path content : String) (s : Survey) :
    (forest language path content s).parent? 0 = none := by
  rw [(marks_forest language path content s).parent?, Option.eq_none_iff_forall_ne_some]
  intro p hp
  obtain ⟨x, hx, hzero, -⟩ := (placed language path content s).placed 0 p hp
  exact (setting language path content s).ne_zero x hx hzero

/-- The definition at an index of the forest. -/
def definitionAt (s : Survey) (j : Nat) : Definition := (s.definitions[j - 1]?).getD default

/-- The definitions below the file, in pre-order. -/
def definitionsBelow (language : Language) (path content : String) (s : Survey) :
    List Definition :=
  ((forest language path content s).descendants 0).map (definitionAt s)

theorem descendants_forest_perm (language : Language) (path content : String) (s : Survey) :
    ((forest language path content s).descendants 0).Perm
      (((s.definitions.zipIdx 1).filter (·.1.kind != .export)).map Prod.snd) := by
  have hmarks := marks_forest language path content s
  rw [Forest.descendants_congr hmarks.grows.size_eq hmarks.children]
  refine ((setting language path content s).descendants_zero_perm
    (placed language path content s)).trans ?_
  refine (((order_perm language path content s).filter _).map _).trans (.of_eq ?_)
  have hkind : ((·.1.kind != .export) ∘ Prod.map (entity language path content) id :
      Definition × Nat → Bool) = (·.1.kind != .export) := by
    funext x
    exact congrArg (· != EntityKind.export) (Unlinked.entity language path content x.1).kind_eq
  rw [List.zipIdx_map, List.filter_map, List.map_map, hkind]
  rfl

theorem definitionAt_of_mem {x : Definition × Nat} (hx : x ∈ s.definitions.zipIdx 1) :
    definitionAt s x.2 = x.1 := by
  obtain ⟨-, hget⟩ := List.mk_mem_zipIdx_iff_le_and_getElem?_sub.mp hx
  rw [definitionAt, hget]
  rfl

/-- Every definition but the export carriers is below the file, and once. -/
theorem definitionsBelow_perm (language : Language) (path content : String) (s : Survey) :
    (definitionsBelow language path content s).Perm
      (s.definitions.filter (·.kind != .export)) := by
  refine ((descendants_forest_perm language path content s).map (definitionAt s)).trans
    (.of_eq ?_)
  rw [List.map_map]
  calc ((s.definitions.zipIdx 1).filter (·.1.kind != .export)).map (definitionAt s ∘ Prod.snd)
      = ((s.definitions.zipIdx 1).filter (·.1.kind != .export)).map Prod.fst :=
        List.map_congr_left fun x hx => definitionAt_of_mem (List.mem_of_mem_filter hx)
    _ = ((s.definitions.zipIdx 1).map Prod.fst).filter (·.kind != .export) := by
        rw [List.filter_map]
        rfl
    _ = s.definitions.filter (·.kind != .export) := by rw [List.zipIdx_map_fst]

theorem entity?_forest_zero (language : Language) (path content : String) (s : Survey) :
    ∃ e, (forest language path content s).entity? 0 = some e ∧
      (fileEntity language path content s).Becomes e := by
  apply (grows_forest language path content s).becomes
  rw [Forest.entity?_planted, unplaced, List.getElem?_cons_zero]

/-- What stands below the file comes from a definition that is no export carrier. -/
theorem entity?_forest_of_mem
    (hj : j ∈ (forest language path content s).descendants 0) :
    definitionAt s j ∈ s.definitions ∧
      ∃ e, (forest language path content s).entity? j = some e ∧
        (entity language path content (definitionAt s j)).Becomes e ∧ e.kind ≠ .export := by
  obtain ⟨x, hx, rfl⟩ :=
    List.mem_map.mp ((descendants_forest_perm language path content s).mem_iff.mp hj)
  rw [List.mem_filter, bne_iff_ne] at hx
  obtain ⟨hpos, hget⟩ := List.mk_mem_zipIdx_iff_le_and_getElem?_sub.mp hx.1
  rw [definitionAt_of_mem hx.1]
  have hplanted : (planted (unplaced language path content s)).entity? x.2 =
      some (entity language path content x.1) := by
    rw [Forest.entity?_planted, unplaced, List.getElem?_cons, if_neg (by omega), List.getElem?_map,
      hget]
    rfl
  obtain ⟨e, he, hbecomes⟩ := (grows_forest language path content s).becomes x.2 _ hplanted
  refine ⟨List.mem_of_getElem? hget, e, he, hbecomes, ?_⟩
  rw [Ne, hbecomes.kind_eq_iff (by decide) (by decide),
    (Unlinked.entity language path content x.1).kind_eq]
  exact hx.2

/-! ## The finished list -/

/-- The list of a file is a tree under the file, and what is below comes from the definitions. -/
theorem fileTree_entities (language : Language) (path content : String)
    (hs : ∀ d ∈ s.definitions, d.kind ≠ .file) :
    ∃ file below, entities language path content s = file :: below ∧ FileTree file below ∧
      file.id = path ∧ (fileEntity language path content s).Finishes file ∧
      List.Forall₂ (fun d e => (entity language path content d).Finishes e)
        (definitionsBelow language path content s) below := by
  have hlinked := linked_forest language path content s
  obtain ⟨rank, hrank⟩ := exists_ranked_forest language path content s
  obtain ⟨file, hfile, hbecomes⟩ := entity?_forest_zero language path content s
  have hroot : 0 < (forest language path content s).size := Forest.lt_size_of_entity? hfile
  have hkind : file.kind = .file :=
    (hbecomes.kind_eq_iff (by decide) (by decide)).mpr rfl
  have hexport : file.kind ≠ .export := by rw [hkind]; decide
  have hbelow : ∀ j ∈ (forest language path content s).descendants 0,
      ∃ e, (forest language path content s).entity? j = some e ∧ e.kind ≠ .file ∧
        e.kind ≠ .export := by
    intro j hj
    obtain ⟨hmem, e, he, hbecomes, hexport⟩ := entity?_forest_of_mem hj
    refine ⟨e, he, ?_, hexport⟩
    rw [Ne, hbecomes.kind_eq_iff (by decide) (by decide),
      (Unlinked.entity language path content (definitionAt s j)).kind_eq]
    exact hs _ hmem
  refine ⟨_, _, hlinked.finish_eq hrank hroot,
    hlinked.fileTree_finish hrank hfile hkind (parent?_forest_zero language path content s) hbelow,
    ?_, Forest.finishes_named_giveIds hroot hfile hexport hbecomes, ?_⟩
  · rw [Forest.id_named (by simpa using hroot),
      Forest.idAt_giveIds_root hroot ⟨file, hfile, hexport⟩, Forest.idAt_of_entity? hfile]
    rcases hbecomes.named with ⟨-, -, hid⟩ | ⟨hfun, -⟩
    · exact hid
    · exact absurd hfun (by simp [fileEntity, Entity.file, Entity.ofCode])
  · rw [definitionsBelow, List.forall₂_map_left_iff, List.forall₂_map_right_iff, List.forall₂_same]
    intro j hj
    obtain ⟨-, e, he, hbecomes, hexport⟩ := entity?_forest_of_mem hj
    exact Forest.finishes_named_giveIds hroot he hexport hbecomes

/-- What is listed below a file comes from a definition that is no export carrier. -/
theorem exists_definition_of_mem {below : List Entity}
    (h : List.Forall₂ (fun d e => (entity language path content d).Finishes e)
      (definitionsBelow language path content s) below) {e : Entity} (he : e ∈ below) :
    ∃ d ∈ s.definitions, d.kind ≠ .export ∧ (entity language path content d).Finishes e := by
  obtain ⟨d, hd, hfinishes⟩ := Related.exists_of_mem h he
  have hmem := (definitionsBelow_perm language path content s).mem_iff.mp hd
  rw [List.mem_filter, bne_iff_ne] at hmem
  exact ⟨d, hmem.1, hmem.2, hfinishes⟩

/-- A list of entities that is the tree of a file with a given survey. -/
structure ListsTree (language : Language) (path content : String) (s : Survey)
    (es : List Entity) : Prop where
  preorder : ∃ file below, es = file :: below ∧ file.kind = .file ∧ file.id = path ∧
    file.parent = none ∧ (∀ e ∈ below, e.kind ≠ .file) ∧ Subtrees path file.children below
  kind_ne_export : ∀ e ∈ es, e.kind ≠ .export
  nodup_ids : (es.map (·.id)).Nodup
  parent_earlier : ∀ before e after, es = before ++ e :: after → before ≠ [] →
    ∃ p ∈ before, e.parent = some p.id
  children_eq : ∀ e ∈ es, e.children = (es.filter (·.parent = some e.id)).map (·.id)
  inDegree_eq : ∀ e ∈ es, e.inDegree = e.children.length
  outDegree_eq : ∀ e ∈ es, e.outDegree = if e.kind = .file then 0 else 1
  definitions : ∃ ds, ds.Perm (s.definitions.filter (·.kind != .export)) ∧
    List.Forall₂ (fun d e => (entity language path content d).Finishes e) ds es.tail

/-- The list of a file is a tree in pre-order in which every definition has its place, whatever
its survey says; and no survey of a text takes a definition for a file. -/
theorem extract?_listsTree (path content : String) {language : Language}
    (hlanguage : Language.ofPath? path = some language) :
    (∀ s : Survey, (∀ d ∈ s.definitions, d.kind ≠ .file) →
        ListsTree language path content s (entities language path content s)) ∧
      (∀ d ∈ (Survey.of language content).definitions, d.kind ≠ .file) ∧
      extract? path content =
        some (entities language path content (Survey.of language content)) := by
  refine ⟨?_, fun d hd => Survey.kind_ne_file_of_mem hd, by rw [extract?, hlanguage]; rfl⟩
  intro s hs
  obtain ⟨file, below, hes, htree, hid, -, hforall⟩ := fileTree_entities language path content hs
  rw [hes]
  constructor
  · refine ⟨file, below, rfl, htree.kind_file, hid, htree.parent_file, ?_, hid ▸ htree.subtrees⟩
    exact fun e he => (htree.kind_below e he).1
  · exact fun e he => htree.kind_ne_export he
  · exact htree.nodup_ids
  · exact fun before e after heq hne => htree.parent_earlier heq hne
  · exact fun e he => (htree.namingParent_id he).symm
  · exact htree.inDegree
  · exact fun e he => htree.outDegree he
  · exact ⟨_, definitionsBelow_perm language path content s, hforall⟩

/-- A class on two rows with a function on the second one. -/
theorem extract?_listsTree_class :
    Language.ofPath? "/a.py" = some .python ∧
      ListsTree .python "/a.py" "class A:\n  def f(): pass"
        ⟨[⟨.cls, ⟨0, 24, ⟨0, 0⟩, ⟨1, 15⟩⟩, [], [⟨"name", ⟨6, 7, ⟨0, 6⟩, ⟨0, 7⟩⟩⟩], none, []⟩,
          ⟨.function, ⟨11, 24, ⟨1, 2⟩, ⟨1, 15⟩⟩, [],
            [⟨"name", ⟨15, 16, ⟨1, 6⟩, ⟨1, 7⟩⟩⟩], none, []⟩], [], []⟩
        (entities .python "/a.py" "class A:\n  def f(): pass"
          ⟨[⟨.cls, ⟨0, 24, ⟨0, 0⟩, ⟨1, 15⟩⟩, [], [⟨"name", ⟨6, 7, ⟨0, 6⟩, ⟨0, 7⟩⟩⟩], none, []⟩,
            ⟨.function, ⟨11, 24, ⟨1, 2⟩, ⟨1, 15⟩⟩, [],
              [⟨"name", ⟨15, 16, ⟨1, 6⟩, ⟨1, 7⟩⟩⟩], none, []⟩], [], []⟩) :=
  have hlanguage : Language.ofPath? "/a.py" = some .python := by decide +kernel
  ⟨hlanguage, (extract?_listsTree "/a.py" _ hlanguage).1 _ (by decide)⟩

end Extraction
end CodeAtlas
