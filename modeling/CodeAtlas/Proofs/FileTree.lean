import CodeAtlas.Entity
import Mathlib.Data.List.Nodup

/-!
# Trees of entities

The entities of a file form a tree and are listed in pre-order: each entity is followed by what is
below it, child by child in the order in which it names its children.  In such a list with
distinct ids, parents stand before their children, and the children that an entity names are
exactly the entities that name it as their parent.
-/

namespace CodeAtlas

/-- The list holds one subtree for each of the ids, in order and each in pre-order, and the roots
of these subtrees have the given parent. -/
inductive Subtrees : String → List String → List Entity → Prop
  | nil (parent : String) : Subtrees parent [] []
  | cons {parent : String} {e : Entity} {ids : List String} {inner rest : List Entity}
      (hparent : e.parent = some parent) (hinner : Subtrees e.id e.children inner)
      (hrest : Subtrees parent ids rest) : Subtrees parent (e.id :: ids) (e :: (inner ++ rest))

/-- The entities that name a parent. -/
def namingParent (parent : String) (es : List Entity) : List Entity :=
  es.filter fun e => e.parent = some parent

theorem namingParent_append (parent : String) (es es' : List Entity) :
    namingParent parent (es ++ es') = namingParent parent es ++ namingParent parent es' :=
  List.filter_append ..

theorem namingParent_eq_nil {parent : String} {es : List Entity}
    (h : ∀ e ∈ es, e.parent ≠ some parent) : namingParent parent es = [] := by
  rw [namingParent, List.filter_eq_nil_iff]
  intro e he
  simpa using h e he

theorem namingParent_cons_of_eq {parent : String} {e : Entity} {es : List Entity}
    (h : e.parent = some parent) :
    namingParent parent (e :: es) = e :: namingParent parent es :=
  List.filter_cons_of_pos (by simpa using h)

theorem namingParent_cons_of_ne {parent : String} {e : Entity} {es : List Entity}
    (h : e.parent ≠ some parent) : namingParent parent (e :: es) = namingParent parent es :=
  List.filter_cons_of_neg (by simpa using h)

namespace Subtrees

variable {parent : String} {ids : List String} {es : List Entity}

/-- Every entity of the subtrees has a parent among them, or the given one. -/
theorem parent_mem (h : Subtrees parent ids es) {d : Entity} (hd : d ∈ es) :
    ∃ q, d.parent = some q ∧ (q = parent ∨ q ∈ es.map (·.id)) := by
  induction h with
  | nil => exact absurd hd (by simp)
  | @cons parent e ids inner rest hparent _ _ ihinner ihrest =>
      rcases List.mem_cons.mp hd with rfl | hd
      · exact ⟨parent, hparent, Or.inl rfl⟩
      · rcases List.mem_append.mp hd with hd | hd
        · obtain ⟨q, hq, rfl | hmem⟩ := ihinner hd
          · exact ⟨e.id, hq, Or.inr (by simp)⟩
          · exact ⟨q, hq, Or.inr (by simp [hmem])⟩
        · obtain ⟨q, hq, rfl | hmem⟩ := ihrest hd
          · exact ⟨q, hq, Or.inl rfl⟩
          · exact ⟨q, hq, Or.inr (by simp [hmem])⟩

/-- The parent of an entity stands before it. -/
theorem parent_earlier (h : Subtrees parent ids es) {before after : List Entity} {d : Entity}
    (hes : es = before ++ d :: after) :
    ∃ q, d.parent = some q ∧ (q = parent ∨ q ∈ before.map (·.id)) := by
  induction h generalizing before after with
  | nil => exact absurd hes (by simp)
  | @cons parent e ids inner rest hparent _ _ ihinner ihrest =>
      rcases before with _ | ⟨b, before⟩
      · obtain rfl : e = d := (List.cons.inj hes).1
        exact ⟨parent, hparent, Or.inl rfl⟩
      · obtain ⟨rfl, htail⟩ := List.cons.inj hes
        -- the entity stands inside the first subtree or behind it
        rcases List.append_eq_append_iff.mp htail with
          ⟨mid, rfl, hrest⟩ | ⟨mid, hinner, hrest⟩
        · obtain ⟨q, hq, rfl | hmem⟩ := ihrest hrest
          · exact ⟨q, hq, Or.inl rfl⟩
          · exact ⟨q, hq, Or.inr (by simp [hmem])⟩
        · rcases mid with _ | ⟨m, mid⟩
          · have hrest : rest = [] ++ d :: after := hrest.symm
            obtain ⟨q, hq, rfl | hmem⟩ := ihrest hrest
            · exact ⟨q, hq, Or.inl rfl⟩
            · exact absurd hmem (by simp)
          · obtain ⟨rfl, -⟩ := List.cons.inj hrest
            obtain ⟨q, hq, rfl | hmem⟩ := ihinner hinner
            · exact ⟨e.id, hq, Or.inr (by simp)⟩
            · exact ⟨q, hq, Or.inr (by simp [hmem])⟩

theorem namingParent_of_not_mem (h : Subtrees parent ids es) {id : String} (hne : id ≠ parent)
    (hid : id ∉ es.map (·.id)) : namingParent id es = [] := by
  apply namingParent_eq_nil
  intro d hd heq
  obtain ⟨q, hq, hmem⟩ := h.parent_mem hd
  rw [heq] at hq
  obtain rfl : id = q := Option.some.inj hq
  rcases hmem with rfl | hmem
  · exact hne rfl
  · exact hid hmem

/-- The roots of the subtrees are those that name the given parent. -/
theorem namingParent_parent (h : Subtrees parent ids es)
    (hnodup : (parent :: es.map (·.id)).Nodup) : (namingParent parent es).map (·.id) = ids := by
  induction h with
  | nil => rfl
  | @cons parent e ids inner rest hparent hinner _ _ ihrest =>
      simp only [List.map_cons, List.map_append, List.nodup_cons, List.mem_cons, List.mem_append,
        not_or, List.nodup_append] at hnodup
      obtain ⟨⟨hne, hnotInner, hnotRest⟩, -, -, hnodupRest, -⟩ := hnodup
      rw [namingParent_cons_of_eq hparent, namingParent_append,
        hinner.namingParent_of_not_mem hne hnotInner, List.nil_append, List.map_cons,
        ihrest (List.nodup_cons.mpr ⟨hnotRest, hnodupRest⟩)]

/-- The children that an entity names are the entities that name it as their parent. -/
theorem namingParent_id (h : Subtrees parent ids es)
    (hnodup : (parent :: es.map (·.id)).Nodup) {d : Entity} (hd : d ∈ es) :
    (namingParent d.id es).map (·.id) = d.children := by
  induction h with
  | nil => exact absurd hd (by simp)
  | @cons parent e ids inner rest hparent hinner hrest ihinner ihrest =>
      simp only [List.map_cons, List.map_append, List.nodup_cons, List.mem_cons, List.mem_append,
        not_or, List.nodup_append] at hnodup
      obtain ⟨⟨hne, hnotInner, hnotRest⟩, ⟨heInner, heRest⟩, hnodupInner, hnodupRest, hapart⟩ :=
        hnodup
      have hhead : ∀ {id : String}, id ≠ parent → e.parent ≠ some id := by
        intro id hid heq
        rw [hparent] at heq
        exact hid (Option.some.inj heq).symm
      -- the entity is the first one, or below it, or among the siblings that follow
      rcases List.mem_cons.mp hd with rfl | hd
      · rw [namingParent_cons_of_ne (hhead (Ne.symm hne)), namingParent_append,
          hrest.namingParent_of_not_mem (Ne.symm hne) heRest, List.append_nil]
        exact hinner.namingParent_parent (List.nodup_cons.mpr ⟨heInner, hnodupInner⟩)
      · rcases List.mem_append.mp hd with hd | hd
        · have hmem : d.id ∈ inner.map (·.id) := List.mem_map_of_mem hd
          have hdp : d.id ≠ parent := fun heq => hnotInner (heq ▸ hmem)
          have hdRest : d.id ∉ rest.map (·.id) := fun hrest' => hapart _ hmem _ hrest' rfl
          rw [namingParent_cons_of_ne (hhead hdp), namingParent_append,
            hrest.namingParent_of_not_mem hdp hdRest, List.append_nil]
          exact ihinner (List.nodup_cons.mpr ⟨heInner, hnodupInner⟩) hd
        · have hmem : d.id ∈ rest.map (·.id) := List.mem_map_of_mem hd
          have hdp : d.id ≠ parent := fun heq => hnotRest (heq ▸ hmem)
          have hde : d.id ≠ e.id := fun heq => heRest (heq ▸ hmem)
          have hdInner : d.id ∉ inner.map (·.id) := fun hinner' => hapart _ hinner' _ hmem rfl
          rw [namingParent_cons_of_ne (hhead hdp), namingParent_append,
            hinner.namingParent_of_not_mem hde hdInner, List.nil_append]
          exact ihrest (List.nodup_cons.mpr ⟨hnotRest, hnodupRest⟩) hd

end Subtrees

/-- A file with the entities below it in pre-order. -/
structure FileTree (file : Entity) (below : List Entity) : Prop where
  kind_file : file.kind = .file
  parent_file : file.parent = none
  subtrees : Subtrees file.id file.children below
  kind_below : ∀ e ∈ below, e.kind ≠ .file ∧ e.kind ≠ .export
  nodup_ids : ((file :: below).map (·.id)).Nodup
  inDegree : ∀ e ∈ file :: below, e.inDegree = e.children.length
  outDegree_file : file.outDegree = 0
  outDegree_below : ∀ e ∈ below, e.outDegree = 1

namespace FileTree

variable {file : Entity} {below : List Entity}

/-- The children that an entity names are the entities that name it as their parent. -/
theorem namingParent_id (h : FileTree file below) {e : Entity} (he : e ∈ file :: below) :
    (namingParent e.id (file :: below)).map (·.id) = e.children := by
  have hne : ∀ id, file.parent ≠ some id := by simp [h.parent_file]
  rw [namingParent_cons_of_ne (hne e.id)]
  rcases List.mem_cons.mp he with rfl | he
  · exact h.subtrees.namingParent_parent h.nodup_ids
  · exact h.subtrees.namingParent_id h.nodup_ids he

/-- The parent of every entity but the file stands before it. -/
theorem parent_earlier (h : FileTree file below) {before after : List Entity} {e : Entity}
    (hes : file :: below = before ++ e :: after) (hbefore : before ≠ []) :
    ∃ p ∈ before, e.parent = some p.id := by
  obtain ⟨b, before, rfl⟩ := List.exists_cons_of_ne_nil hbefore
  obtain ⟨rfl, hbelow⟩ := List.cons.inj hes
  obtain ⟨q, hq, rfl | hmem⟩ := h.subtrees.parent_earlier hbelow
  · exact ⟨file, List.mem_cons_self, hq⟩
  · obtain ⟨p, hp, rfl⟩ := List.mem_map.mp hmem
    exact ⟨p, List.mem_cons_of_mem file hp, hq⟩

theorem parent_below (h : FileTree file below) {e : Entity} (he : e ∈ below) :
    ∃ p ∈ file :: below, e.parent = some p.id := by
  obtain ⟨q, hq, rfl | hmem⟩ := h.subtrees.parent_mem he
  · exact ⟨file, List.mem_cons_self, hq⟩
  · obtain ⟨p, hp, rfl⟩ := List.mem_map.mp hmem
    exact ⟨p, List.mem_cons_of_mem file hp, hq⟩

theorem outDegree (h : FileTree file below) {e : Entity} (he : e ∈ file :: below) :
    e.outDegree = if e.kind = .file then 0 else 1 := by
  rcases List.mem_cons.mp he with rfl | he
  · rw [h.outDegree_file, if_pos h.kind_file]
  · rw [h.outDegree_below e he, if_neg (h.kind_below e he).1]

theorem kind_ne_export (h : FileTree file below) {e : Entity} (he : e ∈ file :: below) :
    e.kind ≠ .export := by
  rcases List.mem_cons.mp he with rfl | he
  · rw [h.kind_file]
    decide
  · exact (h.kind_below e he).2

end FileTree

/-- The entities of one file. -/
structure FileBlock where
  file : Entity
  below : List Entity
  tree : FileTree file below

namespace FileBlock

/-- The file, then everything below it. -/
def entities (b : FileBlock) : List Entity := b.file :: b.below

theorem file_mem (b : FileBlock) : b.file ∈ b.entities := List.mem_cons_self

end FileBlock

end CodeAtlas
