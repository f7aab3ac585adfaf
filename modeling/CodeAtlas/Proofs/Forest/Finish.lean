import CodeAtlas.Proofs.FileTree
import CodeAtlas.Proofs.Forest.Descent
import CodeAtlas.Proofs.Forest.Relate
import CodeAtlas.Proofs.Forest.UniqueIds

/-!
# Finished forests

When a forest is finished, its indices become ids and the entities below the root are listed.  The
list is a tree in the sense of ids: the parent and the children that an entity names are those of
its index.  Apart from the links between entities, only the id of an entity changes, and only to
a numbered form of it.
-/

namespace CodeAtlas

/-- `e'` is the finished form of what became of `e`: only its id may have been numbered. -/
def Entity.Finishes (e e' : Entity) : Prop :=
  ∃ id n, e.Becomes { e' with id := id } ∧
    e'.id = Forest.candidateId id (e'.span.start.row + 1) n

namespace Forest

variable {f g : Forest} {rank : Nat → Nat} {i j r : Nat}

/-! ## Forests with the same edges -/

theorem below_congr (hchildren : ∀ j, g.children j = f.children j) (depth i : Nat) :
    g.below depth i = f.below depth i := by
  induction depth generalizing i with
  | zero => rfl
  | succ depth ih =>
      rw [below, below, hchildren]
      apply List.flatMap_congr
      intro c _
      rw [ih]

theorem descendants_congr (hsize : g.size = f.size)
    (hchildren : ∀ j, g.children j = f.children j) (i : Nat) :
    g.descendants i = f.descendants i := by
  rw [descendants, descendants, hsize, below_congr hchildren]

theorem Linked.giveIds (h : f.Linked) (order : List Nat) (taken : List String) :
    (f.giveIds order taken).Linked := by
  apply giveIds_induction order taken h
  intro g i _ _ id hg
  exact hg.modify (fun _ => rfl) (fun _ => rfl)

theorem Ranked.giveIds (h : f.Ranked rank) (order : List Nat) (taken : List String) :
    (f.giveIds order taken).Ranked rank := by
  intro i p hp
  rw [parent?_giveIds] at hp
  exact h i p hp

/-! ## Entities that name one another -/

theorem linked?_eq_map (f : Forest) (i : Nat) :
    f.linked? i = (f.entity? i).map fun e =>
      { e with parent := (f.parent? i).map f.idAt, children := (f.children i).map f.idAt } := by
  rw [linked?, entity?, parent?, children]
  cases f.cell? i <;> rfl

/-- The entity at an index with the ids of its parent and its children. -/
def named (f : Forest) (i : Nat) : Entity := (f.linked? i).getD default

theorem named_eq {e : Entity} (he : f.entity? i = some e) :
    f.named i =
      { e with parent := (f.parent? i).map f.idAt, children := (f.children i).map f.idAt } := by
  rw [named, linked?_eq_map, he]
  rfl

theorem linked?_eq_some_named (hi : i < f.size) : f.linked? i = some (f.named i) := by
  obtain ⟨e, he⟩ := exists_entity?_iff.mpr hi
  rw [named, linked?_eq_map, he]
  rfl

@[simp] theorem id_named (hi : i < f.size) : (f.named i).id = f.idAt i := by
  obtain ⟨e, he⟩ := exists_entity?_iff.mpr hi
  rw [named_eq he, idAt_of_entity? he]

theorem parent_named (hi : i < f.size) : (f.named i).parent = (f.parent? i).map f.idAt := by
  obtain ⟨e, he⟩ := exists_entity?_iff.mpr hi
  rw [named_eq he]

theorem children_named (hi : i < f.size) : (f.named i).children = (f.children i).map f.idAt := by
  obtain ⟨e, he⟩ := exists_entity?_iff.mpr hi
  rw [named_eq he]

namespace Linked

/-- What is below an index is a list of subtrees. -/
theorem subtrees_named (h : f.Linked) (hrank : f.Ranked rank) (i : Nat) :
    Subtrees (f.idAt i) ((f.children i).map f.idAt) ((f.descendants i).map f.named) := by
  induction i using h.descend hrank with
  | step i ih =>
      rw [h.descendants_eq hrank i]
      have hparent : ∀ c ∈ f.children i, f.parent? c = some i :=
        fun c hc => (h.mem_children i c).mp hc
      -- one child after the other
      generalize f.children i = cs at ih hparent
      induction cs with
      | nil => exact .nil _
      | cons c cs ihcs =>
          have hc : f.parent? c = some i := hparent c List.mem_cons_self
          have hlt : c < f.size := lt_size_of_parent? hc
          have hrest := ihcs (fun d hd => ih d (List.mem_cons_of_mem c hd))
            (fun d hd => hparent d (List.mem_cons_of_mem c hd))
          have hinner := ih c List.mem_cons_self
          rw [← id_named hlt, ← children_named hlt] at hinner
          have hup : (f.named c).parent = some (f.idAt i) := by
            rw [parent_named hlt, hc]
            rfl
          have htree := Subtrees.cons hup hinner hrest
          simpa [id_named hlt] using htree

theorem finish_eq (h : f.Linked) (hrank : f.Ranked rank) (hroot : r < f.size) :
    f.finish r = (r :: f.descendants r).map (f.giveIds (f.idOrder r) []).named := by
  have hdescendants : (f.giveIds (f.idOrder r) []).descendants r = f.descendants r :=
    descendants_congr (size_giveIds ..) (children_giveIds f _ _) r
  rw [finish, hdescendants, firstOccurrences_eq_self (h.nodup_descendants hrank r),
    ← List.filterMap_eq_map]
  apply List.filterMap_congr
  intro j hj
  have hlt : j < f.size := by
    rcases List.mem_cons.mp hj with rfl | hj
    · exact hroot
    · exact h.descendants_lt hrank hj
  exact linked?_eq_some_named (by simpa using hlt)

theorem nodup_idAt_giveIds (h : f.Linked) (hrank : f.Ranked rank) (hroot : r < f.size)
    (hkept : ∀ j ∈ r :: f.descendants r, f.isKept j) :
    ((r :: f.descendants r).map (f.giveIds (f.idOrder r) []).idAt).Nodup := by
  refine (h.nodup_descendants hrank r).map_on ?_
  intro i hi j hj heq
  exact idAt_giveIds_injective _ [] (nodup_idOrder hroot)
    (mem_idOrder_of_isKept hroot (hkept i hi)) (mem_idOrder_of_isKept hroot (hkept j hj))
    (hkept i hi) (hkept j hj) heq

end Linked

/-- A finished entity differs from the one in the forest by its id and its kin. -/
theorem named_giveIds (hroot : r < f.size) {e : Entity} (he : f.entity? j = some e)
    (hkind : e.kind ≠ .export) :
    ∃ n, (f.giveIds (f.idOrder r) []).named j =
      { e with
        id := candidateId e.id (e.span.start.row + 1) n
        parent := (f.parent? j).map (f.giveIds (f.idOrder r) []).idAt
        children := (f.children j).map (f.giveIds (f.idOrder r) []).idAt } := by
  obtain ⟨n, -, hentity⟩ := entity?_giveIds (f.idOrder r) [] (nodup_idOrder hroot)
    (mem_idOrder hroot (lt_size_of_entity? he)) he hkind
  refine ⟨n, ?_⟩
  rw [named_eq hentity, parent?_giveIds, children_giveIds]

theorem finishes_named_giveIds (hroot : r < f.size) {e₀ e : Entity} (he : f.entity? j = some e)
    (hkind : e.kind ≠ .export) (hbecomes : e₀.Becomes e) :
    e₀.Finishes ((f.giveIds (f.idOrder r) []).named j) := by
  obtain ⟨n, hnamed⟩ := named_giveIds hroot he hkind
  refine ⟨e.id, n, ?_, ?_⟩
  · rw [hnamed]
    exact ⟨hbecomes.language, hbecomes.body, hbecomes.bodyStart, hbecomes.span,
      hbecomes.imports, hbecomes.source, hbecomes.named⟩
  · rw [hnamed]

/-- The degrees of a finished entity count the kin that it names. -/
theorem Linked.degrees_named_giveIds (h : f.Linked) (hroot : r < f.size) (hkept : f.isKept j) :
    ((f.giveIds (f.idOrder r) []).named j).inDegree =
        ((f.giveIds (f.idOrder r) []).named j).children.length ∧
      ((f.giveIds (f.idOrder r) []).named j).outDegree =
        if (f.parent? j).isSome then 1 else 0 := by
  obtain ⟨e, he, hkind⟩ := hkept
  obtain ⟨n, hnamed⟩ := named_giveIds hroot he hkind
  constructor
  · rw [hnamed, List.length_map]
    exact h.inDegree j e he
  · rw [hnamed]
    exact h.outDegree j e he

/-- The finished list of a file with everything below it is a tree. -/
theorem Linked.fileTree_finish (h : f.Linked) (hrank : f.Ranked rank) {file : Entity}
    (hfile : f.entity? r = some file) (hkind : file.kind = .file) (hparent : f.parent? r = none)
    (hbelow : ∀ j ∈ f.descendants r, ∃ e, f.entity? j = some e ∧ e.kind ≠ .file ∧
      e.kind ≠ .export) :
    FileTree ((f.giveIds (f.idOrder r) []).named r)
      ((f.descendants r).map (f.giveIds (f.idOrder r) []).named) := by
  have hroot : r < f.size := lt_size_of_entity? hfile
  have hkept : ∀ j ∈ r :: f.descendants r, f.isKept j := by
    intro j hj
    rcases List.mem_cons.mp hj with rfl | hj
    · exact ⟨file, hfile, by rw [hkind]; decide⟩
    · obtain ⟨e, he, -, hexport⟩ := hbelow j hj
      exact ⟨e, he, hexport⟩
  have hdegrees := fun j hj => h.degrees_named_giveIds hroot (hkept j hj)
  have hlt : ∀ j ∈ r :: f.descendants r, j < (f.giveIds (f.idOrder r) []).size := by
    intro j hj
    obtain ⟨e, he, -⟩ := hkept j hj
    simpa using lt_size_of_entity? he
  have hdescendants : (f.giveIds (f.idOrder r) []).descendants r = f.descendants r :=
    descendants_congr (size_giveIds ..) (children_giveIds f _ _) r
  constructor
  · obtain ⟨n, hnamed⟩ := named_giveIds hroot hfile (by rw [hkind]; decide)
    rw [hnamed]
    exact hkind
  · rw [parent_named (hlt r List.mem_cons_self), parent?_giveIds, hparent]
    rfl
  · rw [id_named (hlt r List.mem_cons_self), children_named (hlt r List.mem_cons_self),
      ← hdescendants]
    exact (h.giveIds _ _).subtrees_named (hrank.giveIds _ _) r
  · intro d hd
    obtain ⟨j, hj, rfl⟩ := List.mem_map.mp hd
    obtain ⟨e, he, hne, hexport⟩ := hbelow j hj
    obtain ⟨n, hnamed⟩ := named_giveIds hroot he hexport
    rw [hnamed]
    exact ⟨hne, hexport⟩
  · have hids : ∀ j ∈ r :: f.descendants r, ((f.giveIds (f.idOrder r) []).named j).id =
        (f.giveIds (f.idOrder r) []).idAt j := fun j hj => id_named (hlt j hj)
    rw [← List.map_cons (f := (f.giveIds (f.idOrder r) []).named), List.map_map]
    refine (congrArg List.Nodup (List.map_congr_left hids)).mpr ?_
    exact h.nodup_idAt_giveIds hrank hroot hkept
  · intro d hd
    rw [← List.map_cons (f := (f.giveIds (f.idOrder r) []).named)] at hd
    obtain ⟨j, hj, rfl⟩ := List.mem_map.mp hd
    exact (hdegrees j hj).1
  · rw [(hdegrees r List.mem_cons_self).2, hparent]
    rfl
  · intro d hd
    obtain ⟨j, hj, rfl⟩ := List.mem_map.mp hd
    obtain ⟨p, hp, -⟩ := (h.mem_descendants_iff_parent? hrank).mp hj
    rw [(hdegrees j (List.mem_cons_of_mem r hj)).2, hp]
    rfl

end Forest
end CodeAtlas
