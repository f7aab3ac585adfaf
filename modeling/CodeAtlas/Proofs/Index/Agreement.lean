import CodeAtlas.Proofs.Index.Recording
import CodeAtlas.Proofs.Index.Sight

/-!
# When two indices agree

Two indices that store the same files alike find the same uses.  After these are recorded, the
indices know the same uses if what they knew before is the same, or is found again; and they then
hold the same entities, as degrees follow the uses.
-/

namespace CodeAtlas
namespace Index

variable {x y : Index} {blocks blocks' : List FileBlock}

theorem Stores.find?_eq_none (h : Stores x blocks) {id : String} (hid : id ∉ idsOf blocks) :
    x.find? id = none := by
  have hmissing : ¬ (x.find? id).isSome := fun hsome => hid (h.contains_iff.mp hsome)
  exact Option.not_isSome_iff_eq_none.mp hmissing

/-- Indices that store the same entities and know the same uses agree, if they agree in what is not
counted. -/
theorem Stores.find?_eq_of_uncounted (h : Stores x blocks) (h' : Stores y blocks')
    (hmem : ∀ e ∈ entitiesOf blocks, e ∈ entitiesOf blocks') (huses : y.uses = x.uses)
    (hsame : ∀ id, (x.find? id).map Entity.uncounted = (y.find? id).map Entity.uncounted)
    (id : String) : y.find? id = x.find? id := by
  cases hfind : x.find? id with
  | none =>
      have hnone := hsame id
      rw [hfind, Option.map_none, eq_comm, Option.map_eq_none_iff] at hnone
      exact hnone
  | some found =>
      have hstored : id ∈ idsOf blocks :=
        h.contains_iff.mp (Option.isSome_iff_exists.mpr ⟨found, hfind⟩)
      obtain ⟨e, he, rfl⟩ := List.mem_map.mp hstored
      obtain ⟨imports, hleft⟩ := h.entity e he
      obtain ⟨imports', hright⟩ := h'.entity e (hmem e he)
      have himports : imports = imports' := by
        have hview := hsame e.id
        rw [hleft, hright] at hview
        exact congrArg Entity.imports (Option.some.inj hview)
      rw [hright, ← hfind, hleft, counted_of_uses_eq huses, himports]

namespace Alike

theorem find?_uncounted (h : Alike x y blocks blocks' fun _ => True)
    (hblocks : blocks.Perm blocks') (id : String) :
    (x.find? id).map Entity.uncounted = (y.find? id).map Entity.uncounted := by
  by_cases hid : id ∈ idsOf blocks
  · obtain ⟨e, he, rfl⟩ := List.mem_map.mp hid
    obtain ⟨b, hb, hmem⟩ := List.mem_flatMap.mp he
    rw [h.left.find?_eq he, h.right.find?_eq (mem_entitiesOf (hblocks.mem_iff.mp hb) hmem),
      Option.map_some, Option.map_some, h.current b hb trivial e hmem]
  · have hid' : id ∉ idsOf blocks' :=
      fun hmem => hid (((hblocks.flatMap_right _).map _).mem_iff.mpr hmem)
    rw [h.left.find?_eq_none hid, h.right.find?_eq_none hid']

theorem foundUses_perm (h : Alike x y blocks blocks' fun _ => True)
    (hblocks : blocks.Perm blocks') : x.foundUses.Perm y.foundUses := by
  have hsame : ∀ b ∈ blocks, x.usesInFile b.file.id = y.usesInFile b.file.id := by
    intro b hb
    have htwins : Twins x y blocks (fun _ => True) (x.current b.file) (y.current b.file) :=
      ⟨b, hb, trivial, b.file, b.file_mem, rfl, rfl⟩
    have huses := h.usesInFile htwins fun _ _ => trivial
    rwa [h.left.id_current (mem_entitiesOf hb b.file_mem),
      h.right.id_current (mem_entitiesOf (hblocks.mem_iff.mp hb) b.file_mem)] at huses
  rw [foundUses, foundUses, h.left.files, h.right.files, List.flatMap_map, List.flatMap_map,
    List.flatMap_congr hsame]
  exact hblocks.flatMap_right _

theorem foundLines?_eq (h : Alike x y blocks blocks' fun _ => True)
    (hblocks : blocks.Perm blocks') (s t : String) :
    foundLines? y.foundUses s t = foundLines? x.foundUses s t := by
  have hfind := Table.find?_eq_of_perm (t := ⟨x.foundUses⟩) (u := ⟨y.foundUses⟩)
    (h.foundUses_perm hblocks) h.left.nodup_found s
  exact congrArg (fun o : Option (Table (List Nat)) => o.bind fun t' => t'.find? t) hfind.symm

theorem admits_iff (h : Alike x y blocks blocks' fun _ => True) (hblocks : blocks.Perm blocks')
    (s t : String) : y.Admits s t ↔ x.Admits s t := by
  have hids : t ∈ idsOf blocks ↔ t ∈ idsOf blocks' :=
    ((hblocks.flatMap_right _).map _).mem_iff
  rw [Admits, Admits, h.left.contains_iff, h.right.contains_iff, hids]

/-- Two indices agree after recording what was found in them, if each use that one of them knew
before was known to the other one in the same way, or was found. -/
theorem addUses_eq (h : Alike x y blocks blocks' fun _ => True) (hblocks : blocks.Perm blocks')
    (hfilled : x.UsesFilled) (hfilled' : y.UsesFilled)
    (hold : ∀ s t, y.lines? s t = x.lines? s t ∨
      (x.Admits s t ∧ (foundLines? x.foundUses s t).isSome)) :
    (y.addUses y.foundUses).1.uses = (x.addUses x.foundUses).1.uses ∧
      ∀ id, (y.addUses y.foundUses).1.find? id = (x.addUses x.foundUses).1.find? id := by
  have hlines : ∀ s t, (y.addUses y.foundUses).1.lines? s t =
      (x.addUses x.foundUses).1.lines? s t := by
    intro s t
    rw [h.left.lines?_addUses_found, h.right.lines?_addUses_found, h.foundLines?_eq hblocks]
    simp only [h.admits_iff hblocks]
    obtain hsame | ⟨hadmits, hfound⟩ := hold s t
    · rw [hsame]
    · obtain ⟨lines, hlines⟩ := Option.isSome_iff_exists.mp hfound
      rw [if_pos hadmits, if_pos hadmits, hlines]
      rfl
  have huses := uses_eq_of_lines? h.right.addUses_found.uses h.left.addUses_found.uses
    (hfilled'.addUses _) (hfilled.addUses _) hlines
  refine ⟨huses, h.left.addUses_found.find?_eq_of_uncounted h.right.addUses_found ?_ huses ?_⟩
  · exact fun e he => (hblocks.flatMap_right _).mem_iff.mp he
  · intro id
    obtain ⟨-, -, hleft⟩ := addUses_keeps h.left.keys_ordered x.foundUses
    obtain ⟨-, -, hright⟩ := addUses_keeps h.right.keys_ordered y.foundUses
    rw [hleft, hright]
    exact h.find?_uncounted hblocks id

end Alike
end Index
end CodeAtlas
