import CodeAtlas.Proofs.Index.Uncounted
import CodeAtlas.Proofs.Uses
import Mathlib.Data.List.Flatten

/-!
# Recorded uses

What an index knows of uses after some were recorded: the lines that were found take the place of
the lines known before, and nothing is ever taken back.  As the tables of uses stand in order, they
are determined by what they say about each pair of ids; so neither the order in which uses are
recorded matters, nor whether they are recorded once or again.
-/

namespace CodeAtlas
namespace Index

variable {x y : Index} {blocks : List FileBlock} {found : List (String × Table (List Nat))}
  {source target : String}

/-- The lines on which one id uses another. -/
def lines? (x : Index) (source target : String) : Option (List Nat) :=
  (x.knownUses source).find? target

theorem UsesAmong.mem_usePairs {ids : List String} (h : x.UsesAmong ids) :
    (source, target) ∈ x.usePairs ↔ (x.lines? source target).isSome := by
  constructor
  · intro hmem
    by_contra hnone
    have hcontains : (x.knownUses source).contains target = false := Bool.not_eq_true _ ▸ hnone
    exact h.not_mem_of_not_contains hcontains hmem
  · intro hsome
    obtain ⟨lines, hlines⟩ := Option.isSome_iff_exists.mp hsome
    cases hfind : x.uses.find? source with
    | none =>
        rw [lines?, knownUses, usesOf?, hfind] at hlines
        exact absurd hlines (by simp)
    | some known =>
        rw [lines?, knownUses, usesOf?, hfind, Option.getD_some] at hlines
        exact mem_pairsIn.mpr ⟨known, Table.mem_entries_of_find? hfind,
          List.mem_map_of_mem (Table.mem_entries_of_find? hlines)⟩

/-! ## Recording one use -/

theorem knownUses_link (x : Index) (source target : String) (lines : List Nat) (s : String) :
    (x.link source target lines).1.knownUses s =
      if s = source then (x.knownUses source).insert target lines else x.knownUses s := by
  rw [knownUses, usesOf?, uses_link, Table.find?_insert]
  split
  · rfl
  · rfl

theorem lines?_link (x : Index) (source target : String) (lines : List Nat) (s t : String) :
    (x.link source target lines).1.lines? s t =
      if s = source ∧ t = target then some lines else x.lines? s t := by
  rw [lines?, knownUses_link]
  by_cases hs : s = source
  · rw [if_pos hs, Table.find?_insert]
    by_cases ht : t = target
    · rw [if_pos ht, if_pos ⟨hs, ht⟩]
    · rw [if_neg ht, if_neg fun h => ht h.2, lines?, hs]
  · rw [if_neg hs, if_neg fun h => hs h.1, lines?]

theorem contains_link (x : Index) (source target : String) (lines : List Nat) (id : String) :
    (x.link source target lines).1.entities.contains id = x.entities.contains id := by
  rw [entities_link]
  split
  · rfl
  · rw [Table.contains, Table.find?_modify, Table.find?_modify, Option.isSome_map,
      Option.isSome_map, Table.contains]

/-- One id may be recorded to use another: both differ, and the other one is indexed. -/
def Admits (x : Index) (source target : String) : Prop :=
  target ≠ source ∧ x.entities.contains target = true

instance (x : Index) (source target : String) : Decidable (x.Admits source target) :=
  inferInstanceAs (Decidable (target ≠ source ∧ x.entities.contains target = true))

theorem addUse_cases (source : String) (y : Index × Nat) (use : String × List Nat) :
    (y.1.Admits source use.1 ∧ (addUse source y use).1 = (y.1.link source use.1 use.2).1) ∨
      (¬ y.1.Admits source use.1 ∧ (addUse source y use).1 = y.1) := by
  rw [addUse, Admits]
  split
  next hguard =>
    refine Or.inr ⟨?_, rfl⟩
    rintro ⟨hne, hcontains⟩
    simp [hne, hcontains] at hguard
  next hguard =>
    refine Or.inl ⟨?_, rfl⟩
    simp only [Bool.or_eq_true, beq_iff_eq, Bool.not_eq_true', not_or, Bool.not_eq_false]
      at hguard
    exact hguard

theorem admits_addUse (source : String) (y : Index × Nat) (use : String × List Nat)
    (s t : String) : (addUse source y use).1.Admits s t ↔ y.1.Admits s t := by
  obtain ⟨-, heq⟩ | ⟨-, heq⟩ := addUse_cases source y use
  · rw [heq, Admits, Admits, contains_link]
  · rw [heq]

theorem lines?_addUse_self {y : Index × Nat} {use : String × List Nat}
    (hadmits : y.1.Admits source use.1) :
    (addUse source y use).1.lines? source use.1 = some use.2 := by
  obtain ⟨-, heq⟩ | ⟨hnot, -⟩ := addUse_cases source y use
  · rw [heq, lines?_link, if_pos ⟨rfl, rfl⟩]
  · exact absurd hadmits hnot

theorem lines?_addUse_of_ne {y : Index × Nat} {use : String × List Nat} {s t : String}
    (h : ¬ (y.1.Admits s t ∧ s = source ∧ t = use.1)) :
    (addUse source y use).1.lines? s t = y.1.lines? s t := by
  obtain ⟨hadmits, heq⟩ | ⟨-, heq⟩ := addUse_cases source y use
  · rw [heq, lines?_link, if_neg]
    rintro ⟨rfl, rfl⟩
    exact h ⟨hadmits, rfl, rfl⟩
  · rw [heq]

/-! ## Recording many uses -/

/-- The lines that were found for a pair of ids. -/
def foundLines? (found : List (String × Table (List Nat))) (source target : String) :
    Option (List Nat) :=
  (Table.findIn source found).bind fun t => t.find? target

theorem admits_foldl_addUse (source : String) (uses : List (String × List Nat)) (y : Index × Nat)
    (s t : String) : (uses.foldl (addUse source) y).1.Admits s t ↔ y.1.Admits s t := by
  refine List.foldlRecOn (motive := fun z : Index × Nat => z.1.Admits s t ↔ y.1.Admits s t)
    uses _ Iff.rfl ?_
  intro z hz use _
  rw [admits_addUse, hz]

theorem lines?_foldl_addUse_of_ne {uses : List (String × List Nat)} {y : Index × Nat}
    {s t : String} (h : ¬ (y.1.Admits s t ∧ s = source ∧ t ∈ uses.map Prod.fst)) :
    (uses.foldl (addUse source) y).1.lines? s t = y.1.lines? s t := by
  induction uses generalizing y with
  | nil => rfl
  | cons use uses ih =>
      rw [List.map_cons, List.mem_cons] at h
      rw [List.foldl_cons, ih, lines?_addUse_of_ne]
      · rintro ⟨hadmits, hs, ht⟩
        exact h ⟨hadmits, hs, Or.inl ht⟩
      · rintro ⟨hadmits, hs, ht⟩
        exact h ⟨(admits_addUse source y use s t).mp hadmits, hs, Or.inr ht⟩

theorem lines?_foldl_addUse {uses : List (String × List Nat)} (hnodup : (uses.map Prod.fst).Nodup)
    {y : Index × Nat} {lines : List Nat} (hmem : (target, lines) ∈ uses)
    (hadmits : y.1.Admits source target) :
    (uses.foldl (addUse source) y).1.lines? source target = some lines := by
  induction uses generalizing y with
  | nil => exact absurd hmem (by simp)
  | cons use uses ih =>
      rw [List.map_cons, List.nodup_cons] at hnodup
      rw [List.foldl_cons]
      rcases List.mem_cons.mp hmem with rfl | hmem
      · rw [lines?_foldl_addUse_of_ne fun h => hnodup.1 h.2.2, lines?_addUse_self hadmits]
      · exact ih hnodup.2 hmem ((admits_addUse source y use source target).mpr hadmits)

/-- The lines that are known after uses were recorded: those that were found, and else those that
were known before. -/
theorem lines?_addUses (hnodup : (found.map Prod.fst).Nodup)
    (htables : ∀ f ∈ found, f.2.keys.Nodup) (x : Index) (s t : String) :
    (x.addUses found).1.lines? s t =
      if x.Admits s t then (foundLines? found s t).or (x.lines? s t) else x.lines? s t := by
  have hfold : ∀ y : Index × Nat, (y.1.Admits s t ↔ x.Admits s t) →
      (found.foldl (fun y f => f.2.entries.foldl (addUse f.1) y) y).1.lines? s t =
        if x.Admits s t then (foundLines? found s t).or (y.1.lines? s t) else y.1.lines? s t := by
    induction found with
    | nil =>
        intro y _
        simp [foundLines?, Table.findIn]
    | cons f found ih =>
        intro y hy
        rw [List.map_cons, List.nodup_cons] at hnodup
        rw [List.forall_mem_cons] at htables
        rw [List.foldl_cons, ih hnodup.2 htables.2 _
          ((admits_foldl_addUse f.1 f.2.entries y s t).trans hy)]
        by_cases hadmits : x.Admits s t
        · rw [if_pos hadmits, if_pos hadmits, foundLines?, foundLines?, Table.findIn]
          by_cases hs : f.1 = s
          · -- this is the only table for the source
            have hnone : Table.findIn s found = none :=
              Table.findIn_eq_none_iff.mpr (hs ▸ hnodup.1)
            rw [if_pos hs, hnone, Option.bind_none, Option.none_or, Option.bind_some]
            cases hlines : f.2.find? t with
            | none =>
                have hnot : t ∉ f.2.entries.map Prod.fst := Table.find?_eq_none_iff.mp hlines
                rw [lines?_foldl_addUse_of_ne fun h => hnot h.2.2, Option.none_or]
            | some lines =>
                have hmem := Table.mem_entries_of_find? hlines
                rw [← hs, lines?_foldl_addUse htables.1 hmem (hs ▸ hy.mpr hadmits)]
                rfl
          · rw [if_neg hs, lines?_foldl_addUse_of_ne fun h => hs h.2.1.symm]
        · rw [if_neg hadmits, if_neg hadmits,
            lines?_foldl_addUse_of_ne fun h => hadmits (hy.mp h.1)]
  exact hfold (x, 0) Iff.rfl

/-- Recording changes neither the files nor what is not counted. -/
theorem addUses_keeps (h : x.entities.Ordered) (found : List (String × Table (List Nat))) :
    (x.addUses found).1.root = x.root ∧ (x.addUses found).1.files = x.files ∧
      ∀ id, ((x.addUses found).1.find? id).map Entity.uncounted =
        (x.find? id).map Entity.uncounted := by
  obtain ⟨-, hsame⟩ := uncounted_addUses h found
  have hroot : (x.addUses found).1.uncounted.root = x.uncounted.root := by rw [hsame]
  have hfiles : (x.addUses found).1.uncounted.files = x.uncounted.files := by rw [hsame]
  refine ⟨hroot, hfiles, ?_⟩
  intro id
  rw [← find?_uncounted, hsame, find?_uncounted]

/-! ## Found uses -/

/-- What is found in all files. -/
def foundUses (x : Index) : List (String × Table (List Nat)) := x.files.flatMap x.usesInFile

theorem ordered_of_mem_usesInFile {id : String} {f : String × Table (List Nat)}
    (hf : f ∈ x.usesInFile id) : f.2.Ordered := by
  rw [usesInFile] at hf
  split at hf
  · exact absurd hf (by simp)
  · obtain ⟨e, -, rfl⟩ := List.mem_map.mp (List.mem_of_mem_filter hf)
    exact Uses.ordered_ofCaptures _ e _

theorem Stores.addUses_found (h : Stores x blocks) : Stores (x.addUses x.foundUses).1 blocks :=
  h.addUses h.usesInFile_source_mem

theorem Stores.sublist_usesInFile (h : Stores x blocks) {b : FileBlock} (hb : b ∈ blocks) :
    ((x.usesInFile b.file.id).map Prod.fst).Sublist (b.entities.map (·.id)) := by
  have hfile := mem_entitiesOf hb b.file_mem
  have hids : b.entities.map (·.id) = (b.entities.map x.current).map (·.id) := by
    rw [List.map_map]
    apply List.map_congr_left
    intro d hd
    exact (h.id_current (mem_entitiesOf hb hd)).symm
  rw [usesInFile, h.find?_eq hfile, h.descendants_eq hb, hids]
  refine (List.filter_sublist.map Prod.fst).trans ?_
  rw [List.map_map]
  exact .refl _

theorem idsOf_eq_flatMap (blocks : List FileBlock) :
    idsOf blocks = blocks.flatMap fun b => b.entities.map (·.id) := by
  rw [idsOf, entitiesOf, List.map_flatMap]

/-- In every entity uses are looked for once. -/
theorem Stores.nodup_found (h : Stores x blocks) :
    (x.foundUses.map Prod.fst).Nodup := by
  rw [foundUses, h.files, List.flatMap_map, List.map_flatMap]
  refine h.nodup.sublist ?_
  rw [idsOf_eq_flatMap]
  exact List.Sublist.flatMap_right blocks fun b hb => h.sublist_usesInFile hb

/-- What an index knows after it recorded what was found in it. -/
theorem Stores.lines?_addUses_found (h : Stores x blocks) (s t : String) :
    (x.addUses x.foundUses).1.lines? s t =
      if x.Admits s t then (foundLines? x.foundUses s t).or (x.lines? s t)
      else x.lines? s t := by
  refine lines?_addUses h.nodup_found ?_ x s t
  intro f hf
  obtain ⟨id, -, hf⟩ := List.mem_flatMap.mp hf
  exact (ordered_of_mem_usesInFile hf).nodup_keys

theorem mem_pairsIn_of_foundLines? {lines : List Nat}
    (h : foundLines? found source target = some lines) : (source, target) ∈ pairsIn found := by
  obtain ⟨t, ht, hlines⟩ := Option.bind_eq_some_iff.mp h
  have hmem : (source, t) ∈ found := Table.mem_entries_of_find? (t := ⟨found⟩) ht
  exact mem_pairsIn.mpr ⟨t, hmem, List.mem_map_of_mem (Table.mem_entries_of_find? hlines)⟩

/-- Nothing is recorded but what was found or known. -/
theorem Stores.mem_usePairs_addUses (h : Stores x blocks) {u : String × String}
    (hu : u ∈ (x.addUses x.foundUses).1.usePairs) :
    u ∈ x.usePairs ∨ u ∈ pairsIn x.foundUses := by
  have hlines := h.addUses_found.uses.mem_usePairs.mp hu
  rw [h.lines?_addUses_found] at hlines
  split at hlines
  · cases hfound : foundLines? x.foundUses u.1 u.2 with
    | some lines => exact Or.inr (mem_pairsIn_of_foundLines? hfound)
    | none =>
        rw [hfound, Option.none_or] at hlines
        exact Or.inl (h.uses.mem_usePairs.mpr hlines)
  · exact Or.inl (h.uses.mem_usePairs.mpr hlines)

/-! ## Tables of uses -/

/-- No table of uses is empty. -/
def UsesFilled (x : Index) : Prop := ∀ s known, x.usesOf? s = some known → known ≠ .empty

theorem UsesFilled.of_uses_eq (h : x.UsesFilled) (huses : y.uses = x.uses) : y.UsesFilled := by
  intro s known hknown
  rw [usesOf?, huses] at hknown
  exact h s known hknown

theorem usesFilled_empty (root : String) : (empty root).UsesFilled :=
  fun s known hknown => absurd hknown (by simp [usesOf?, empty])

theorem UsesFilled.link (h : x.UsesFilled) (source target : String) (lines : List Nat) :
    (x.link source target lines).1.UsesFilled := by
  intro s known hknown
  rw [usesOf?, uses_link, Table.find?_insert] at hknown
  split at hknown
  · obtain rfl := Option.some.inj hknown
    intro hempty
    have hfind := Table.find?_insert_self (x.knownUses source) target lines
    rw [hempty] at hfind
    exact absurd hfind (by simp)
  · exact h s known hknown

theorem UsesFilled.addUses (h : x.UsesFilled) (found : List (String × Table (List Nat))) :
    (x.addUses found).1.UsesFilled := by
  refine List.foldlRecOn (motive := fun y : Index × Nat => y.1.UsesFilled) found _ h ?_
  intro y hy f _
  refine List.foldlRecOn (motive := fun y : Index × Nat => y.1.UsesFilled) f.2.entries _ hy ?_
  intro z hz use _
  obtain ⟨-, heq⟩ | ⟨-, heq⟩ := addUse_cases f.1 z use
  · rw [heq]
    exact hz.link f.1 use.1 use.2
  · rw [heq]
    exact hz

/-- What an id uses is determined by the lines of each pair. -/
theorem usesOf?_eq_of_lines? {ids ids' : List String} (hx : x.UsesAmong ids)
    (hy : y.UsesAmong ids') (hfilled : x.UsesFilled) (hfilled' : y.UsesFilled) {s : String}
    (h : ∀ t, x.lines? s t = y.lines? s t) : x.usesOf? s = y.usesOf? s := by
  have hknown : x.knownUses s = y.knownUses s :=
    (hx.ordered_knownUses s).ext (hy.ordered_knownUses s) h
  rw [knownUses, knownUses] at hknown
  cases hfind : x.usesOf? s with
  | none =>
      cases hfind' : y.usesOf? s with
      | none => rfl
      | some known' =>
          rw [hfind, hfind'] at hknown
          exact absurd hknown.symm (hfilled' s known' hfind')
  | some known =>
      cases hfind' : y.usesOf? s with
      | none =>
          rw [hfind, hfind'] at hknown
          exact absurd hknown (hfilled s known hfind)
      | some known' =>
          rw [hfind, hfind'] at hknown
          exact congrArg some hknown

/-- Tables of uses that say the same about all pairs are equal. -/
theorem uses_eq_of_lines? {ids ids' : List String} (hx : x.UsesAmong ids) (hy : y.UsesAmong ids')
    (hfilled : x.UsesFilled) (hfilled' : y.UsesFilled)
    (h : ∀ s t, x.lines? s t = y.lines? s t) : x.uses = y.uses :=
  hx.ordered.ext hy.ordered fun s => usesOf?_eq_of_lines? hx hy hfilled hfilled' (h s)

/-! ## Counting new uses -/

theorem new_link (x : Index) (source target : String) (lines : List Nat) :
    (x.link source target lines).2 = !(x.knownUses source).contains target := by
  rw [link, knownUses]
  dsimp only
  split
  next hcontains => simp [hcontains]
  next hcontains => simp [hcontains]

/-- A use is counted exactly when it adds a pair. -/
theorem Stores.count_addUse {z : Index × Nat} (h : Stores z.1 blocks) (source : String)
    (use : String × List Nat) {n : Nat} (hcount : z.2 + n = z.1.usePairs.length) :
    (Index.addUse source z use).2 + n = (Index.addUse source z use).1.usePairs.length := by
  rw [Index.addUse]
  split
  next => exact hcount
  next =>
    dsimp only
    rw [new_link]
    cases hcontains : (z.1.knownUses source).contains use.1 with
    | true =>
        rw [h.uses.usePairs_link_of_contains hcontains use.2]
        exact hcount
    | false =>
        rw [(h.uses.usePairs_link_of_not_contains hcontains use.2).length_eq, List.length_cons,
          ← hcount]
        simp only [Bool.not_false, if_true]
        omega

/-- The number of new uses is that of the pairs that were added. -/
theorem Stores.count_addUses (h : Stores x blocks) (hfound : ∀ f ∈ found, f.1 ∈ idsOf blocks) :
    (x.addUses found).2 + x.usePairs.length = (x.addUses found).1.usePairs.length := by
  have hfold : Stores (x.addUses found).1 blocks ∧
      (x.addUses found).2 + x.usePairs.length = (x.addUses found).1.usePairs.length := by
    refine List.foldlRecOn (motive := fun z : Index × Nat =>
      Stores z.1 blocks ∧ z.2 + x.usePairs.length = z.1.usePairs.length) found _
      ⟨h, Nat.zero_add _⟩ ?_
    intro y hy f hf
    refine List.foldlRecOn (motive := fun z : Index × Nat =>
      Stores z.1 blocks ∧ z.2 + x.usePairs.length = z.1.usePairs.length) f.2.entries _ hy ?_
    intro z hz use _
    exact ⟨hz.1.addUse (hfound f hf) use, hz.1.count_addUse f.1 use hz.2⟩
  exact hfold.2

end Index
end CodeAtlas
