import CodeAtlas.Proofs.Index.Listing

/-!
# Counting uses

Recording a use counts it at both ends exactly when it is new, so the degrees of a stored entity
follow the recorded uses.  Only uses between different known ids are recorded.
-/

namespace CodeAtlas
namespace Index

variable {x : Index} {blocks : List FileBlock} {source target : String} {lines : List Nat}

/-! ## Pairs of a table of uses -/

section Pairs

variable {u : Table (Table (List Nat))} {known : Table (List Nat)}

theorem pairsIn_append (us us' : List (String × Table (List Nat))) :
    pairsIn (us ++ us') = pairsIn us ++ pairsIn us' :=
  List.flatMap_append

theorem pairsIn_cons (e : String × Table (List Nat)) (us : List (String × Table (List Nat))) :
    pairsIn (e :: us) = e.2.keys.map (e.1, ·) ++ pairsIn us :=
  List.flatMap_cons

theorem mem_pairsIn {us : List (String × Table (List Nat))} :
    (source, target) ∈ pairsIn us ↔ ∃ t, (source, t) ∈ us ∧ target ∈ t.keys := by
  simp [pairsIn]

/-- A use that is known already adds no pair. -/
theorem pairsIn_insert_of_contains (hu : u.Ordered) (hfind : u.find? source = some known)
    (hknown : known.Ordered) (hcontains : known.contains target = true) (lines : List Nat) :
    pairsIn (u.insert source (known.insert target lines)).entries = pairsIn u.entries := by
  obtain ⟨before, after, hentries, hinsert⟩ := hu.exists_entries_insert hfind
  obtain ⟨w, hw⟩ := Option.isSome_iff_exists.mp hcontains
  rw [hinsert, hentries, pairsIn_append, pairsIn_append, pairsIn_cons, pairsIn_cons,
    hknown.keys_insert hw]

/-- A new use adds one pair. -/
theorem pairsIn_insert_of_not_contains (hu : u.Ordered)
    (hcontains : ((u.find? source).getD .empty).contains target = false) (lines : List Nat) :
    (pairsIn (u.insert source (((u.find? source).getD .empty).insert target lines)).entries).Perm
      ((source, target) :: pairsIn u.entries) := by
  have hnone : ((u.find? source).getD .empty).find? target = none := by
    rwa [Table.contains, Option.isSome_eq_false_iff, Option.isNone_iff_eq_none] at hcontains
  cases hfind : u.find? source with
  | none => exact (Table.entries_insert_of_none hfind _).flatMap_right _
  | some known =>
      rw [hfind, Option.getD_some] at hnone
      have hkeys : (known.insert target lines).keys.Perm (target :: known.keys) :=
        (Table.entries_insert_of_none hnone lines).map Prod.fst
      obtain ⟨before, after, hentries, hinsert⟩ := hu.exists_entries_insert hfind
      rw [Option.getD_some, hinsert, hentries, pairsIn_append, pairsIn_append, pairsIn_cons,
        pairsIn_cons]
      have hmiddle := ((hkeys.map (source, ·)).append_right (pairsIn after)).append_left
        (pairsIn before)
      exact hmiddle.trans List.perm_middle

end Pairs

/-! ## Recording a use -/

/-- What is known of the uses of an id. -/
def knownUses (x : Index) (source : String) : Table (List Nat) := (x.usesOf? source).getD .empty

theorem uses_link (x : Index) (source target : String) (lines : List Nat) :
    (x.link source target lines).1.uses =
      x.uses.insert source ((x.knownUses source).insert target lines) := by
  rw [link]
  dsimp only
  split <;> rfl

theorem files_link (x : Index) (source target : String) (lines : List Nat) :
    (x.link source target lines).1.files = x.files := by
  rw [link]
  dsimp only
  split <;> rfl

theorem entities_link (x : Index) (source target : String) (lines : List Nat) :
    (x.link source target lines).1.entities =
      if (x.knownUses source).contains target then x.entities
      else (x.entities.modify source fun e => { e with outDegree := e.outDegree + 1 }).modify target
        fun e => { e with inDegree := e.inDegree + 1 } := by
  rw [link, knownUses]
  dsimp only
  split <;> rfl

namespace UsesAmong

variable {ids : List String}

theorem ordered_knownUses (h : x.UsesAmong ids) (source : String) :
    (x.knownUses source).Ordered := by
  rw [knownUses, usesOf?]
  cases hfind : x.uses.find? source with
  | none => exact .empty
  | some known => exact h.inner _ (Table.mem_entries_of_find? hfind)

theorem not_mem_of_not_contains (h : x.UsesAmong ids)
    (hcontains : (x.knownUses source).contains target = false) :
    (source, target) ∉ x.usePairs := by
  intro hmem
  obtain ⟨known, hknown, htarget⟩ := mem_pairsIn.mp hmem
  have hfind : x.uses.find? source = some known := h.ordered.find?_of_mem hknown
  rw [knownUses, usesOf?, hfind, Option.getD_some] at hcontains
  rw [← Table.contains_iff_mem_keys, hcontains] at htarget
  exact absurd htarget (by simp)

theorem usePairs_link_of_contains (h : x.UsesAmong ids)
    (hcontains : (x.knownUses source).contains target = true) (lines : List Nat) :
    (x.link source target lines).1.usePairs = x.usePairs := by
  have hordered := h.ordered_knownUses source
  rw [usePairs, uses_link]
  cases hfind : x.uses.find? source with
  | none =>
      rw [knownUses, usesOf?, hfind] at hcontains
      exact absurd hcontains (by simp [Table.contains])
  | some known =>
      have hknown : x.knownUses source = known := by rw [knownUses, usesOf?, hfind]; rfl
      rw [hknown] at hcontains hordered ⊢
      exact pairsIn_insert_of_contains h.ordered hfind hordered hcontains lines

theorem usePairs_link_of_not_contains (h : x.UsesAmong ids)
    (hcontains : (x.knownUses source).contains target = false) (lines : List Nat) :
    (x.link source target lines).1.usePairs.Perm ((source, target) :: x.usePairs) := by
  rw [usePairs, uses_link]
  exact pairsIn_insert_of_not_contains h.ordered hcontains lines

/-- A new use is counted at both ends. -/
theorem counts_link_of_not_contains (h : x.UsesAmong ids)
    (hcontains : (x.knownUses source).contains target = false) (lines : List Nat) (id : String) :
    (x.link source target lines).1.usesTo id = x.usesTo id + (if target = id then 1 else 0) ∧
      (x.link source target lines).1.usesFrom id =
        x.usesFrom id + if source = id then 1 else 0 := by
  have hpairs := h.usePairs_link_of_not_contains hcontains lines
  rw [usesTo, usesFrom, hpairs.countP_eq, hpairs.countP_eq, List.countP_cons, List.countP_cons]
  simp only [decide_eq_true_eq]
  exact ⟨rfl, rfl⟩

/-- Recording a use between different known ids keeps the uses in order. -/
theorem link (h : x.UsesAmong ids) (hsource : source ∈ ids) (htarget : target ∈ ids)
    (hne : source ≠ target) (lines : List Nat) :
    (x.link source target lines).1.UsesAmong ids := by
  have hinner : ∀ u ∈ (x.link source target lines).1.uses.entries, u.2.Ordered := by
    rw [uses_link]
    intro u hu
    rcases Table.mem_entries_insert hu with rfl | hu
    · exact (h.ordered_knownUses source).insert target lines
    · exact h.inner u hu
  have hordered : (x.link source target lines).1.uses.Ordered := by
    rw [uses_link]
    exact h.ordered.insert _ _
  cases hcontains : (x.knownUses source).contains target with
  | true =>
      have hpairs := h.usePairs_link_of_contains hcontains lines
      exact ⟨hordered, hinner, hpairs ▸ h.nodup, hpairs ▸ h.irrefl, hpairs ▸ h.source_mem,
        hpairs ▸ h.target_mem⟩
  | false =>
      have hpairs := h.usePairs_link_of_not_contains hcontains lines
      have hforall : ∀ {p : String × String → Prop}, p (source, target) →
          (∀ u ∈ x.usePairs, p u) → ∀ u ∈ (x.link source target lines).1.usePairs, p u := by
        intro p hnew hold u hu
        rcases List.mem_cons.mp (hpairs.mem_iff.mp hu) with rfl | hu
        · exact hnew
        · exact hold u hu
      refine ⟨hordered, hinner, ?_, hforall hne h.irrefl, hforall hsource h.source_mem,
        hforall htarget h.target_mem⟩
      rw [hpairs.nodup_iff, List.nodup_cons]
      exact ⟨h.not_mem_of_not_contains hcontains, h.nodup⟩

end UsesAmong

namespace Stores

/-- A use between different known ids can be recorded. -/
theorem link (h : Stores x blocks) (hsource : source ∈ idsOf blocks)
    (htarget : target ∈ idsOf blocks) (hne : source ≠ target) (lines : List Nat) :
    Stores (x.link source target lines).1 blocks := by
  have huses := h.uses.link hsource htarget hne lines
  have hentities := entities_link x source target lines
  cases hcontains : (x.knownUses source).contains target with
  | true =>
      have hpairs := h.uses.usePairs_link_of_contains hcontains lines
      rw [hcontains, if_pos rfl] at hentities
      refine ⟨h.nodup, by rw [files_link, h.files], hentities ▸ h.keys_ordered, hentities ▸ h.keys,
        ?_, huses⟩
      intro e he
      obtain ⟨imports, hfind⟩ := h.entity e he
      refine ⟨imports, ?_⟩
      rw [find?, hentities, counted, usesTo, usesFrom, hpairs]
      exact hfind
  | false =>
      rw [hcontains, if_neg (by simp)] at hentities
      refine ⟨h.nodup, by rw [files_link, h.files], ?_, ?_, ?_, huses⟩
      · rw [hentities]
        exact (h.keys_ordered.modify source _).modify target _
      · rw [hentities, (h.keys_ordered.modify source _).keys_modify, h.keys_ordered.keys_modify]
        exact h.keys
      · intro e he
        obtain ⟨imports, hfind⟩ := h.entity e he
        obtain ⟨hto, hfrom⟩ := h.uses.counts_link_of_not_contains hcontains lines e.id
        refine ⟨imports, ?_⟩
        rw [find?, hentities, Table.find?_modify, Table.find?_modify, ← find?, hfind, counted,
          counted, hto, hfrom]
        by_cases hs : e.id = source
        · simp [hs, hne, Ne.symm hne, Nat.add_assoc]
        · by_cases ht : e.id = target
          · simp [ht, hne, Ne.symm hne, Nat.add_assoc]
          · simp [hs, ht, Ne.symm hs, Ne.symm ht]

theorem addUse {y : Index × Nat} (h : Stores y.1 blocks) (hsource : source ∈ idsOf blocks)
    (use : String × List Nat) : Stores (Index.addUse source y use).1 blocks := by
  rw [Index.addUse]
  split
  next => exact h
  next hguard =>
    simp only [Bool.or_eq_true, beq_iff_eq, Bool.not_eq_true', not_or, Bool.not_eq_false]
      at hguard
    exact h.link hsource (h.contains_iff.mp hguard.2) (Ne.symm hguard.1) use.2

theorem addUses (h : Stores x blocks) {found : List (String × Table (List Nat))}
    (hfound : ∀ f ∈ found, f.1 ∈ idsOf blocks) : Stores (x.addUses found).1 blocks := by
  refine List.foldlRecOn (motive := fun y : Index × Nat => Stores y.1 blocks) found _ h ?_
  intro y hy f hf
  refine List.foldlRecOn (motive := fun y : Index × Nat => Stores y.1 blocks) f.2.entries _ hy ?_
  intro z hz use _
  exact hz.addUse (hfound f hf) use

/-- Uses are looked for in stored entities only. -/
theorem usesInFile_source_mem (h : Stores x blocks) :
    ∀ f ∈ x.files.flatMap x.usesInFile, f.1 ∈ idsOf blocks := by
  intro f hf
  obtain ⟨id, hid, hf⟩ := List.mem_flatMap.mp hf
  rw [h.files] at hid
  obtain ⟨b, hb, rfl⟩ := List.mem_map.mp hid
  have hfile := mem_entitiesOf hb b.file_mem
  rw [usesInFile, h.find?_eq hfile, h.descendants_eq hb] at hf
  obtain ⟨e, he, rfl⟩ := List.mem_map.mp (List.mem_of_mem_filter hf)
  have hlisted : x.current b.file :: b.below.map x.current = b.entities.map x.current := rfl
  rw [hlisted] at he
  obtain ⟨d, hd, rfl⟩ := List.mem_map.mp he
  have hmem := mem_entitiesOf hb hd
  rw [h.id_current hmem]
  exact List.mem_map_of_mem hmem

end Stores

end Index
end CodeAtlas
