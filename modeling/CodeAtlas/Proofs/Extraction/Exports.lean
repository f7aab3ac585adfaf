import CodeAtlas.Proofs.Extraction.Tree

/-!
# What other files can see

A definition at the top of a file that other files can see passes this on to everything below it.
The definitions directly under the file are gone through one by one, and none of them is below
another one, so that marking what is below one of them changes neither the others nor what was
marked before.
-/

namespace CodeAtlas
namespace Forest

variable {f : Forest} {rank : Nat → Nat} {i j c : Nat}

/-- The entity at an index is visible to other files. -/
def isExportable (f : Forest) (i : Nat) : Bool := (f.entity? i).any (·.exportable)

/-! ## Marking what is below an index -/

theorem entity?_foldl_mark (f : Forest) (is : List Nat) (j : Nat) :
    (is.foldl (fun g c => g.modify c fun e => { e with exportable := true }) f).entity? j =
      (f.entity? j).map fun e => if j ∈ is then { e with exportable := true } else e := by
  induction is generalizing f with
  | nil => simp
  | cons i is ih =>
      rw [List.foldl_cons, ih, entity?_modify, Option.map_map]
      congr 1
      funext e
      by_cases hi : j = i
      · by_cases hmem : j ∈ is <;> simp [hi]
      · simp [hi]

/-- Exactly what is below an exportable entity is marked. -/
theorem entity?_propagateExport (f : Forest) (i j : Nat) :
    (f.propagateExport i).entity? j = (f.entity? j).map fun e =>
      if f.isExportable i = true ∧ j ∈ f.descendants i then { e with exportable := true } else e := by
  rw [propagateExport, ← isExportable]
  split
  next h => simp only [entity?_foldl_mark, h, true_and]
  next h => simp [h]

theorem isExportable_propagateExport_of (h : f.isExportable j = true) (i : Nat) :
    (f.propagateExport i).isExportable j = true := by
  obtain ⟨e, he, hexportable⟩ := (Option.any_eq_true _ _).mp h
  rw [isExportable, entity?_propagateExport, he, Option.map_some, Option.any_some]
  split
  · rfl
  · exact hexportable

theorem isExportable_foldl_of (h : f.isExportable j = true) (is : List Nat) :
    (is.foldl propagateExport f).isExportable j = true :=
  List.foldlRecOn (motive := fun g : Forest => g.isExportable j = true) is propagateExport h
    fun _ hg i _ => isExportable_propagateExport_of hg i

theorem isExportable_of_mem_descendants (hi : f.isExportable i = true) (hlt : j < f.size)
    (hj : j ∈ f.descendants i) : (f.propagateExport i).isExportable j = true := by
  obtain ⟨e, he⟩ := exists_entity?_iff.mpr hlt
  rw [isExportable, entity?_propagateExport, he, Option.map_some, Option.any_some,
    if_pos ⟨hi, hj⟩]

namespace Linked

/-- Marking what is below one child changes no other child. -/
theorem entity?_propagateExport_of_mem (h : f.Linked) (hrank : f.Ranked rank) {d : Nat}
    (hc : c ∈ f.children i) (hd : d ∈ f.children i) :
    (f.propagateExport d).entity? c = f.entity? c := by
  have hnot : c ∉ f.descendants d := by
    intro hmem
    have hsame := h.branch_unique hrank hc hd (Or.inl rfl) (Or.inr hmem)
    rw [← hsame] at hmem
    exact (List.nodup_cons.mp (h.nodup_descendants hrank c)).1 hmem
  simp [entity?_propagateExport, hnot]

/-- Children that are gone through stay as they are, and pass on that they are exportable. -/
theorem foldl_propagateExport (h : f.Linked) (hrank : f.Ranked rank) {cs : List Nat}
    (hcs : ∀ c ∈ cs, c ∈ f.children i) :
    (∀ c ∈ f.children i, (cs.foldl propagateExport f).entity? c = f.entity? c) ∧
      ∀ c ∈ cs, f.isExportable c = true → ∀ j ∈ f.descendants c,
        (cs.foldl propagateExport f).isExportable j = true := by
  induction cs generalizing f with
  | nil => exact ⟨fun _ _ => rfl, fun c hc => absurd hc (by simp)⟩
  | cons d cs ih =>
      have hmarks := Marks.propagateExport f d
      have hdescendants := descendants_congr hmarks.grows.size_eq hmarks.children
      have hrank' : (f.propagateExport d).Ranked rank := by
        intro i p hp
        rw [hmarks.parent?] at hp
        exact hrank i p hp
      have hd : d ∈ f.children i := hcs d List.mem_cons_self
      have hrest : ∀ c ∈ cs, c ∈ f.children i := fun c hc => hcs c (List.mem_cons_of_mem d hc)
      have hsame : ∀ c ∈ f.children i, (f.propagateExport d).entity? c = f.entity? c :=
        fun c hc => h.entity?_propagateExport_of_mem hrank hc hd
      obtain ⟨hkept, hpassed⟩ := ih (hmarks.linked h) hrank' (by simpa [hmarks.children] using hrest)
      rw [List.foldl_cons]
      constructor
      · intro c hc
        rw [hkept c (by rwa [hmarks.children]), hsame c hc]
      · intro c hc hexportable j hj
        rcases List.mem_cons.mp hc with rfl | hc
        · apply isExportable_foldl_of
          exact isExportable_of_mem_descendants hexportable (h.descendants_lt hrank hj) hj
        · refine hpassed c hc ?_ j (by rwa [hdescendants])
          rw [isExportable, hsame c (hrest c hc)]
          exact hexportable

end Linked
end Forest

namespace Extraction

variable {language : Language} {path content : String} {s : Survey} {c j : Nat}

/-! ## The forest of a file -/

/-- The forest of a file before what is below exportable definitions is marked. -/
def unmarkedForest (language : Language) (path content : String) (s : Survey) : Forest :=
  s.exports.foldl (applyExport 0) (placedForest language path content s)

theorem forest_eq (language : Language) (path content : String) (s : Survey) :
    forest language path content s =
      ((unmarkedForest language path content s).children 0).foldl Forest.propagateExport
        (unmarkedForest language path content s) := rfl

theorem marks_unmarkedForest (language : Language) (path content : String) (s : Survey) :
    (placedForest language path content s).Marks (unmarkedForest language path content s) :=
  .foldl (fun f clause => .applyExport f 0 clause) _ s.exports

/-- The definitions at the top of a file pass on that they are exportable. -/
theorem forest_exportable (language : Language) (path content : String) (s : Survey) :
    (∀ c ∈ (forest language path content s).children 0,
      (forest language path content s).entity? c =
        (unmarkedForest language path content s).entity? c) ∧
    ∀ c ∈ (forest language path content s).children 0,
      (forest language path content s).isExportable c = true →
      ∀ j ∈ (forest language path content s).descendants c,
        (forest language path content s).isExportable j = true := by
  have hmarks := marks_unmarkedForest language path content s
  have hlinked := hmarks.linked (placed language path content s).linked
  obtain ⟨rank, hrank⟩ :=
    (setting language path content s).exists_ranked (placed language path content s)
  have hranked : (unmarkedForest language path content s).Ranked rank := by
    intro i p hp
    rw [hmarks.parent?] at hp
    exact hrank i p hp
  have hpassing : (unmarkedForest language path content s).Marks
      (forest language path content s) :=
    .foldl (fun f i => .propagateExport f i) _ _
  obtain ⟨hkept, hpassed⟩ := hlinked.foldl_propagateExport hranked (i := 0) fun c hc => hc
  rw [← forest_eq] at hkept hpassed
  constructor
  · intro c hc
    exact hkept c (by rwa [← hpassing.children])
  · intro c hc hexportable j hj
    rw [hpassing.children] at hc
    rw [Forest.descendants_congr hpassing.grows.size_eq hpassing.children] at hj
    refine hpassed c hc ?_ j hj
    rwa [Forest.isExportable, ← hkept c hc]

/-! ## The finished list -/

/-- The forest of a file once its indices have ids. -/
def numberedForest (language : Language) (path content : String) (s : Survey) : Forest :=
  (forest language path content s).giveIds ((forest language path content s).idOrder 0) []

theorem size_forest_pos (language : Language) (path content : String) (s : Survey) :
    0 < (forest language path content s).size := by
  obtain ⟨file, hfile, -⟩ := entity?_forest_zero language path content s
  exact Forest.lt_size_of_entity? hfile

theorem entities_eq (language : Language) (path content : String) (s : Survey) :
    entities language path content s =
      (0 :: (forest language path content s).descendants 0).map
        (numberedForest language path content s).named := by
  obtain ⟨rank, hrank⟩ := exists_ranked_forest language path content s
  exact (linked_forest language path content s).finish_eq hrank
    (size_forest_pos language path content s)

/-- What is below an index of a file is listed below its entity. -/
theorem subtrees_numbered (hj : j ∈ (forest language path content s).descendants 0) :
    Subtrees ((numberedForest language path content s).named j).id
      ((numberedForest language path content s).named j).children
      (((forest language path content s).descendants j).map
        (numberedForest language path content s).named) := by
  have hlinked := linked_forest language path content s
  obtain ⟨rank, hrank⟩ := exists_ranked_forest language path content s
  have hlt : j < (numberedForest language path content s).size := by
    rw [numberedForest, Forest.size_giveIds]
    exact hlinked.descendants_lt hrank hj
  have hsubtrees := (hlinked.giveIds ((forest language path content s).idOrder 0)
    []).subtrees_named (hrank.giveIds _ _) j
  rw [Forest.descendants_congr (Forest.size_giveIds ..) (Forest.children_giveIds _ _ _)]
    at hsubtrees
  rw [Forest.id_named hlt, Forest.children_named hlt]
  exact hsubtrees

theorem lt_size_numberedForest (hj : j ∈ 0 :: (forest language path content s).descendants 0) :
    j < (numberedForest language path content s).size := by
  obtain ⟨rank, hrank⟩ := exists_ranked_forest language path content s
  rw [numberedForest, Forest.size_giveIds]
  rcases List.mem_cons.mp hj with rfl | hj
  · exact size_forest_pos language path content s
  · exact (linked_forest language path content s).descendants_lt hrank hj

/-- The parent that a listed entity names is that of its index, which is listed too. -/
theorem exists_parent_named (hj : j ∈ (forest language path content s).descendants 0) :
    ∃ p, (forest language path content s).parent? j = some p ∧
      p ∈ 0 :: (forest language path content s).descendants 0 ∧
      ((numberedForest language path content s).named j).parent =
        some ((numberedForest language path content s).named p).id := by
  have hlinked := linked_forest language path content s
  obtain ⟨rank, hrank⟩ := exists_ranked_forest language path content s
  obtain ⟨p, hp, hp'⟩ := (hlinked.mem_descendants_iff_parent? hrank).mp hj
  have hmem : p ∈ 0 :: (forest language path content s).descendants 0 := List.mem_cons.mpr hp'
  refine ⟨p, hp, hmem, ?_⟩
  rw [Forest.parent_named (lt_size_numberedForest (List.mem_cons_of_mem 0 hj)),
    Forest.id_named (lt_size_numberedForest hmem), numberedForest, Forest.parent?_giveIds, hp]
  rfl

/-- Listed entities are told apart by their ids. -/
theorem eq_of_id_eq (hs : ∀ d ∈ s.definitions, d.kind ≠ .file) {e e' : Entity}
    (he : e ∈ entities language path content s) (he' : e' ∈ entities language path content s)
    (hid : e.id = e'.id) : e = e' := by
  obtain ⟨file, below, hes, htree, -⟩ := fileTree_entities language path content hs
  have hnodup := htree.nodup_ids
  rw [← hes] at hnodup
  exact List.inj_on_of_nodup_map hnodup he he' hid

theorem named_mem (hj : j ∈ 0 :: (forest language path content s).descendants 0) :
    (numberedForest language path content s).named j ∈ entities language path content s := by
  rw [entities_eq]
  exact List.mem_map_of_mem hj

theorem named_zero (hs : ∀ d ∈ s.definitions, d.kind ≠ .file) :
    ((numberedForest language path content s).named 0).id = path ∧
      ((numberedForest language path content s).named 0).kind = .file := by
  obtain ⟨file, below, hes, htree, hid, -⟩ := fileTree_entities language path content hs
  rw [entities_eq, List.map_cons] at hes
  rw [(List.cons.inj hes).1]
  exact ⟨hid, htree.kind_file⟩

theorem kind_named_ne_file (hs : ∀ d ∈ s.definitions, d.kind ≠ .file)
    (hj : j ∈ (forest language path content s).descendants 0) :
    ((numberedForest language path content s).named j).kind ≠ .file := by
  obtain ⟨file, below, hes, htree, -⟩ := fileTree_entities language path content hs
  rw [entities_eq, List.map_cons] at hes
  apply (htree.kind_below _ ?_).1
  rw [← (List.cons.inj hes).2]
  exact List.mem_map_of_mem hj

/-- A listed entity that names the file as its parent stands directly under it. -/
theorem exists_child_of_parent (hs : ∀ d ∈ s.definitions, d.kind ≠ .file) {e : Entity}
    (he : e ∈ (entities language path content s).tail) (hparent : e.parent = some path) :
    ∃ j ∈ (forest language path content s).children 0,
      e = (numberedForest language path content s).named j := by
  have hlinked := linked_forest language path content s
  obtain ⟨file, below, hes, htree, -⟩ := fileTree_entities language path content hs
  have hnodup := htree.nodup_ids
  rw [← hes, entities_eq, List.map_map] at hnodup
  rw [entities_eq, List.map_cons, List.tail_cons] at he
  obtain ⟨j, hj, rfl⟩ := List.mem_map.mp he
  obtain ⟨p, hp, hmem, hnamed⟩ := exists_parent_named hj
  have hsame : ((numberedForest language path content s).named p).id =
      ((numberedForest language path content s).named 0).id := by
    rw [(named_zero hs).1]
    exact Option.some.inj (hnamed.symm.trans hparent)
  obtain rfl : p = 0 := List.inj_on_of_nodup_map hnodup hmem List.mem_cons_self hsame
  exact ⟨j, (hlinked.mem_children 0 j).mpr hp, rfl⟩

theorem exportable_numbered (hj : j ∈ (forest language path content s).descendants 0) :
    ((numberedForest language path content s).named j).exportable =
      (forest language path content s).isExportable j := by
  obtain ⟨-, e, he, -, hkind⟩ := entity?_forest_of_mem hj
  obtain ⟨n, hnamed⟩ := Forest.named_giveIds (size_forest_pos language path content s) he hkind
  rw [numberedForest, hnamed, Forest.isExportable, he, Option.any_some]

/-- Whatever is listed below an exportable definition at the top of a file is exportable. -/
theorem exportable_below (hs : ∀ d ∈ s.definitions, d.kind ≠ .file) {e : Entity}
    (he : e ∈ (entities language path content s).tail) (hparent : e.parent = some path)
    (hexportable : e.exportable = true) :
    ∃ inner, Subtrees e.id e.children inner ∧
      inner.Sublist (entities language path content s).tail ∧
      ∀ d ∈ inner, d.exportable = true := by
  have hlinked := linked_forest language path content s
  obtain ⟨rank, hrank⟩ := exists_ranked_forest language path content s
  obtain ⟨j, hj, rfl⟩ := exists_child_of_parent hs he hparent
  have hbelow : (j :: (forest language path content s).descendants j).Sublist
      ((forest language path content s).descendants 0) := by
    rw [hlinked.descendants_eq hrank 0]
    exact List.sublist_flatten_of_mem (List.mem_map_of_mem hj)
  have hmem := hbelow.subset List.mem_cons_self
  rw [exportable_numbered hmem] at hexportable
  refine ⟨_, subtrees_numbered hmem, ?_, ?_⟩
  · rw [entities_eq, List.map_cons, List.tail_cons]
    exact ((List.sublist_cons_self j _).trans hbelow).map _
  · intro d hd
    obtain ⟨k, hk, rfl⟩ := List.mem_map.mp hd
    rw [exportable_numbered (hbelow.subset (List.mem_cons_of_mem j hk))]
    exact (forest_exportable language path content s).2 j hj hexportable k hk

end Extraction
end CodeAtlas
