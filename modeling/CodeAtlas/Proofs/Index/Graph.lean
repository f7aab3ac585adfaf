import CodeAtlas.Proofs.Index.Run

/-!
# The graph of an index

The records and links that an index hands out.  Its records are the extracted entities in order,
its links join the ids of records, and the degrees of a record count the links at its id.
-/

namespace CodeAtlas
namespace Index

variable {x : Index} {blocks : List FileBlock} {b : FileBlock} {d e : Entity} {id : String}

/-! ## Parents within a file -/

/-- Parents of stored entities are stored in the same file. -/
theorem parent_mem_ids {q : String} (hd : d ∈ b.entities) (hq : d.parent = some q) :
    q ∈ b.entities.map (·.id) := by
  rcases List.mem_cons.mp hd with rfl | hd
  · rw [b.tree.parent_file] at hq
    exact absurd hq (by simp)
  · obtain ⟨p, hp, hparent⟩ := b.tree.parent_below hd
    rw [hparent] at hq
    obtain rfl := Option.some.inj hq
    exact List.mem_map_of_mem hp

theorem namingParent_of_not_mem (hid : id ∉ idsOf blocks) :
    namingParent id (entitiesOf blocks) = [] := by
  apply namingParent_eq_nil
  intro d hd hparent
  obtain ⟨b, hb, hd⟩ := List.mem_flatMap.mp hd
  obtain ⟨e, he, rfl⟩ := List.mem_map.mp (parent_mem_ids hd hparent)
  exact hid (List.mem_map_of_mem (mem_entitiesOf hb he))

/-- The entities that name a parent are found in its file. -/
theorem namingParent_entitiesOf (hnodup : (idsOf blocks).Nodup) (hb : b ∈ blocks)
    (he : e ∈ b.entities) : (namingParent e.id (entitiesOf blocks)).map (·.id) = e.children := by
  obtain ⟨before, after, rfl⟩ := List.append_of_mem hb
  have hids : idsOf (before ++ b :: after) =
      idsOf before ++ (b.entities.map (·.id) ++ idsOf after) := by
    rw [List.append_cons, idsOf_append, idsOf_append, idsOf_singleton, List.append_assoc]
  rw [hids, List.nodup_append, List.nodup_append] at hnodup
  obtain ⟨-, ⟨-, -, hafter⟩, hbefore⟩ := hnodup
  have hmem : e.id ∈ b.entities.map (·.id) := List.mem_map_of_mem he
  have hnotBefore : e.id ∉ idsOf before :=
    fun h => hbefore e.id h e.id (List.mem_append_left _ hmem) rfl
  have hnotAfter : e.id ∉ idsOf after := fun h => hafter e.id hmem e.id h rfl
  have hentities : entitiesOf (before ++ b :: after) =
      entitiesOf before ++ (b.entities ++ entitiesOf after) := by
    rw [entitiesOf, List.flatMap_append, List.flatMap_cons]
    rfl
  rw [hentities, namingParent_append, namingParent_append, namingParent_of_not_mem hnotBefore,
    namingParent_of_not_mem hnotAfter, List.nil_append, List.append_nil]
  exact b.tree.namingParent_id he

/-! ## Links -/

/-- Among entities with different ids, an id is met once. -/
theorem countP_id {es : List Entity} (hnodup : (es.map (·.id)).Nodup) (he : e ∈ es)
    (q : Entity → Bool) : (es.countP fun d => d.id = e.id && q d) = if q e then 1 else 0 := by
  obtain ⟨before, after, rfl⟩ := List.append_of_mem he
  rw [List.map_append, List.map_cons, List.nodup_append, List.nodup_cons] at hnodup
  obtain ⟨-, ⟨hafter, -⟩, hbefore⟩ := hnodup
  have hnoneBefore : (before.countP fun d => d.id = e.id && q d) = 0 := by
    rw [List.countP_eq_zero]
    intro d hd hq
    simp only [Bool.and_eq_true, decide_eq_true_eq] at hq
    exact hbefore d.id (List.mem_map_of_mem hd) e.id List.mem_cons_self hq.1
  have hnoneAfter : (after.countP fun d => d.id = e.id && q d) = 0 := by
    rw [List.countP_eq_zero]
    intro d hd hq
    simp only [Bool.and_eq_true, decide_eq_true_eq] at hq
    exact hafter (hq.1 ▸ List.mem_map_of_mem hd)
  rw [List.countP_append, List.countP_cons, hnoneBefore, hnoneAfter]
  simp

theorem outDegree_eq (he : e ∈ b.entities) : e.outDegree = if e.parent.isSome then 1 else 0 := by
  rcases List.mem_cons.mp he with rfl | he
  · rw [b.tree.outDegree_file, b.tree.parent_file]
    rfl
  · obtain ⟨p, -, hparent⟩ := b.tree.parent_below he
    rw [b.tree.outDegree_below e he, hparent]
    rfl

namespace Stores

theorem definesLinks_eq (h : Stores x blocks) :
    x.definesLinks = (entitiesOf blocks).filterMap fun e =>
      e.parent.map fun p => ⟨e.id, p, .defines, none⟩ := by
  rw [definesLinks, h.ordered_eq, List.filterMap_map]
  apply List.filterMap_congr
  intro e he
  have hparent : (x.current e).parent = e.parent := h.current_keeps he (·.parent) fun _ => rfl
  rw [Function.comp_apply, hparent, h.id_current he]

theorem callsLinks_pairs (x : Index) :
    x.callsLinks.map (fun l => (l.source, l.target)) = x.usePairs := by
  rw [callsLinks, usePairs, pairsIn, List.map_flatMap]
  apply List.flatMap_congr
  intro u _
  rw [List.map_map, Table.keys, List.map_map]
  rfl

theorem countP_definesLinks_source (h : Stores x blocks) (hb : b ∈ blocks)
    (he : e ∈ b.entities) : x.definesLinks.countP (·.source = e.id) = e.outDegree := by
  rw [h.definesLinks_eq, List.countP_filterMap, outDegree_eq he,
    ← countP_id h.nodup (mem_entitiesOf hb he) fun d => d.parent.isSome]
  apply List.countP_congr
  intro d _
  cases d.parent <;> simp

theorem countP_definesLinks_target (h : Stores x blocks) (hb : b ∈ blocks)
    (he : e ∈ b.entities) : x.definesLinks.countP (·.target = e.id) = e.inDegree := by
  rw [h.definesLinks_eq, List.countP_filterMap, b.tree.inDegree e he,
    ← namingParent_entitiesOf h.nodup hb he, List.length_map, namingParent,
    ← List.countP_eq_length_filter]
  apply List.countP_congr
  intro d _
  cases d.parent <;> simp

theorem countP_callsLinks_source (x : Index) (id : String) :
    x.callsLinks.countP (·.source = id) = x.usesFrom id := by
  rw [usesFrom, ← callsLinks_pairs, List.countP_map]
  rfl

theorem countP_callsLinks_target (x : Index) (id : String) :
    x.callsLinks.countP (·.target = id) = x.usesTo id := by
  rw [usesTo, ← callsLinks_pairs, List.countP_map]
  rfl

theorem mem_definesLinks (h : Stores x blocks) {l : Link} (hl : l ∈ x.definesLinks) :
    l.label = .defines ∧ l.source ∈ idsOf blocks ∧ l.target ∈ idsOf blocks := by
  rw [h.definesLinks_eq] at hl
  obtain ⟨d, hd, hlink⟩ := List.mem_filterMap.mp hl
  obtain ⟨p, hp, rfl⟩ := Option.map_eq_some_iff.mp hlink
  obtain ⟨b, hb, hd'⟩ := List.mem_flatMap.mp hd
  obtain ⟨e, he, heq⟩ := List.mem_map.mp (parent_mem_ids hd' hp)
  exact ⟨rfl, List.mem_map_of_mem hd, heq ▸ List.mem_map_of_mem (mem_entitiesOf hb he)⟩

theorem mem_callsLinks {l : Link} (hl : l ∈ x.callsLinks) :
    l.label = .calls ∧ (l.source, l.target) ∈ x.usePairs := by
  refine ⟨?_, callsLinks_pairs x ▸ List.mem_map_of_mem hl⟩
  obtain ⟨u, -, hl⟩ := List.mem_flatMap.mp hl
  obtain ⟨t, -, rfl⟩ := List.mem_map.mp hl
  rfl

/-- Every link joins two stored ids. -/
theorem mem_links (h : Stores x blocks) {l : Link} (hl : l ∈ x.links) :
    l.source ∈ idsOf blocks ∧ l.target ∈ idsOf blocks := by
  rcases List.mem_append.mp hl with hl | hl
  · exact (h.mem_definesLinks hl).2
  · have hpair := (mem_callsLinks hl).2
    exact ⟨h.uses.source_mem _ hpair, h.uses.target_mem _ hpair⟩

theorem nodup_definesLinks (h : Stores x blocks) : (x.definesLinks.map (·.source)).Nodup := by
  have hsources : x.definesLinks.map (·.source) =
      ((entitiesOf blocks).filter (·.parent.isSome)).map (·.id) := by
    rw [h.definesLinks_eq, List.map_filterMap]
    induction entitiesOf blocks with
    | nil => rfl
    | cons e es ih => cases hparent : e.parent <;> simpa [hparent] using ih
  rw [hsources]
  exact h.nodup.sublist (List.filter_sublist.map _)

/-- No two links say the same. -/
theorem nodup_links (h : Stores x blocks) :
    (x.links.map fun l => (l.source, l.target, l.label)).Nodup := by
  rw [links, List.map_append, List.nodup_append]
  refine ⟨?_, ?_, ?_⟩
  · have hsources := h.nodup_definesLinks
    refine List.Nodup.of_map Prod.fst ?_
    rwa [List.map_map]
  · have hpairs := h.uses.nodup
    rw [← callsLinks_pairs] at hpairs
    refine List.Nodup.of_map (fun t : String × String × LinkLabel => (t.1, t.2.1)) ?_
    rwa [List.map_map]
  · rintro _ hdefines _ hcalls rfl
    obtain ⟨l, hl, rfl⟩ := List.mem_map.mp hdefines
    obtain ⟨l', hl', heq⟩ := List.mem_map.mp hcalls
    have hlabel : l'.label = l.label := congrArg (·.2.2) heq
    rw [(mem_callsLinks hl').1, (h.mem_definesLinks hl).1] at hlabel
    exact absurd hlabel (by decide)

/-- The links that define an id. -/
theorem countP_defines (h : Stores x blocks) (hb : b ∈ blocks) (he : e ∈ b.entities) :
    (x.links.countP fun l => l.source = e.id && l.label = .defines) =
      if e.kind = .file then 0 else 1 := by
  have hdefines : (x.definesLinks.countP fun l => l.source = e.id && l.label = .defines) =
      x.definesLinks.countP (·.source = e.id) := by
    apply List.countP_congr
    intro l hl
    simp [(h.mem_definesLinks hl).1]
  have hcalls : (x.callsLinks.countP fun l => l.source = e.id && l.label = .defines) = 0 := by
    rw [List.countP_eq_zero]
    intro l hl
    simp [(mem_callsLinks hl).1]
  rw [links, List.countP_append, hdefines, hcalls, h.countP_definesLinks_source hb he,
    b.tree.outDegree he, Nat.add_zero]

/-! ## Records -/

/-- A record is that of a stored entity with its uses counted. -/
theorem record_cases (h : Stores x blocks) {n : EntityRecord} (hn : n ∈ x.records) :
    ∃ b ∈ blocks, ∃ e ∈ b.entities, n.id = e.id ∧ n.kind = e.kind ∧
      n.inDegree = e.inDegree + x.usesTo e.id ∧ n.outDegree = e.outDegree + x.usesFrom e.id := by
  rw [records, h.ordered_eq, List.map_map] at hn
  obtain ⟨e, he, rfl⟩ := List.mem_map.mp hn
  obtain ⟨imports, hcurrent⟩ := h.current_eq he
  obtain ⟨b, hb, he⟩ := List.mem_flatMap.mp he
  refine ⟨b, hb, e, he, ?_⟩
  rw [Function.comp_apply, hcurrent]
  exact ⟨rfl, rfl, rfl, rfl⟩

theorem map_id_records (h : Stores x blocks) : x.records.map (·.id) = idsOf blocks := by
  rw [records, h.ordered_eq, List.map_map, List.map_map, idsOf]
  apply List.map_congr_left
  intro e he
  exact h.id_current he

/-- The degrees of a record count the links at its id. -/
theorem degrees_eq (h : Stores x blocks) {n : EntityRecord} (hn : n ∈ x.records) :
    n.outDegree = x.links.countP (·.source = n.id) ∧
      n.inDegree = x.links.countP (·.target = n.id) := by
  obtain ⟨b, hb, e, he, hid, -, hin, hout⟩ := h.record_cases hn
  rw [hid, links, List.countP_append, List.countP_append]
  constructor
  · rw [hout, h.countP_definesLinks_source hb he, countP_callsLinks_source]
  · rw [hin, h.countP_definesLinks_target hb he, countP_callsLinks_target]

end Stores

/-! ## Graphs of runs -/

theorem BlocksOf.idsOf_eq {files : List SourceFile} (h : BlocksOf files blocks) :
    idsOf blocks = (files.filterMap (·.extract?)).flatten.map (·.id) := by
  rw [← h.entities, idsOf, entitiesOf, List.flatMap]

/-- After every step of a run, the degrees of every record count the links at its id. -/
theorem degrees_run (root : String) (calls : List (List SourceFile))
    (hpaths : (calls.flatten.map (·.path)).Nodup) (hcolons : ∀ f ∈ calls.flatten, colonFree f.path)
    (step : Nat) :
    ∀ n ∈ (run root (calls.take step)).records,
      n.outDegree = (run root (calls.take step)).links.countP (·.source = n.id) ∧
        n.inDegree = (run root (calls.take step)).links.countP (·.target = n.id) := by
  intro n hn
  obtain ⟨blocks, hstores, -⟩ := holds_run_take root ⟨hpaths, hcolons⟩ step
  exact hstores.degrees_eq hn

/-- A file, and in a second step one that imports from it. -/
def twoSteps : List (List SourceFile) :=
  [[⟨"/a.py", "def g(): pass\n\nclass A:\n  def f(self): g()\n"⟩],
    [⟨"/b.py", "from a import A as B\n\nB().f()\n"⟩]]

theorem degrees_run_twoSteps :
    (twoSteps.flatten.map (·.path)).Nodup ∧ (∀ f ∈ twoSteps.flatten, colonFree f.path) ∧
      ∀ n ∈ (run "/" (twoSteps.take 2)).records,
        n.outDegree = (run "/" (twoSteps.take 2)).links.countP (·.source = n.id) ∧
          n.inDegree = (run "/" (twoSteps.take 2)).links.countP (·.target = n.id) :=
  ⟨by decide, by decide, degrees_run "/" twoSteps (by decide) (by decide) 2⟩

/-- The records of an index are those of the files in order, and its links join them. -/
structure Closed (x : Index) (files : List SourceFile) : Prop where
  ids : x.records.map (·.id) =
    (files.filterMap fun f => CodeAtlas.extract? f.path f.content).flatten.map (·.id)
  nodup : (x.records.map (·.id)).Nodup
  keys : x.entities.keys.Perm (x.records.map (·.id))
  closed : ∀ l ∈ x.links, l.source ∈ x.records.map (·.id) ∧ l.target ∈ x.records.map (·.id)
  distinct : (x.links.map fun l => (l.source, l.target, l.label)).Nodup
  irrefl : ∀ l ∈ x.links, l.label = .calls → l.source ≠ l.target
  defines : ∀ n ∈ x.records, (x.links.countP fun l => l.source = n.id && l.label = .defines) =
    if n.kind = .file then 0 else 1

/-- After every step of a run, the graph holds the files that were given and is closed. -/
theorem closed_run (root : String) (calls : List (List SourceFile))
    (hpaths : (calls.flatten.map (·.path)).Nodup) (hcolons : ∀ f ∈ calls.flatten, colonFree f.path)
    (step : Nat) : Closed (run root (calls.take step)) (calls.take step).flatten := by
  obtain ⟨blocks, hstores, hblocks⟩ := holds_run_take root ⟨hpaths, hcolons⟩ step
  have hids := hstores.map_id_records
  constructor
  · rw [hids, hblocks.idsOf_eq]
    rfl
  · rw [hids]
    exact hstores.nodup
  · rw [hids]
    exact hstores.keys
  · intro l hl
    rw [hids]
    exact hstores.mem_links hl
  · exact hstores.nodup_links
  · intro l hl hcalls
    rcases List.mem_append.mp hl with hl | hl
    · rw [(hstores.mem_definesLinks hl).1] at hcalls
      exact absurd hcalls (by decide)
    · exact hstores.uses.irrefl _ (Stores.mem_callsLinks hl).2
  · intro n hn
    obtain ⟨b, hb, e, he, hid, hkind, -⟩ := hstores.record_cases hn
    rw [hid, hkind]
    exact hstores.countP_defines hb he

theorem closed_run_twoSteps :
    (twoSteps.flatten.map (·.path)).Nodup ∧ (∀ f ∈ twoSteps.flatten, colonFree f.path) ∧
      Closed (run "/" (twoSteps.take 2)) (twoSteps.take 2).flatten :=
  ⟨by decide, by decide, closed_run "/" twoSteps (by decide) (by decide) 2⟩

end Index
end CodeAtlas
