import CodeAtlas.Proofs.Extraction.Exports
import CodeAtlas.Proofs.Extraction.Offers

/-!
# From placed to listed definitions

What a listed entity says of its definition is settled when the definition is placed.  Export clauses
then give other names to entities at the top of the file, what is exported is passed on to the
entities below, and in the list an entity takes an id of its own and names its kin.
-/

namespace CodeAtlas

/-- `e'` is `e` as it is listed: with other kin, a numbered id and what the file exports. -/
def Entity.Listed (e e' : Entity) : Prop :=
  ∃ n parent children otherName exportable, e' =
    { e with
      id := Forest.candidateId e.id (e.span.start.row + 1) n
      parent := parent
      children := children
      otherName := otherName
      exportable := exportable }

namespace Forest

variable {f g k : Forest} {j : Nat}

/-- `g` is `f` after something was exported: other names are given at the top of the file only. -/
structure Publishes (f g : Forest) : Prop where
  children : ∀ i, g.children i = f.children i
  entity : ∀ j e, f.entity? j = some e → ∃ otherName exportable,
    g.entity? j = some { e with otherName := otherName, exportable := exportable } ∧
      (j ∉ f.children 0 → otherName = e.otherName)

namespace Publishes

theorem refl (f : Forest) : f.Publishes f :=
  ⟨fun _ => rfl, fun _ e he => ⟨e.otherName, e.exportable, he, fun _ => rfl⟩⟩

theorem trans (h : f.Publishes g) (h' : g.Publishes k) : f.Publishes k := by
  refine ⟨fun i => (h'.children i).trans (h.children i), ?_⟩
  intro j e he
  obtain ⟨name, exportable, he', hname⟩ := h.entity j e he
  obtain ⟨name', exportable', he'', hname'⟩ := h'.entity j _ he'
  refine ⟨name', exportable', he'', ?_⟩
  intro hj
  rw [hname' (by rwa [h.children]), hname hj]

theorem foldl {α : Type} {step : Forest → α → Forest}
    (hstep : ∀ (f : Forest) a, f.Publishes (step f a)) (f : Forest) (as : List α) :
    f.Publishes (as.foldl step f) :=
  List.foldlRecOn as step (refl f) fun g hg a _ => hg.trans (hstep g a)

theorem applyExport (f : Forest) (clause : String × String) :
    f.Publishes (Extraction.applyExport 0 f clause) := by
  rw [Extraction.applyExport]
  split
  next => exact refl f
  next i hfound =>
    have hi : i ∈ f.children 0 := List.mem_of_find?_eq_some hfound
    refine ⟨fun j => children_modify f i j _, ?_⟩
    intro j e he
    rw [entity?_modify, he, Option.map_some]
    by_cases hj : j = i
    · rw [if_pos hj]
      exact ⟨_, _, rfl, fun hnot => absurd (hj ▸ hi) hnot⟩
    · rw [if_neg hj]
      exact ⟨e.otherName, e.exportable, rfl, fun _ => rfl⟩

theorem propagateExport (f : Forest) (i : Nat) : f.Publishes (f.propagateExport i) := by
  refine ⟨(Marks.propagateExport f i).children, ?_⟩
  intro j e he
  rw [entity?_propagateExport, he, Option.map_some]
  split
  · exact ⟨e.otherName, true, rfl, fun _ => rfl⟩
  · exact ⟨e.otherName, e.exportable, rfl, fun _ => rfl⟩

end Publishes
end Forest

namespace Extraction

variable {language : Language} {path content : String} {s : Survey} {j : Nat} {e : Entity}

theorem publishes_forest (language : Language) (path content : String) (s : Survey) :
    (placedForest language path content s).Publishes (forest language path content s) :=
  (Forest.Publishes.foldl .applyExport _ s.exports).trans (.foldl .propagateExport _ _)

/-- A placed entity is listed, and with its other name unless it stands at the top of the file. -/
theorem listed_named (hj : j ∈ (forest language path content s).descendants 0)
    (he : (placedForest language path content s).entity? j = some e) :
    e.Listed ((numberedForest language path content s).named j) ∧
      ((placedForest language path content s).parent? j ≠ some 0 →
        ((numberedForest language path content s).named j).otherName = e.otherName) := by
  obtain ⟨otherName, exportable, he', hname⟩ :=
    (publishes_forest language path content s).entity j e he
  have hkind : e.kind ≠ .export := by
    obtain ⟨-, e₁, he₁, -, hkind⟩ := entity?_forest_of_mem hj
    obtain rfl := Option.some.inj (he'.symm.trans he₁)
    exact hkind
  obtain ⟨n, hnamed⟩ := Forest.named_giveIds (size_forest_pos language path content s) he' hkind
  rw [numberedForest, hnamed]
  refine ⟨⟨n, _, _, otherName, exportable, rfl⟩, ?_⟩
  intro hparent
  apply hname
  rwa [(placed language path content s).linked.mem_children]

theorem finishes_named {x : Entity × Nat} (hx : x ∈ order language path content s)
    (hmem : x.2 ∈ (forest language path content s).descendants 0) :
    x.1.Finishes ((numberedForest language path content s).named x.2) := by
  obtain ⟨e, he, hbecomes⟩ := (grows_forest language path content s).becomes x.2 x.1
    ((setting language path content s).entity x hx)
  obtain ⟨-, e', he', -, hkind⟩ := entity?_forest_of_mem hmem
  obtain rfl := Option.some.inj (he.symm.trans he')
  exact Forest.finishes_named_giveIds (size_forest_pos language path content s) he hkind hbecomes

/-- What became of a definition that is listed. -/
theorem exists_outcome (hs : ∀ d ∈ s.definitions, d.kind ≠ .file)
    (hj : j ∈ (forest language path content s).descendants 0) :
    (definitionAt s j).kind ≠ .export ∧ ∃ before after, order language path content s =
        before ++ (entity language path content (definitionAt s j), j) :: after ∧
      Outcome (placedForest language path content s) before
        (entity language path content (definitionAt s j), j) after := by
  obtain ⟨x, hx, rfl⟩ :=
    List.mem_map.mp ((descendants_forest_perm language path content s).mem_iff.mp hj)
  rw [List.mem_filter, bne_iff_ne] at hx
  obtain ⟨hpos, hget⟩ := List.mk_mem_zipIdx_iff_le_and_getElem?_sub.mp hx.1
  rw [definitionAt_of_mem hx.1]
  have hmem : (entity language path content x.1, x.2) ∈ order language path content s := by
    have hmem := mem_order language path content hget
    rwa [Nat.sub_add_cancel hpos] at hmem
  obtain ⟨before, after, horder⟩ := List.append_of_mem hmem
  refine ⟨hx.2, before, after, horder, outcome_placedForest hs horder ?_⟩
  rw [(Unlinked.entity language path content x.1).kind_eq]
  exact hx.2

/-- How a listed definition stands in the list of its file. -/
inductive Standing (language : Language) (path content : String) (s : Survey) (j : Nat) : Prop
  /-- It names the file as its parent. -/
  | top (e : Entity)
      (hparent : ((numberedForest language path content s).named j).parent =
        some ((numberedForest language path content s).named 0).id)
      (hmarked : (entity language path content (definitionAt s j)).Marked e)
      (hlisted : e.Listed ((numberedForest language path content s).named j))
  /-- It names the definition that claimed it; what was placed before it is listed unchanged. -/
  | held (before after : List (Entity × Nat)) (c : Entity × Nat) (owner e : Entity)
      (horder : order language path content s =
        before ++ (entity language path content (definitionAt s j), j) :: after)
      (hoffered : c ∈ offered before (entity language path content (definitionAt s j)) after)
      (hmem : c.2 ∈ (forest language path content s).descendants 0)
      (hparent : ((numberedForest language path content s).named j).parent =
        some ((numberedForest language path content s).named c.2).id)
      (howner : c.1.Becomes owner)
      (hclaimed : (entity language path content (definitionAt s j)).Claimed owner e)
      (hlisted : e.Listed ((numberedForest language path content s).named j))
      (hother : ((numberedForest language path content s).named j).otherName = e.otherName)
      (hlast : c ∈ before → ∃ last, owner.Recounts last ∧
        last.Listed ((numberedForest language path content s).named c.2))

theorem standing (hs : ∀ d ∈ s.definitions, d.kind ≠ .file)
    (hj : j ∈ (forest language path content s).descendants 0) :
    Standing language path content s j := by
  obtain ⟨k, hk, hkmem, hparent⟩ := exists_parent_named hj
  obtain ⟨-, before, after, horder, houtcome⟩ := exists_outcome hs hj
  rw [(marks_forest language path content s).parent?] at hk
  cases houtcome with
  | top e hholder htop hentity hmarked =>
      obtain rfl : 0 = k := Option.some.inj (htop.symm.trans hk)
      exact .top e hparent hmarked (listed_named hj hentity).1
  | held c owner e hholder hheld hentity howner hclaimed hlast =>
      obtain rfl : c.2 = k := Option.some.inj (hheld.symm.trans hk)
      have hoffered := List.mem_of_find?_eq_some hholder
      have hzero : c.2 ≠ 0 :=
        (setting language path content s).ne_zero c (mem_of_mem_offered horder hoffered)
      have hmem := (List.mem_cons.mp hkmem).resolve_left hzero
      obtain ⟨hlisted, hother⟩ := listed_named hj hentity
      refine .held before after c owner e horder hoffered hmem hparent howner hclaimed hlisted
        (hother ?_) ?_
      · rw [hheld]
        exact fun h => hzero (Option.some.inj h)
      · intro hc
        obtain ⟨last, hlast, hrecounts⟩ := hlast hc
        exact ⟨last, hrecounts, (listed_named hmem hlast).1⟩

theorem mem_order_of_mem_descendants (hs : ∀ d ∈ s.definitions, d.kind ≠ .file)
    (hj : j ∈ (forest language path content s).descendants 0) :
    (entity language path content (definitionAt s j), j) ∈ order language path content s := by
  obtain ⟨-, before, after, horder, -⟩ := exists_outcome hs hj
  rw [horder]
  exact List.mem_append_right before List.mem_cons_self

end Extraction
end CodeAtlas
