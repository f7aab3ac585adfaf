import CodeAtlas.Proofs.Extraction.Exports
import CodeAtlas.Proofs.Forest.Acyclic

/-!
# Visibility flows down

What other files can see is passed on from an index to everything below it.  A walk with a stack
does this: it takes the last index off the stack, marks it and puts its children there, until
nothing is left.  It keeps no record of where it has been, so that it comes to an end only because
going down never leads back; it has then met exactly what is below the index where it started.

The definitions at the top of a file are gone through one by one.  None of them is below another one
in a forest, so that what one of them passes on does not make another one visible.
-/

namespace CodeAtlas

/-- The cell with its entity made visible to other files. -/
def Cell.exported (x : Cell) : Cell := { x with entity := { x.entity with exportable := true } }

namespace Forest

variable {f g k : Forest} {P Q : Nat → Prop} {i j c : Nat}

/-! ## Forests that differ in what is visible -/

/-- The second forest is the first one with the entities at some indices made visible to other
files, and with nothing else changed. -/
structure ExportedAt (f : Forest) (P : Nat → Prop) (g : Forest) : Prop where
  exported : ∀ j, P j → g.cell? j = (f.cell? j).map Cell.exported
  kept : ∀ j, ¬ P j → g.cell? j = f.cell? j

theorem ext_cell? (h : ∀ j, f.cell? j = g.cell? j) : f = g := by
  have hcells : f.cells = g.cells := List.ext_getElem? h
  cases f
  cases g
  exact congrArg Forest.mk hcells

namespace ExportedAt

theorem modify (f : Forest) (i : Nat) :
    f.ExportedAt (· = i) (f.modify i fun e => { e with exportable := true }) := by
  constructor
  · rintro j rfl
    simp only [cell?_modify, if_true]
    rfl
  · intro j hj
    simp [cell?_modify, hj]

theorem of_iff (h : f.ExportedAt P g) (hiff : ∀ j, Q j ↔ P j) : f.ExportedAt Q g :=
  ⟨fun j hj => h.exported j ((hiff j).mp hj), fun j hj => h.kept j (mt (hiff j).mpr hj)⟩

theorem refl (h : ∀ j, ¬ P j) : f.ExportedAt P f :=
  ⟨fun j hj => absurd hj (h j), fun _ _ => rfl⟩

/-- Making an entity visible twice is making it visible. -/
theorem trans (h : f.ExportedAt P g) (h' : g.ExportedAt Q k) :
    f.ExportedAt (fun j => P j ∨ Q j) k := by
  constructor
  · intro j hj
    by_cases hP : P j <;> by_cases hQ : Q j
    · rw [h'.exported j hQ, h.exported j hP, Option.map_map]
      rfl
    · rw [h'.kept j hQ, h.exported j hP]
    · rw [h'.exported j hQ, h.kept j hP]
    · exact absurd hj (not_or.mpr ⟨hP, hQ⟩)
  · intro j hj
    obtain ⟨hP, hQ⟩ := not_or.mp hj
    rw [h'.kept j hQ, h.kept j hP]

theorem unique (h : f.ExportedAt P g) (h' : f.ExportedAt P k) : g = k := by
  apply ext_cell?
  intro j
  by_cases hP : P j
  · rw [h.exported j hP, h'.exported j hP]
  · rw [h.kept j hP, h'.kept j hP]

theorem children (h : f.ExportedAt P g) (j : Nat) : g.children j = f.children j := by
  by_cases hP : P j
  · rw [Forest.children, Forest.children, h.exported j hP, Option.map_map]
    rfl
  · rw [Forest.children, Forest.children, h.kept j hP]

theorem parent? (h : f.ExportedAt P g) (j : Nat) : g.parent? j = f.parent? j := by
  by_cases hP : P j
  · rw [Forest.parent?, Forest.parent?, h.exported j hP, Option.bind_map]
    rfl
  · rw [Forest.parent?, Forest.parent?, h.kept j hP]

theorem isExportable_of_not (h : f.ExportedAt P g) (hP : ¬ P j) :
    g.isExportable j = f.isExportable j := by
  rw [isExportable, isExportable, entity?, entity?, h.kept j hP]

end ExportedAt

/-- The forest with the entities at some indices marked one after the other. -/
def exportAll (f : Forest) (is : List Nat) : Forest :=
  is.foldl (fun g c => g.modify c fun e => { e with exportable := true }) f

theorem exportedAt_exportAll (f : Forest) (is : List Nat) :
    f.ExportedAt (· ∈ is) (f.exportAll is) := by
  induction is generalizing f with
  | nil => exact .refl fun j => List.not_mem_nil
  | cons i is ih => exact ((ExportedAt.modify f i).trans (ih _)).of_iff fun j => List.mem_cons

/-- The order in which entities are marked does not matter. -/
theorem exportAll_append_comm (f : Forest) (is js : List Nat) :
    f.exportAll (is ++ js) = f.exportAll (js ++ is) := by
  apply (exportedAt_exportAll f (is ++ js)).unique
  apply (exportedAt_exportAll f (js ++ is)).of_iff
  intro j
  rw [List.mem_append, List.mem_append, or_comm]

/-! ## The walk -/

/-- The indices that are still to be met, and the forest with those marked that were met. -/
structure Spread where
  stack : List Nat
  forest : Forest

namespace Spread

/-- One step of the walk: the last index on the stack is marked, and its children are put there. -/
def step (w : Spread) : Spread :=
  match w.stack.getLast? with
  | none => w
  | some c =>
    ⟨w.stack.dropLast ++ w.forest.children c,
      w.forest.modify c fun e => { e with exportable := true }⟩

theorem step_concat (stack : List Nat) (c : Nat) (f : Forest) :
    step ⟨stack ++ [c], f⟩ = ⟨stack ++ f.children c, f.exportAll [c]⟩ := by
  rw [step, List.getLast?_concat, List.dropLast_concat]
  rfl

/-- Walking from an index meets the index and what is below it, and leaves the rest of the stack. -/
def Meets (f : Forest) (i : Nat) : Prop :=
  ∀ (stack : List Nat) (g : Forest), (∀ j, g.children j = f.children j) →
    step^[(i :: f.descendants i).length] ⟨stack ++ [i], g⟩ =
      ⟨stack, g.exportAll (i :: f.descendants i)⟩

/-- Indices on the stack are met from the last one to the first one. -/
theorem iterate_step_append {is : List Nat} (his : ∀ i ∈ is, Meets f i) (stack : List Nat)
    (hg : ∀ j, g.children j = f.children j) :
    step^[(is.flatMap fun i => i :: f.descendants i).length] ⟨stack ++ is, g⟩ =
      ⟨stack, g.exportAll (is.flatMap fun i => i :: f.descendants i)⟩ := by
  induction is using List.reverseRecOn generalizing g with
  | nil => rw [List.append_nil]; rfl
  | append_singleton is i ih =>
      have hi : Meets f i := his i (by simp)
      have hrest : ∀ i ∈ is, Meets f i := fun i hi => his i (List.mem_append_left _ hi)
      -- the last index is met first, and the others go on in a forest with the same children
      have hg' : ∀ j, (g.exportAll (i :: f.descendants i)).children j = f.children j :=
        fun j => ((exportedAt_exportAll g _).children j).trans (hg j)
      rw [List.flatMap_append, List.flatMap_singleton, List.length_append,
        Function.iterate_add_apply, ← List.append_assoc, hi _ _ hg, ih hrest hg',
        exportAll_append_comm]
      congr 1
      exact List.foldl_append.symm

theorem meets (h : f.Acyclic) (i : Nat) : Meets f i := by
  induction i using h.falls_reach.descend with
  | step i ih =>
      intro stack g hg
      have hg' : ∀ j, (g.exportAll [i]).children j = f.children j :=
        fun j => ((exportedAt_exportAll g _).children j).trans (hg j)
      rw [List.length_cons, Function.iterate_succ_apply, step_concat, hg, h.descendants_eq i,
        iterate_step_append ih stack hg']
      rfl

end Spread

namespace Acyclic

/-- The walk that starts with the children of an index ends once it has met what is below it. -/
theorem iterate_step (h : f.Acyclic) (i : Nat) :
    Spread.step^[(f.descendants i).length] ⟨f.children i, f⟩ =
      ⟨[], f.exportAll (f.descendants i)⟩ := by
  have hwalk := Spread.iterate_step_append (fun c (_ : c ∈ f.children i) => Spread.meets h c) []
    fun _ => rfl
  rwa [← h.descendants_eq i] at hwalk

theorem mem_descendants_iff (h : f.Acyclic) :
    j ∈ f.descendants i ↔ Relation.TransGen f.IsChild i j := by
  induction i using h.falls_reach.descend with
  | step i ih =>
      rw [h.descendants_eq i, List.mem_flatMap, Relation.TransGen.head'_iff]
      apply exists_congr
      intro c
      apply and_congr_right
      intro hc
      rw [List.mem_cons, ih c hc, Relation.reflTransGen_iff_eq_or_transGen]

theorem exportedAt_propagateExport (h : f.Acyclic) (i : Nat) :
    f.ExportedAt (fun j => f.isExportable i = true ∧ Relation.TransGen f.IsChild i j)
      (f.propagateExport i) := by
  rw [propagateExport, ← isExportable]
  split
  next hi =>
    refine (exportedAt_exportAll f (f.descendants i)).of_iff fun j => ?_
    rw [h.mem_descendants_iff]
    exact and_iff_right hi
  next hi => exact .refl fun j hj => hi hj.1

end Acyclic

/-! ## Siblings -/

/-- Parents and children agree, and going down never leads back. -/
structure IsTreelike (f : Forest) : Prop where
  mem_children : ∀ p c, c ∈ f.children p ↔ f.parent? c = some p
  acyclic : f.Acyclic

theorem isChild_congr (h : ∀ i, g.children i = f.children i) : g.IsChild = f.IsChild := by
  funext i c
  rw [IsChild, IsChild, h]

namespace IsTreelike

theorem of_linked {rank : Nat → Nat} (h : f.Linked) (hrank : f.Ranked rank) : f.IsTreelike :=
  ⟨h.mem_children, (h.falls_height hrank).acyclic⟩

theorem congr (h : f.IsTreelike) (hparent : ∀ i, g.parent? i = f.parent? i)
    (hchildren : ∀ i, g.children i = f.children i) : g.IsTreelike := by
  constructor
  · intro p c
    rw [hchildren, hparent]
    exact h.mem_children p c
  · rw [Acyclic, isChild_congr hchildren]
    exact h.acyclic

/-- No child of an index is below another child of it. -/
theorem not_transGen (h : f.IsTreelike) {d : Nat} (hc : c ∈ f.children i)
    (hd : d ∈ f.children i) : ¬ Relation.TransGen f.IsChild d c := by
  intro hdown
  -- the last step down comes from the common parent, which would then be below its child
  obtain ⟨p, hup, hp⟩ := Relation.TransGen.tail'_iff.mp hdown
  have hparent := ((h.mem_children p c).mp hp).symm.trans ((h.mem_children i c).mp hc)
  obtain rfl := Option.some.inj hparent
  exact h.acyclic d (.tail' hup hd)

/-- What one child passes on leaves alone what the next ones have to pass on. -/
theorem exportedAt_foldl (h : f.IsTreelike) {cs : List Nat} (hcs : ∀ c ∈ cs, c ∈ f.children i) :
    f.ExportedAt (fun j => ∃ c ∈ cs, f.isExportable c = true ∧ Relation.TransGen f.IsChild c j)
      (cs.foldl propagateExport f) := by
  induction cs generalizing f with
  | nil => exact .refl fun j ⟨c, hc, _⟩ => List.not_mem_nil hc
  | cons d cs ih =>
      obtain ⟨hd, hrest⟩ := List.forall_mem_cons.mp hcs
      have hfirst := h.acyclic.exportedAt_propagateExport d
      have hothers := ih (h.congr hfirst.parent? hfirst.children)
        (by simpa only [hfirst.children] using hrest)
      have hsame : ∀ c ∈ cs, (f.propagateExport d).isExportable c = f.isExportable c := fun c hc =>
        hfirst.isExportable_of_not fun hdown => h.not_transGen (hrest c hc) hd hdown.2
      refine (hfirst.trans hothers).of_iff fun j => ?_
      rw [isChild_congr hfirst.children]
      simp only [List.mem_cons, exists_eq_or_imp]
      apply or_congr_right
      apply exists_congr
      intro c
      apply and_congr_right
      intro hc
      rw [hsame c hc]

end IsTreelike
end Forest

namespace Extraction

theorem isTreelike_forest (language : Language) (path content : String) (s : Survey) :
    (forest language path content s).IsTreelike := by
  obtain ⟨rank, hrank⟩ := exists_ranked_forest language path content s
  exact .of_linked (linked_forest language path content s) hrank

/-- Of a file, exactly what is below a visible definition at its top is made visible. -/
theorem exportedAt_forest (language : Language) (path content : String) (s : Survey) :
    (unmarkedForest language path content s).ExportedAt
      (fun j => ∃ c ∈ (unmarkedForest language path content s).children 0,
        (unmarkedForest language path content s).isExportable c = true ∧
          Relation.TransGen (unmarkedForest language path content s).IsChild c j)
      (forest language path content s) := by
  have hmarks : (unmarkedForest language path content s).Marks (forest language path content s) :=
    .foldl (fun f i => .propagateExport f i) _ _
  have htree : (unmarkedForest language path content s).IsTreelike :=
    (isTreelike_forest language path content s).congr (fun i => (hmarks.parent? i).symm)
      fun i => (hmarks.children i).symm
  rw [forest_eq]
  exact htree.exportedAt_foldl fun c hc => hc

end Extraction

namespace Forest

open Extraction (unmarkedForest forest)

/-- Visibility flows down and nowhere else.  In a forest the walk from an index comes to an end, and
what it marks is exactly what is below the index.  In the forest of a file everything below a
visible definition at the top is visible, and nothing else was changed to get there. -/
theorem propagateExport_flows_down :
    (∀ (f : Forest) (i : Nat), f.IsTreelike →
      (f.isExportable i = true →
        Spread.step^[(f.descendants i).length] ⟨f.children i, f⟩ = ⟨[], f.propagateExport i⟩) ∧
      f.ExportedAt (fun j => f.isExportable i = true ∧ Relation.TransGen f.IsChild i j)
        (f.propagateExport i)) ∧
    ∀ (language : Language) (path content : String) (s : Survey),
      (unmarkedForest language path content s).ExportedAt
        (fun j => ∃ c ∈ (unmarkedForest language path content s).children 0,
          (unmarkedForest language path content s).isExportable c = true ∧
            Relation.TransGen (unmarkedForest language path content s).IsChild c j)
        (forest language path content s) ∧
      ∀ c ∈ (forest language path content s).children 0,
        (forest language path content s).isExportable c = true →
        ∀ j, Relation.TransGen (forest language path content s).IsChild c j →
          (forest language path content s).isExportable j = true := by
  constructor
  · intro f i htree
    refine ⟨fun hi => ?_, htree.acyclic.exportedAt_propagateExport i⟩
    rw [htree.acyclic.iterate_step, propagateExport, ← isExportable, if_pos hi]
    rfl
  · intro language path content s
    refine ⟨Extraction.exportedAt_forest language path content s, ?_⟩
    intro c hc hexportable j hj
    have hacyclic := (Extraction.isTreelike_forest language path content s).acyclic
    exact (Extraction.forest_exportable language path content s).2 c hc hexportable j
      (hacyclic.mem_descendants_iff.mpr hj)

/-- A file with a visible class that has a method, and with a function that is not visible. -/
def nested : Forest :=
  let owner := { Entity.ofCode "/a.js::Foo" .cls .javascript "" with exportable := true }
  let f := (empty.push (.file "/a.js" "" .javascript)).push owner
  let f := f.push (.ofCode "/a.js::Foo.bar" .method .javascript "")
  let f := f.push (.ofCode "/a.js::baz" .function .javascript "")
  ((f.attach 0 1).attach 1 2).attach 0 3

/-- The class makes its method visible, and changes neither itself nor the function beside it. -/
theorem propagateExport_flows_down_nested :
    nested.IsTreelike ∧ nested.isExportable 1 = true ∧
      Spread.step^[1] ⟨nested.children 1, nested⟩ = ⟨[], nested.propagateExport 1⟩ ∧
      (nested.propagateExport 1).cell? 2 = (nested.cell? 2).map Cell.exported ∧
      ∀ j, j ≠ 2 → (nested.propagateExport 1).cell? j = nested.cell? j := by
  have hfalls : nested.Falls fun i => 4 - i := by
    have hsmall : ∀ i < nested.size, ∀ c ∈ nested.children i, 4 - c < 4 - i := by
      decide +kernel
    intro i c hc
    exact hsmall i (lt_size_of_mem_children hc) c hc
  have hlinked : nested.Linked := by
    refine .attach (.attach (.attach ?_ ?_ ?_ rfl) ?_ ?_ rfl) ?_ ?_ rfl
    · exact .push (.push (.push (.push .empty rfl rfl) rfl rfl) rfl rfl) rfl rfl
    all_goals decide
  have htree : nested.IsTreelike := ⟨hlinked.mem_children, hfalls.acyclic⟩
  have hbelow : nested.descendants 1 = [2] := by decide +kernel
  have hdown : ∀ j, Relation.TransGen nested.IsChild 1 j ↔ j = 2 := by
    intro j
    rw [← hfalls.acyclic.mem_descendants_iff, hbelow, List.mem_singleton]
  obtain ⟨hwalk, hexported⟩ := propagateExport_flows_down.1 nested 1 htree
  rw [hbelow] at hwalk
  refine ⟨htree, rfl, hwalk rfl, hexported.exported 2 ⟨rfl, (hdown 2).mpr rfl⟩, ?_⟩
  intro j hj
  exact hexported.kept j fun hmet => hj ((hdown j).mp hmet.2)

end Forest
end CodeAtlas
