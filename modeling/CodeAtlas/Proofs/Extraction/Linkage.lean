import CodeAtlas.Proofs.Extraction.Exports
import CodeAtlas.Proofs.Extraction.Rows
import CodeAtlas.Proofs.Survey.C

/-!
# Definitions in C

C has neither classes nor export statements.  So placing a definition renames nothing and exports
nothing: at the top of a file it is visible to other files exactly when its own text does not start
with the word that keeps it to the file.  An include lists no names and brings in a file as a whole.
-/

namespace CodeAtlas
namespace Forest

variable {f g k : Forest} {α : Type} {view : Entity → α} {i c : Nat}

/-! ## Forests in which nothing is claimed -/

/-- No entity takes functions for methods, and none exports what it wraps. -/
def Plain (f : Forest) : Prop :=
  ∀ j e, f.entity? j = some e → e.kind ≠ .export ∧ e.kind.isClassLike = false

/-- The entities of two forests look the same, index by index. -/
def SameView (view : Entity → α) (f g : Forest) : Prop :=
  ∀ j, (g.entity? j).map view = (f.entity? j).map view

/-- The view does not show what placing a definition may change of it. -/
structure Overlooks (view : Entity → α) : Prop where
  degrees : ∀ (e : Entity) (a b : Nat), view { e with inDegree := a, outDegree := b } = view e
  header : ∀ (e : Entity) (header : String), view (e.spliceHeader header) = view e

theorem claimedBy_eq_self (e : Entity) {owner : Entity} (h : owner.kind.isClassLike = false) :
    claimedBy e owner = e := by
  rw [claimedBy, h]
  rfl

namespace SameView

theorem refl (view : Entity → α) (f : Forest) : SameView view f f := fun _ => rfl

theorem trans (h : SameView view f g) (h' : SameView view g k) : SameView view f k :=
  fun j => (h' j).trans (h j)

theorem of_map {step : Nat → Entity → Entity} (hstep : ∀ j e, view (step j e) = view e)
    (hentity : ∀ j, g.entity? j = (f.entity? j).map (step j)) : SameView view f g := by
  intro j
  rw [hentity, Option.map_map]
  congr 1
  funext e
  exact hstep j e

theorem modify {step : Entity → Entity} (hstep : ∀ e, view (step e) = view e) :
    SameView view f (f.modify i step) := by
  have hsame : ∀ j e, view (if j = i then step e else e) = view e := by
    intro j e
    split
    · exact hstep e
    · rfl
  exact of_map hsame (entity?_modify f i · step)

theorem attach (hview : Overlooks view) (f : Forest) (p c : Nat) :
    SameView view f (f.attach p c) :=
  of_map (fun _ e => hview.degrees e _ _) (entity?_attach f p c)

theorem release (hview : Overlooks view) (f : Forest) (i : Nat) :
    SameView view f (f.release i) := by
  rw [Forest.release]
  split
  · exact refl view f
  · next old hold =>
    by_cases hmem : i ∈ f.children old
    · exact of_map (fun _ e => hview.degrees e _ _) (fun _ => entity?_detach hmem)
    · rw [detach_of_not_mem hmem]
      exact refl view f

theorem relate (hview : Overlooks view) (h : f.Plain) (i c : Nat) :
    SameView view f (f.relate i c).1 := by
  apply relate_induction (refl view f)
  · intro owner howner hkind
    exact absurd hkind (h c owner howner).1
  · intro owner _ howner _
    refine (modify fun e => hview.header e _).trans ((release hview _ i).trans
      ((attach hview _ c i).trans (modify fun e => ?_)))
    rw [claimedBy_eq_self e (h c owner howner).2]

theorem plain (h : SameView (·.kind) f g) (hplain : f.Plain) : g.Plain := by
  intro j e he
  have hkind := h j
  rw [he, Option.map_some, eq_comm, Option.map_eq_some_iff] at hkind
  obtain ⟨e', he', hkind⟩ := hkind
  rw [← hkind]
  exact hplain j e' he'

end SameView

theorem overlooks_kind : Overlooks (fun e : Entity => e.kind) := ⟨fun _ _ _ => rfl, fun _ _ => rfl⟩

end Forest

namespace Extraction

open Forest (Plain SameView Overlooks)

variable {f : Forest} {α : Type} {view : Entity → α}

/-! ## Placing in plain forests -/

theorem sameView_offer (hview : Overlooks view) (h : f.Plain) (i : Nat) (cs : List Nat) :
    SameView view f (offer f i cs) := by
  induction cs generalizing f with
  | nil => exact .refl view f
  | cons c cs ih =>
      have hplain := (SameView.relate Forest.overlooks_kind h i c).plain h
      exact (SameView.relate hview h i c).trans (ih hplain)

/-- In a plain forest, placing definitions changes nothing that a view shows. -/
theorem sameView_place (hview : Overlooks view) (h : f.Plain) (file : Nat)
    (before after : List (Entity × Nat)) : SameView view f (place file before after f) := by
  induction after generalizing before f with
  | nil => exact .refl view f
  | cons x after ih =>
      obtain ⟨e, i⟩ := x
      have hattached : ∀ {β : Type} {view : Entity → β}, Overlooks view →
          SameView view f (f.attach file i) := fun hview => SameView.attach hview f file i
      have hplain := (hattached Forest.overlooks_kind).plain h
      rw [place]
      split
      · exact ih h (before ++ [(e, i)])
      · refine ((hattached hview).trans (sameView_offer hview hplain i _)).trans (ih ?_ _)
        exact (sameView_offer Forest.overlooks_kind hplain i _).plain hplain

/-! ## Entities before they are placed -/

open Survey (Definition Part slice)

variable {language : Language} {path content : String} {d : Definition}

theorem exportable_addPart (path content : String) (e : Entity) (p : Part) :
    (addPart path content e p).exportable = e.exportable := by
  simp only [addPart]
  split
  case h_1 => rfl
  case h_2 => split <;> rfl
  case h_3 =>
    split
    · rfl
    · split <;> rfl
  case h_4 => split <;> rfl
  case h_5 => rfl

theorem otherName_addPart (path content : String) (e : Entity) {p : Part}
    (h : p.label ≠ "alias") : (addPart path content e p).otherName = e.otherName := by
  simp only [addPart]
  split
  case h_1 => rfl
  case h_2 halias => exact absurd halias h
  case h_3 =>
    split
    · rfl
    · split <;> rfl
  case h_4 => split <;> rfl
  case h_5 => rfl

theorem exportable_entity (language : Language) (path content : String) (d : Definition) :
    (entity language path content d).exportable = isVisible language (slice content d.span) := by
  have hparts : ∀ e : Entity,
      (d.ownParts.foldl (addPart path content) e).exportable = e.exportable := fun e =>
    List.foldlRecOn (motive := fun e' : Entity => e'.exportable = e.exportable) _ _ rfl
      fun e' he' p _ => (exportable_addPart path content e' p).trans he'
  have howned : (entityOf language path content d).exportable =
      isVisible language (slice content d.span) := by
    rw [entityOf]
    cases d.owned <;> exact hparts _
  rw [entity]
  exact List.foldlRecOn (motive := fun e' : Entity => e'.exportable = _) _ _ howned
    fun _ he' _ _ => he'

/-- A definition that has a name and no other one is labelled with it. -/
theorem label_entity (hname : d.name content ≠ "")
    (halias : ∀ part ∈ d.ownParts, part.label ≠ "alias") :
    (entity language path content d).label = d.name content := by
  have hparts : ∀ e : Entity, e.otherName = "" →
      (d.ownParts.foldl (addPart path content) e).otherName = "" := fun e he =>
    List.foldlRecOn (motive := fun e' : Entity => e'.otherName = "") _ _ he
      fun e' he' p hp => (otherName_addPart path content e' (halias p hp)).trans he'
  have howned : (entityOf language path content d).otherName = "" := by
    rw [entityOf]
    cases d.owned <;> exact hparts _ rfl
  have hother : (entity language path content d).otherName = "" := by
    rw [entity]
    exact List.foldlRecOn (motive := fun e' : Entity => e'.otherName = "") _ _ howned
      fun _ he' _ _ => he'
  rw [Entity.label, hother]
  exact (entity_name_id language path content hname).1

theorem isPrefixOf_append_row {w cs rest : List Char} (hw : '\n' ∉ w) :
    w.isPrefixOf (cs ++ '\n' :: rest) = w.isPrefixOf cs := by
  induction w generalizing cs with
  | nil => simp
  | cons c w ih =>
      rw [List.mem_cons, not_or] at hw
      cases cs with
      | nil => simp [List.isPrefixOf, Ne.symm hw.1]
      | cons x cs => rw [List.cons_append, List.isPrefixOf, List.isPrefixOf, ih hw.2]

/-- Whether the own text starts with a word is decided on its first row. -/
theorem startsWith_source_entity (howned : d.owned = none) {w : String} (hw : '\n' ∉ w.toList) :
    Text.startsWith (entity language path content d).source w =
      Text.startsWith (slice content d.span) w := by
  have hown : (entityOf language path content d).source = slice content d.span := by
    rw [(entityOf_source_span language path content d).1, Definition.ownSpan, howned]
  rw [entity, ← hown]
  refine List.foldlRecOn (motive := fun e' : Entity => Text.startsWith e'.source w = _) _ _ rfl ?_
  intro e he s _
  rw [← he, addStatement, Text.startsWith, Text.startsWith, String.toList_append,
    String.toList_append]
  exact isPrefixOf_append_row hw

/-! ## Placed entities -/

variable {s : Survey} {j : Nat}

theorem plain_planted (h : ∀ d ∈ s.definitions, d.Plain content) :
    (Forest.planted (unplaced language path content s)).Plain := by
  intro j e he
  rw [Forest.entity?_planted] at he
  rcases List.mem_cons.mp (List.mem_of_getElem? he) with rfl | he
  · exact ⟨nofun, rfl⟩
  · obtain ⟨d, hd, rfl⟩ := List.mem_map.mp he
    rw [(Unlinked.entity language path content d).kind_eq]
    exact ⟨(h d hd).kind_ne_export, (h d hd).not_classLike⟩

theorem sameView_placedForest (h : ∀ d ∈ s.definitions, d.Plain content) (hview : Overlooks view) :
    SameView view (Forest.planted (unplaced language path content s))
      (placedForest language path content s) :=
  sameView_place hview (plain_planted h) 0 [] _

theorem sameView_propagateExport (hview : ∀ e : Entity, view { e with exportable := true } = view e)
    (f : Forest) (is : List Nat) : SameView view f (is.foldl Forest.propagateExport f) := by
  refine List.foldlRecOn (motive := fun g => SameView view f g) _ _ (.refl view f) ?_
  intro g hg i _
  refine hg.trans (.of_map ?_ (Forest.entity?_propagateExport g i))
  intro j e
  split
  · exact hview e
  · rfl

/-- Below a file without classes and export statements, an entity keeps the label of its definition,
and at the top of the file also what other files can see of it. -/
theorem exists_definition_of_plain (h : ∀ d ∈ s.definitions, d.Plain content)
    (hexports : s.exports = []) (hj : j ∈ (forest language path content s).descendants 0) :
    ∃ d ∈ s.definitions, ∃ e, (forest language path content s).entity? j = some e ∧
      e.label = (entity language path content d).label ∧
      (j ∈ (forest language path content s).children 0 →
        e.source = (entity language path content d).source ∧
          e.exportable = (entity language path content d).exportable) := by
  have hunmarked : unmarkedForest language path content s =
      placedForest language path content s := by rw [unmarkedForest, hexports]; rfl
  obtain ⟨-, e, he, -⟩ := entity?_forest_of_mem hj
  have hlabel : SameView (·.label) (Forest.planted (unplaced language path content s))
      (forest language path content s) := by
    rw [forest_eq, hunmarked]
    exact (sameView_placedForest h ⟨fun _ _ _ => rfl, fun _ _ => rfl⟩).trans
      (sameView_propagateExport (fun _ => rfl) _ _)
  have hsame := hlabel j
  rw [he, Option.map_some, Forest.entity?_planted, eq_comm, Option.map_eq_some_iff] at hsame
  obtain ⟨e₀, he₀, hsame⟩ := hsame
  have hpos : j ≠ 0 := by
    rintro rfl
    obtain ⟨rank, hrank⟩ := exists_ranked_forest language path content s
    have hnodup := (linked_forest language path content s).nodup_descendants hrank 0
    exact (List.nodup_cons.mp hnodup).1 hj
  have hmem : e₀ ∈ s.definitions.map (entity language path content) := by
    rw [unplaced, List.getElem?_cons, if_neg hpos] at he₀
    exact List.mem_of_getElem? he₀
  obtain ⟨d, hd, rfl⟩ := List.mem_map.mp hmem
  refine ⟨d, hd, e, he, hsame.symm, fun hchild => ?_⟩
  have hplaced : (placedForest language path content s).entity? j = some e := by
    rw [← hunmarked, ← (forest_exportable language path content s).1 j hchild, he]
  have hview : SameView (fun e : Entity => (e.source, e.exportable))
      (Forest.planted (unplaced language path content s))
      (placedForest language path content s) :=
    sameView_placedForest h ⟨fun _ _ _ => rfl, fun _ _ => rfl⟩
  have hseen := hview j
  rw [hplaced, Forest.entity?_planted, he₀] at hseen
  exact Prod.mk.inj (Option.some.inj hseen)

/-- What is listed below a file without classes and export statements comes from a definition with
the same label; at the top of the file it also has its text and visibility. -/
theorem exists_definition_of_mem_tail (h : ∀ d ∈ s.definitions, d.Plain content)
    (hexports : s.exports = []) (hs : ∀ d ∈ s.definitions, d.kind ≠ .file) {e : Entity}
    (he : e ∈ (entities language path content s).tail) :
    ∃ d ∈ s.definitions, e.label = (entity language path content d).label ∧
      (e.parent = some path → e.source = (entity language path content d).source ∧
        e.exportable = (entity language path content d).exportable) := by
  have hnamed : ∀ j ∈ (forest language path content s).descendants 0,
      ∃ d ∈ s.definitions,
        ((numberedForest language path content s).named j).label =
          (entity language path content d).label ∧
        (j ∈ (forest language path content s).children 0 →
          ((numberedForest language path content s).named j).source =
            (entity language path content d).source ∧
          ((numberedForest language path content s).named j).exportable =
            (entity language path content d).exportable) := by
    intro j hj
    obtain ⟨d, hd, e, he, hlabel, hseen⟩ := exists_definition_of_plain h hexports hj
    obtain ⟨-, e', he', -, hkind⟩ := entity?_forest_of_mem hj
    obtain rfl := Option.some.inj (he.symm.trans he')
    obtain ⟨n, hnamed⟩ := Forest.named_giveIds (size_forest_pos language path content s) he hkind
    rw [numberedForest, hnamed]
    exact ⟨d, hd, hlabel, hseen⟩
  by_cases hparent : e.parent = some path
  · obtain ⟨j, hj, rfl⟩ := exists_child_of_parent hs he hparent
    have hlinked := linked_forest language path content s
    obtain ⟨rank, hrank⟩ := exists_ranked_forest language path content s
    have hmem : j ∈ (forest language path content s).descendants 0 :=
      (hlinked.mem_descendants hrank).mpr ⟨j, hj, Or.inl rfl⟩
    obtain ⟨d, hd, hlabel, hseen⟩ := hnamed j hmem
    exact ⟨d, hd, hlabel, fun _ => hseen hj⟩
  · rw [entities_eq, List.map_cons, List.tail_cons] at he
    obtain ⟨j, hj, rfl⟩ := List.mem_map.mp he
    obtain ⟨d, hd, hlabel, -⟩ := hnamed j hj
    exact ⟨d, hd, hlabel, fun hpath => absurd hpath hparent⟩

/-! ## Entities of C files -/

/-- The labels of a C file have no dots, and a definition at its top is visible to other files
unless its own text starts with `static`. -/
theorem linkage_of_mem {e : Entity}
    (he : e ∈ (entities .c path content (Survey.of .c content)).tail) :
    '.' ∉ e.label.toList ∧
      (e.parent = some path → e.exportable = !Text.startsWith e.source "static") := by
  obtain ⟨d, hd, hlabel, hseen⟩ := exists_definition_of_mem_tail
    (fun d hd => Survey.plain_of_mem hd) (Survey.exports_eq_nil rfl content)
    (fun d hd => Survey.kind_ne_file_of_mem hd) he
  have hplain := Survey.plain_of_mem hd
  have hname := Survey.name_ne_empty_of_mem hd hplain.kind_ne_export
  constructor
  · rw [hlabel, label_entity hname hplain.label_ne_alias]
    exact hplain.dot_not_mem
  · intro hparent
    obtain ⟨hsource, hexportable⟩ := hseen hparent
    rw [hexportable, exportable_entity, hsource,
      startsWith_source_entity hplain.owned (by decide +kernel)]
    rfl

end Extraction
end CodeAtlas
