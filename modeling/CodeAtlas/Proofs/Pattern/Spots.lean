import CodeAtlas.Proofs.Pattern
import CodeAtlas.Proofs.Syntax.Words

/-!
# Spots of patterns

A pattern says of every node that it captures what kind it is of and which role it fills, unless it
leaves this open.  So the kinds and roles behind a label are read off the catalogue.  Whatever is
captured is a node of the tree that was searched, and shares what holds of all nodes of it.
-/

namespace CodeAtlas

open Syntax (Tree Site Source Parsed)

/-! ## Nodes of a tree -/

/-- What holds of all nodes of the tree holds of all nodes of the other one. -/
def Syntax.Tree.Contains (t u : Tree) : Prop :=
  ∀ P : String → String → Nat → Nat → Prop, t.All P → u.All P

namespace Syntax.Site

theorem tree_mem_of_mem_among {parent c : Site} {before ts : List Tree} {index : Nat}
    (h : c ∈ parent.among before index ts) : c.tree ∈ ts := by
  induction ts generalizing before index with
  | nil => exact absurd h (by simp [among])
  | cons t ts ih =>
      rw [among, List.mem_cons] at h
      rcases h with rfl | h
      · exact List.mem_cons_self
      · exact List.mem_cons_of_mem t (ih h)

theorem contains_of_mem_children {s c : Site} (h : c ∈ s.children) : s.tree.Contains c.tree :=
  fun _ hall => hall.children c.tree (List.mem_of_mem_filter (tree_mem_of_mem_among h))

end Syntax.Site

namespace Pattern

theorem contains_of_mem_sitesBelow {fuel : Nat} {s u : Site} (h : u ∈ sitesBelow fuel s) :
    s.tree.Contains u.tree := by
  induction fuel generalizing s with
  | zero =>
      obtain rfl := List.mem_singleton.mp h
      exact fun _ hall => hall
  | succ fuel ih =>
      rw [sitesBelow, List.mem_cons, List.mem_flatMap] at h
      rcases h with rfl | ⟨c, hc, h⟩
      · exact fun _ hall => hall
      · exact fun P hall => ih h P (Site.contains_of_mem_children hc P hall)

theorem mem_of_mem_choices {sites : List Site} {choice : Site × List Site}
    (h : choice ∈ choices sites) : choice.1 ∈ sites ∧ choice.2 ⊆ sites := by
  induction sites with
  | nil => exact absurd h (by simp [choices])
  | cons s sites ih =>
      rw [choices, List.mem_cons] at h
      rcases h with rfl | h
      · exact ⟨List.mem_cons_self, List.subset_cons_self s sites⟩
      · obtain ⟨hfirst, hrest⟩ := ih h
        exact ⟨List.mem_cons_of_mem s hfirst, fun c hc => List.mem_cons_of_mem s (hrest hc)⟩

theorem mem_of_mem_candidates {immediate : Bool} {sites : List Site} {choice : Site × List Site}
    (h : choice ∈ candidates immediate sites) : choice.1 ∈ sites ∧ choice.2 ⊆ sites := by
  rw [candidates] at h
  split at h
  · exact mem_of_mem_choices (List.mem_of_mem_take h)
  · exact mem_of_mem_choices h

/-! ## Spots -/

/-- What a pattern says of a node that it captures: its label, its kind and the role it fills; `_`
stands for any kind, and the empty text for any role. -/
structure Spot where
  label : String
  kind : String
  field : String
deriving DecidableEq, Repr

/-- The node is one that the spot describes. -/
def Spot.Describes (spot : Spot) (l : Labelled) : Prop :=
  spot.label = l.label ∧ (spot.kind = "_" ∨ spot.kind = l.site.tree.kind) ∧
    (spot.field = "" ∨ spot.field = l.site.tree.field)

/-- The kinds that a described node may be of. -/
def Shape.kinds : Shape → List String
  | .node kind _ _ => [kind]
  | .either left right => left.kinds ++ right.kinds
  | .captured _ inner => inner.kinds

mutual

/-- What a pattern for a node in a role says of the nodes that it captures. -/
def Shape.spots (field : String) : Shape → List Spot
  | .node _ _ children => children.spots
  | .either left right => left.spots field ++ right.spots field
  | .captured label inner => inner.kinds.map (⟨label, ·, field⟩) ++ inner.spots field

/-- What patterns for children say of the nodes that they capture. -/
def Children.spots : Children → List Spot
  | .done _ => []
  | .child field _ head tail => head.spots field ++ tail.spots

end

theorem Shape.exists_kind : ∀ (p : Shape) {s : Site} {m : Match}, m ∈ p.matchesAt s →
    ∃ kind ∈ p.kinds, kind = "_" ∨ kind = s.tree.kind
  | .captured label inner, s, m, hm => by
      rw [Shape.matchesAt, List.mem_map] at hm
      obtain ⟨n, hn, -⟩ := hm
      exact inner.exists_kind hn
  | .either left right, s, m, hm => by
      rw [Shape.matchesAt, List.mem_append] at hm
      rw [Shape.kinds]
      rcases hm with hm | hm
      · obtain ⟨kind, hkind, h⟩ := left.exists_kind hm
        exact ⟨kind, List.mem_append_left _ hkind, h⟩
      · obtain ⟨kind, hkind, h⟩ := right.exists_kind hm
        exact ⟨kind, List.mem_append_right _ hkind, h⟩
  | .node kind absent children, s, m, hm => by
      rw [Shape.matchesAt] at hm
      split at hm
      next h =>
        rw [Bool.and_eq_true, Bool.or_eq_true, beq_iff_eq, beq_iff_eq] at h
        exact ⟨kind, List.mem_singleton_self kind, h.1⟩
      next => exact absurd hm (by simp)

mutual

theorem Shape.exists_spot : ∀ (p : Shape) {field : String} {s : Site} {m : Match},
    m ∈ p.matchesAt s → (field = "" ∨ field = s.tree.field) → ∀ l ∈ m.captures,
      s.tree.Contains l.site.tree ∧ ∃ spot ∈ p.spots field, spot.Describes l
  | .captured label inner, field, s, m, hm, hfield, l, hl => by
      rw [Shape.matchesAt, List.mem_map] at hm
      obtain ⟨n, hn, rfl⟩ := hm
      rw [Shape.spots]
      rcases List.mem_cons.mp hl with rfl | hl
      · obtain ⟨kind, hkind, h⟩ := inner.exists_kind hn
        exact ⟨fun _ hall => hall, ⟨label, kind, field⟩,
          List.mem_append_left _ (List.mem_map_of_mem hkind), rfl, h, hfield⟩
      · obtain ⟨hcontains, spot, hspot, h⟩ := inner.exists_spot hn hfield l hl
        exact ⟨hcontains, spot, List.mem_append_right _ hspot, h⟩
  | .either left right, field, s, m, hm, hfield, l, hl => by
      rw [Shape.matchesAt, List.mem_append] at hm
      rw [Shape.spots]
      rcases hm with hm | hm
      · obtain ⟨hcontains, spot, hspot, h⟩ := left.exists_spot hm hfield l hl
        exact ⟨hcontains, spot, List.mem_append_left _ hspot, h⟩
      · obtain ⟨hcontains, spot, hspot, h⟩ := right.exists_spot hm hfield l hl
        exact ⟨hcontains, spot, List.mem_append_right _ hspot, h⟩
  | .node kind absent children, field, s, m, hm, hfield, l, hl => by
      rw [Shape.matchesAt] at hm
      split at hm
      next =>
        obtain ⟨c, hc, hcontains, hspot⟩ := children.exists_spot hm l hl
        refine ⟨fun P hall => hcontains P (Site.contains_of_mem_children hc P hall), ?_⟩
        rwa [Shape.spots]
      next => exact absurd hm (by simp)

theorem Children.exists_spot : ∀ (p : Children) {last : Site} {sites : List Site} {m : Match},
    m ∈ p.matchesAmong last sites → ∀ l ∈ m.captures,
      ∃ c ∈ sites, c.tree.Contains l.site.tree ∧ ∃ spot ∈ p.spots, spot.Describes l
  | .done closed, last, sites, m, hm, l, hl => by
      rw [Children.matchesAmong] at hm
      split at hm
      · exact absurd hm (by simp)
      · obtain rfl := List.mem_singleton.mp hm
        exact absurd hl (by simp)
  | .child field immediate head tail, last, sites, m, hm, l, hl => by
      rw [Children.matchesAmong, List.mem_flatMap] at hm
      obtain ⟨choice, hchoice, hm⟩ := hm
      obtain ⟨hfirst, hrest⟩ := mem_of_mem_candidates hchoice
      split at hm
      next hfield =>
        rw [Bool.or_eq_true, beq_iff_eq, beq_iff_eq] at hfield
        obtain ⟨first, hhead, hm⟩ := List.mem_flatMap.mp hm
        obtain ⟨rest, htail, rfl⟩ := List.mem_map.mp hm
        rw [Children.spots]
        rcases List.mem_append.mp hl with hl | hl
        · obtain ⟨hcontains, spot, hspot, h⟩ :=
            head.exists_spot hhead (hfield.imp_right Eq.symm) l hl
          exact ⟨choice.1, hfirst, hcontains, spot, List.mem_append_left _ hspot, h⟩
        · obtain ⟨c, hc, hcontains, spot, hspot, h⟩ := tail.exists_spot htail l hl
          exact ⟨c, hrest hc, hcontains, spot, List.mem_append_right _ hspot, h⟩
      next => exact absurd hm (by simp)

end

/-- What a search captures are nodes of the tree, each described by a spot of one of the
patterns. -/
theorem exists_spot_of_mem_search {queries : List Query} {source : Source} {root : Site}
    {m : Match} (h : m ∈ search queries source root) {l : Labelled} (hl : l ∈ m.captures) :
    root.tree.Contains l.site.tree ∧
      ∃ q ∈ queries, ∃ spot ∈ q.pattern.spots "", spot.Describes l := by
  obtain ⟨r, hr, rfl⟩ := List.mem_map.mp h
  rw [List.mem_mergeSort, List.mem_flatMap] at hr
  obtain ⟨s, hs, hr⟩ := hr
  obtain ⟨⟨q, i⟩, hq, hr⟩ := List.mem_flatMap.mp hr
  obtain ⟨m, hm, rfl⟩ := List.mem_map.mp hr
  have hmatch := List.mem_of_mem_filter (mem_of_mem_distinctMatches hm)
  obtain ⟨hcontains, hspot⟩ := q.pattern.exists_spot hmatch (Or.inl rfl) l hl
  refine ⟨fun P hall => hcontains P (contains_of_mem_sitesBelow hs P hall), q, ?_, hspot⟩
  exact List.fst_mem_of_mem_zipIdx hq

end Pattern

namespace Capture

open Catalogue (Purpose)
open Pattern (Labelled Spot)

theorem exists_spot_of_mem_labelled {p : Parsed} {purpose : Purpose} {root : Site} {l : Labelled}
    (h : l ∈ (labelled p purpose root).flatten) :
    root.tree.Contains l.site.tree ∧
      ∃ q ∈ (Catalogue.queries p.language purpose).flatten,
        ∃ spot ∈ q.pattern.spots "", spot.Describes l := by
  obtain ⟨found, hfound, hl⟩ := List.mem_flatten.mp h
  obtain ⟨group, hgroup, hfound⟩ := List.mem_flatMap.mp hfound
  obtain ⟨m, hm, rfl⟩ := List.mem_map.mp hfound
  obtain ⟨hcontains, q, hq, hspot⟩ :=
    Pattern.exists_spot_of_mem_search hm (List.mem_of_mem_filter hl)
  exact ⟨hcontains, q, List.mem_flatten.mpr ⟨group, hgroup, hq⟩, hspot⟩

end Capture
end CodeAtlas
