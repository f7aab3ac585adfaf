import CodeAtlas.Capture
import Mathlib.Data.List.Basic

/-!
# Labels of matches

A match captures nodes under labels of its own pattern only.  So what a capture can be labelled is
read off the catalogue, without looking at a text.
-/

namespace CodeAtlas
namespace Pattern

open Syntax (Site Source)

mutual

/-- The labels under which a pattern captures nodes. -/
def Shape.labels : Shape → List String
  | .node _ _ children => children.labels
  | .either left right => left.labels ++ right.labels
  | .captured label inner => label :: inner.labels

/-- The labels under which patterns for children capture nodes. -/
def Children.labels : Children → List String
  | .done _ => []
  | .child _ _ head tail => head.labels ++ tail.labels

end

mutual

theorem Shape.label_mem_of_matchesAt : ∀ (p : Shape) {s : Site} {m : Match},
    m ∈ p.matchesAt s → ∀ c ∈ m.captures, c.label ∈ p.labels
  | .captured label inner, s, m, hm, c, hc => by
      rw [Shape.matchesAt, List.mem_map] at hm
      obtain ⟨n, hn, rfl⟩ := hm
      rw [Shape.labels, List.mem_cons]
      rcases List.mem_cons.mp hc with rfl | hc
      · exact Or.inl rfl
      · exact Or.inr (inner.label_mem_of_matchesAt hn c hc)
  | .either left right, s, m, hm, c, hc => by
      rw [Shape.matchesAt, List.mem_append] at hm
      rw [Shape.labels, List.mem_append]
      rcases hm with hm | hm
      · exact Or.inl (left.label_mem_of_matchesAt hm c hc)
      · exact Or.inr (right.label_mem_of_matchesAt hm c hc)
  | .node kind absent children, s, m, hm, c, hc => by
      rw [Shape.matchesAt] at hm
      split at hm
      · rw [Shape.labels]
        exact children.label_mem_of_matchesAmong hm c hc
      · exact absurd hm (by simp)

theorem Children.label_mem_of_matchesAmong : ∀ (p : Children) {last : Site} {sites : List Site}
    {m : Match}, m ∈ p.matchesAmong last sites → ∀ c ∈ m.captures, c.label ∈ p.labels
  | .done closed, last, sites, m, hm, c, hc => by
      rw [Children.matchesAmong] at hm
      split at hm
      · exact absurd hm (by simp)
      · obtain rfl := List.mem_singleton.mp hm
        exact absurd hc (by simp)
  | .child field immediate head tail, last, sites, m, hm, c, hc => by
      rw [Children.matchesAmong, List.mem_flatMap] at hm
      obtain ⟨choice, -, hm⟩ := hm
      split at hm
      · obtain ⟨first, hfirst, hm⟩ := List.mem_flatMap.mp hm
        obtain ⟨rest, hrest, rfl⟩ := List.mem_map.mp hm
        rw [Children.labels, List.mem_append]
        rcases List.mem_append.mp hc with hc | hc
        · exact Or.inl (head.label_mem_of_matchesAt hfirst c hc)
        · exact Or.inr (tail.label_mem_of_matchesAmong hrest c hc)
      · exact absurd hm (by simp)

end

theorem mem_of_mem_distinctMatches {ms : List Match} {m : Match} (h : m ∈ distinctMatches ms) :
    m ∈ ms := by
  have hsub : distinctMatches ms ⊆ ms := by
    refine List.foldlRecOn (motive := fun kept => kept ⊆ ms) ms _ (List.nil_subset ms) ?_
    intro kept hkept n hn
    split
    · exact hkept
    · exact List.append_subset.mpr ⟨hkept, List.cons_subset.mpr ⟨hn, List.nil_subset ms⟩⟩
  exact hsub h

/-- A match that is found belongs to one of the patterns, and its labels are labels of that
pattern. -/
theorem exists_query_of_mem_search {queries : List Query} {source : Source} {root : Site}
    {m : Match} (h : m ∈ search queries source root) :
    ∃ q ∈ queries, ∀ c ∈ m.captures, c.label ∈ q.pattern.labels := by
  obtain ⟨r, hr, rfl⟩ := List.mem_map.mp h
  rw [List.mem_mergeSort, List.mem_flatMap] at hr
  obtain ⟨s, -, hr⟩ := hr
  obtain ⟨⟨q, i⟩, hq, hr⟩ := List.mem_flatMap.mp hr
  obtain ⟨m, hm, rfl⟩ := List.mem_map.mp hr
  refine ⟨q, List.fst_mem_of_mem_zipIdx hq, ?_⟩
  have hmatch := List.mem_of_mem_filter (mem_of_mem_distinctMatches hm)
  exact q.pattern.label_mem_of_matchesAt hmatch

/-- The queries that a list of characters stands for. -/
def readChars? (cs : List Char) : Option (List Query) := do
  let ls ← lexemes (cs.length + 1) cs
  readQueries (2 * ls.length + 2) ls

end Pattern

theorem Catalogue.queries_eq_readChars? (language : Language) (purpose : Catalogue.Purpose) :
    Catalogue.queries language purpose =
      ((Catalogue.groups language purpose).map String.toList).filterMap Pattern.readChars? := by
  rw [List.filterMap_map]
  rfl

namespace Capture

open Syntax (Parsed)
open Catalogue (Purpose)

/-- The captures of a match have labels of one pattern of the catalogue. -/
theorem exists_query_of_mem_all {p : Parsed} {purpose : Purpose} {captures : List Capture}
    (h : captures ∈ all p purpose) :
    ∃ q ∈ (Catalogue.queries p.language purpose).flatten,
      ∀ c ∈ captures, c.label ∈ q.pattern.labels := by
  obtain ⟨found, hfound, rfl⟩ := List.mem_map.mp h
  obtain ⟨group, hgroup, hfound⟩ := List.mem_flatMap.mp hfound
  obtain ⟨m, hm, rfl⟩ := List.mem_map.mp hfound
  obtain ⟨q, hq, hlabels⟩ := Pattern.exists_query_of_mem_search hm
  refine ⟨q, List.mem_flatten.mpr ⟨group, hgroup, hq⟩, ?_⟩
  intro c hc
  obtain ⟨l, hl, rfl⟩ := List.mem_map.mp hc
  exact hlabels l (List.mem_of_mem_filter hl)

end Capture
end CodeAtlas
