import CodeAtlas.Import.Resolver
import Mathlib.Data.List.Sort
import Mathlib.Data.String.Basic

/-!
# Sorted texts

Imports are looked for among the files in order, each once.  The result of sorting depends only on
which files there are, so that no search depends on the order in which files were given.
-/

namespace CodeAtlas
namespace Import

variable {s t : String} {texts texts' : List String}

theorem mem_insertSorted : t ∈ insertSorted s texts ↔ t = s ∨ t ∈ texts := by
  induction texts with
  | nil => simp [insertSorted]
  | cons u texts ih =>
      rw [insertSorted]
      split
      · next heq => simp [heq]
      · split
        · simp
        · rw [List.mem_cons, ih, List.mem_cons, or_left_comm]

theorem pairwise_insertSorted (s : String) (h : texts.Pairwise (· < ·)) :
    (insertSorted s texts).Pairwise (· < ·) := by
  induction texts with
  | nil => exact List.pairwise_singleton _ _
  | cons u texts ih =>
      rw [List.pairwise_cons] at h
      rw [insertSorted]
      split
      · exact List.pairwise_cons.mpr h
      · next hne =>
        split
        · next hlt =>
          refine List.pairwise_cons.mpr ⟨?_, List.pairwise_cons.mpr h⟩
          intro v hv
          rcases List.mem_cons.mp hv with rfl | hv
          · exact hlt
          · exact lt_trans hlt (h.1 v hv)
        · next hle =>
          refine List.pairwise_cons.mpr ⟨?_, ih h.2⟩
          intro v hv
          rcases mem_insertSorted.mp hv with rfl | hv
          · exact lt_of_le_of_ne (not_lt.mp hle) (Ne.symm hne)
          · exact h.1 v hv

theorem mem_sorted : s ∈ sorted texts ↔ s ∈ texts := by
  have hfold : ∀ done : List String,
      s ∈ texts.foldl (fun done s => insertSorted s done) done ↔ s ∈ done ∨ s ∈ texts := by
    induction texts with
    | nil => simp
    | cons t texts ih =>
        intro done
        rw [List.foldl_cons, ih, mem_insertSorted, List.mem_cons, or_assoc, or_left_comm]
  rw [sorted, hfold]
  simp

theorem pairwise_sorted (texts : List String) : (sorted texts).Pairwise (· < ·) :=
  List.foldlRecOn (motive := fun done : List String => done.Pairwise (· < ·)) texts _ .nil
    fun _ hdone s _ => pairwise_insertSorted s hdone

/-- Sorting depends on the members only. -/
theorem sorted_eq_of_mem (h : ∀ s, s ∈ texts ↔ s ∈ texts') : sorted texts = sorted texts' := by
  refine (pairwise_sorted texts).eq_of_mem_iff (pairwise_sorted texts') ?_
  intro s
  rw [mem_sorted, mem_sorted, h]

end Import
end CodeAtlas
