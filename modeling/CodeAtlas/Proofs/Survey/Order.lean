import CodeAtlas.Proofs.Sorting
import CodeAtlas.Survey

/-!
# The order of captures

Matches are listed in the order of the nodes with which they end, and definitions and their parts in
the order of their starts.  Both compare any two members, and do so consistently, so that sorting by
them comes down to inserting one member after the other.
-/

namespace CodeAtlas

namespace Pattern

theorem pathBefore_total (p q : List Nat) : (pathBefore p q || pathBefore q p) = true := by
  induction p generalizing q with
  | nil => cases q <;> rfl
  | cons a p ih =>
      cases q with
      | nil => rfl
      | cons b q =>
          simp only [pathBefore, Bool.or_eq_true, Bool.and_eq_true, decide_eq_true_eq, beq_iff_eq]
          rcases Nat.lt_trichotomy a b with hlt | rfl | hlt
          · exact Or.inl (Or.inl hlt)
          · rcases Bool.or_eq_true_iff.mp (ih q) with h | h
            · exact Or.inl (Or.inr ⟨rfl, h⟩)
            · exact Or.inr (Or.inr ⟨rfl, h⟩)
          · exact Or.inr (Or.inl hlt)

theorem pathBefore_trans {p q r : List Nat} (hpq : pathBefore p q = true)
    (hqr : pathBefore q r = true) : pathBefore p r = true := by
  induction p generalizing q r with
  | nil => cases r <;> rfl
  | cons a p ih =>
      cases q with
      | nil => exact absurd hpq nofun
      | cons b q =>
          cases r with
          | nil => exact absurd hqr nofun
          | cons c r =>
              simp only [pathBefore, Bool.or_eq_true, Bool.and_eq_true, decide_eq_true_eq,
                beq_iff_eq] at hpq hqr ⊢
              rcases hpq with hlt | ⟨rfl, hpq⟩
              · exact Or.inl (by omega)
              · rcases hqr with hlt | ⟨rfl, hqr⟩
                · exact Or.inl hlt
                · exact Or.inr ⟨rfl, ih hpq hqr⟩

theorem pathBefore_antisymm {p q : List Nat} (hpq : pathBefore p q = true)
    (hqp : pathBefore q p = true) : p = q := by
  induction p generalizing q with
  | nil =>
      cases q with
      | nil => rfl
      | cons b q => exact absurd hqp nofun
  | cons a p ih =>
      cases q with
      | nil => exact absurd hpq nofun
      | cons b q =>
          simp only [pathBefore, Bool.or_eq_true, Bool.and_eq_true, decide_eq_true_eq,
            beq_iff_eq] at hpq hqp
          rcases hpq with hlt | ⟨rfl, hpq⟩
          · omega
          · rcases hqp with hlt | ⟨-, hqp⟩
            · omega
            · rw [ih hpq hqp]

namespace Ranked

theorem before_iff {a b : Ranked} : a.before b = true ↔
    a.order ≠ b.order ∧ pathBefore a.order b.order = true ∨
      a.order = b.order ∧ (a.depth < b.depth ∨ a.depth = b.depth ∧ a.pattern ≤ b.pattern) := by
  by_cases horder : a.order = b.order
  · simp [before, horder]
  · simp [before, horder]

theorem before_trans (a b c : Ranked) (hab : a.before b = true) (hbc : b.before c = true) :
    a.before c = true := by
  rw [before_iff] at hab hbc ⊢
  rcases hab with ⟨hab, hab'⟩ | ⟨hab, hab'⟩
  · rcases hbc with ⟨hbc, hbc'⟩ | ⟨hbc, -⟩
    · refine Or.inl ⟨?_, pathBefore_trans hab' hbc'⟩
      intro hac
      rw [hac] at hab hab'
      exact hab (pathBefore_antisymm hab' hbc')
    · rw [← hbc]
      exact Or.inl ⟨hab, hab'⟩
  · rw [hab]
    rcases hbc with hbc | ⟨hbc, hbc'⟩
    · exact Or.inl hbc
    · exact Or.inr ⟨hbc, by omega⟩

theorem before_total (a b : Ranked) : (a.before b || b.before a) = true := by
  rw [Bool.or_eq_true, before_iff, before_iff]
  by_cases horder : a.order = b.order
  · rcases Nat.lt_trichotomy a.depth b.depth with hlt | heq | hlt
    · exact Or.inl (Or.inr ⟨horder, Or.inl hlt⟩)
    · rcases Nat.le_total a.pattern b.pattern with hle | hle
      · exact Or.inl (Or.inr ⟨horder, Or.inr ⟨heq, hle⟩⟩)
      · exact Or.inr (Or.inr ⟨horder.symm, Or.inr ⟨heq.symm, hle⟩⟩)
    · exact Or.inr (Or.inr ⟨horder.symm, Or.inl hlt⟩)
  · rcases Bool.or_eq_true_iff.mp (pathBefore_total a.order b.order) with h | h
    · exact Or.inl (Or.inl ⟨horder, h⟩)
    · exact Or.inr (Or.inl ⟨Ne.symm horder, h⟩)

theorem mergeSort_before (rs : List Ranked) :
    rs.mergeSort before = rs.insertionSort (fun a b => a.before b = true) :=
  Sorting.mergeSort_eq_insertionSort before_trans before_total rs

end Ranked
end Pattern

namespace Survey

theorem startsBefore_iff {a b : Syntax.Tree} : startsBefore a b = true ↔
    a.first < b.first ∨ a.first = b.first ∧ b.stop ≤ a.stop := by
  simp [startsBefore]

theorem mergeSort_startsBefore {α : Type} (tree : α → Syntax.Tree) (xs : List α) :
    (xs.mergeSort fun a b => startsBefore (tree a) (tree b)) =
      xs.insertionSort (fun a b => startsBefore (tree a) (tree b) = true) := by
  apply Sorting.mergeSort_eq_insertionSort
  · intro a b c hab hbc
    rw [startsBefore_iff] at hab hbc ⊢
    omega
  · intro a b
    rw [Bool.or_eq_true, startsBefore_iff, startsBefore_iff]
    omega

end Survey
end CodeAtlas
