import CodeAtlas.Proofs.Forest.Edges
import Mathlib.Data.Finset.Card
import Mathlib.Data.Finset.Range

/-!
# Going down a forest

The indices below another one, listed with a bound on the depth.  Where some number of an index gets
smaller on the way down and never exceeds the size of the forest, the bound never cuts anything off:
the indices below `i` are its children, each followed by what is below it.

A forest is *ranked* by a number for every index when parents have smaller numbers than their
children.  In a linked forest with a rank the indices below `i` are listed once, and they are
exactly those from which going up leads to `i`.
-/

namespace CodeAtlas

namespace Forest

variable {f : Forest} {rank level : Nat → Nat} {i j p c : Nat}

/-! ## Numbers that fall -/

/-- A number for every index that gets smaller on the way down. -/
def Falls (f : Forest) (level : Nat → Nat) : Prop :=
  ∀ i, ∀ c ∈ f.children i, level c < level i

namespace Falls

/-- What holds of an index whenever it holds of its children holds of every index. -/
theorem descend (h : f.Falls level) {motive : Nat → Prop}
    (step : ∀ i, (∀ c ∈ f.children i, motive c) → motive i) (i : Nat) : motive i := by
  induction hn : level i using Nat.strong_induction_on generalizing i with
  | _ n ih =>
      apply step
      intro c hc
      exact ih (level c) (hn ▸ h i c hc) c rfl

/-- A level more adds nothing once the bound has reached the number. -/
theorem below_succ (h : f.Falls level) (depth : Nat) (hdepth : level i ≤ depth) :
    f.below (depth + 1) i = f.below depth i := by
  induction depth generalizing i with
  | zero =>
      have hnil : f.children i = [] := by
        rw [List.eq_nil_iff_forall_not_mem]
        intro c hc
        exact absurd (h i c hc) (by omega)
      simp [below, hnil]
  | succ depth ih =>
      rw [below, below]
      apply List.flatMap_congr
      intro c hc
      have hlt := h i c hc
      rw [ih (by omega)]

theorem descendants_eq (h : f.Falls level) (hsize : ∀ i, level i ≤ f.size) (i : Nat) :
    f.descendants i = (f.children i).flatMap fun c => c :: f.descendants c := by
  have hstable := h.below_succ f.size (hsize i)
  rw [below] at hstable
  exact hstable.symm

end Falls

/-! ## Ranks -/

/-- Parents have a smaller rank than their children. -/
def Ranked (f : Forest) (rank : Nat → Nat) : Prop :=
  ∀ i p, f.parent? i = some p → rank p < rank i

/-- The number of indices of a greater rank, which bounds the levels below an index. -/
def height (f : Forest) (rank : Nat → Nat) (i : Nat) : Nat :=
  ((Finset.range f.size).filter fun j => rank i < rank j).card

theorem height_le_size (f : Forest) (rank : Nat → Nat) (i : Nat) : f.height rank i ≤ f.size := by
  have h := Finset.card_filter_le (Finset.range f.size) fun j => rank i < rank j
  rwa [Finset.card_range] at h

namespace Linked

theorem rank_lt (h : f.Linked) (hrank : f.Ranked rank) (hc : c ∈ f.children i) :
    rank i < rank c :=
  hrank c i ((h.mem_children i c).mp hc)

theorem falls_height (h : f.Linked) (hrank : f.Ranked rank) : f.Falls (f.height rank) := by
  intro i c hc
  have hlt : rank i < rank c := h.rank_lt hrank hc
  apply Finset.card_lt_card
  rw [Finset.ssubset_iff_of_subset]
  · refine ⟨c, ?_, by simp⟩
    exact Finset.mem_filter.mpr ⟨Finset.mem_range.mpr (h.child_lt hc), hlt⟩
  · intro j hj
    rw [Finset.mem_filter] at hj ⊢
    exact ⟨hj.1, hlt.trans hj.2⟩

/-- What holds of an index whenever it holds of its children holds of every index. -/
theorem descend (h : f.Linked) (hrank : f.Ranked rank) {motive : Nat → Prop}
    (step : ∀ i, (∀ c ∈ f.children i, motive c) → motive i) (i : Nat) : motive i :=
  (h.falls_height hrank).descend step i

theorem descendants_eq (h : f.Linked) (hrank : f.Ranked rank) (i : Nat) :
    f.descendants i = (f.children i).flatMap fun c => c :: f.descendants c :=
  (h.falls_height hrank).descendants_eq (height_le_size f rank) i

theorem mem_descendants (h : f.Linked) (hrank : f.Ranked rank) :
    j ∈ f.descendants i ↔ ∃ c ∈ f.children i, j = c ∨ j ∈ f.descendants c := by
  rw [h.descendants_eq hrank i, List.mem_flatMap]
  simp only [List.mem_cons]

/-- An index is below another one exactly when its parent is that one or below it. -/
theorem mem_descendants_iff_parent? (h : f.Linked) (hrank : f.Ranked rank) :
    j ∈ f.descendants i ↔
      ∃ p, f.parent? j = some p ∧ (p = i ∨ p ∈ f.descendants i) := by
  induction i using h.descend hrank with
  | step i ih =>
      constructor
      · intro hj
        obtain ⟨c, hc, rfl | hj⟩ := (h.mem_descendants hrank).mp hj
        · exact ⟨i, (h.mem_children i j).mp hc, Or.inl rfl⟩
        · obtain ⟨p, hp, hup⟩ := (ih c hc).mp hj
          exact ⟨p, hp, Or.inr ((h.mem_descendants hrank).mpr ⟨c, hc, hup⟩)⟩
      · rintro ⟨p, hp, rfl | hup⟩
        · exact (h.mem_descendants hrank).mpr ⟨j, (h.mem_children p j).mpr hp, Or.inl rfl⟩
        · obtain ⟨c, hc, hup⟩ := (h.mem_descendants hrank).mp hup
          exact (h.mem_descendants hrank).mpr ⟨c, hc, Or.inr ((ih c hc).mpr ⟨p, hp, hup⟩)⟩

theorem rank_lt_of_mem_descendants (h : f.Linked) (hrank : f.Ranked rank)
    (hj : j ∈ f.descendants i) : rank i < rank j := by
  induction i using h.descend hrank with
  | step i ih =>
      obtain ⟨c, hc, rfl | hj⟩ := (h.mem_descendants hrank).mp hj
      · exact h.rank_lt hrank hc
      · exact (h.rank_lt hrank hc).trans (ih c hc hj)

/-- An index lies below one child of another index at most. -/
theorem branch_unique (h : f.Linked) (hrank : f.Ranked rank) {c d : Nat}
    (hc : c ∈ f.children i) (hd : d ∈ f.children i)
    (hjc : j = c ∨ j ∈ f.descendants c) (hjd : j = d ∨ j ∈ f.descendants d) : c = d := by
  -- a child of `i` is never below another child, which has a greater rank than `i`
  have hapart : ∀ {c d}, c ∈ f.children i → d ∈ f.children i → c ∉ f.descendants d := by
    intro c d hc hd hmem
    obtain ⟨p, hp, hup⟩ := (h.mem_descendants_iff_parent? hrank).mp hmem
    rw [(h.mem_children i c).mp hc] at hp
    obtain rfl : i = p := Option.some.inj hp
    have hid := h.rank_lt hrank hd
    rcases hup with rfl | hup
    · exact lt_irrefl _ hid
    · exact lt_asymm hid (h.rank_lt_of_mem_descendants hrank hup)
  induction hn : rank j using Nat.strong_induction_on generalizing j with
  | _ n ih =>
      rcases hjc with rfl | hjc
      · rcases hjd with rfl | hjd
        · rfl
        · exact absurd hjd (hapart hc hd)
      · rcases hjd with rfl | hjd
        · exact absurd hjc (hapart hd hc)
        · obtain ⟨p, hp, hup⟩ := (h.mem_descendants_iff_parent? hrank).mp hjc
          obtain ⟨q, hq, huq⟩ := (h.mem_descendants_iff_parent? hrank).mp hjd
          rw [hp] at hq
          obtain rfl : p = q := Option.some.inj hq
          exact ih (rank p) (hn ▸ hrank j p hp) hup huq rfl

theorem nodup_descendants (h : f.Linked) (hrank : f.Ranked rank) (i : Nat) :
    (i :: f.descendants i).Nodup := by
  induction i using h.descend hrank with
  | step i ih =>
      rw [List.nodup_cons]
      constructor
      · intro hmem
        exact lt_irrefl _ (h.rank_lt_of_mem_descendants hrank hmem)
      · rw [h.descendants_eq hrank i, List.nodup_flatMap]
        refine ⟨ih, ?_⟩
        refine (h.nodup_children i).pairwise_of_forall_ne ?_
        intro c hc d hd hne j hjc hjd
        exact hne (h.branch_unique hrank hc hd (List.mem_cons.mp hjc) (List.mem_cons.mp hjd))

theorem descendants_lt (h : f.Linked) (hrank : f.Ranked rank) (hj : j ∈ f.descendants i) :
    j < f.size := by
  obtain ⟨p, hp, -⟩ := (h.mem_descendants_iff_parent? hrank).mp hj
  exact lt_size_of_parent? hp

end Linked

/-! ## First occurrences -/

theorem firstOccurrences_eq_self {is : List Nat} (h : is.Nodup) : firstOccurrences is = is := by
  induction is with
  | nil => rfl
  | cons i is ih =>
      rw [List.nodup_cons] at h
      rw [firstOccurrences, ih h.2]
      congr 1
      rw [List.filter_eq_self]
      intro j hj
      have hne : j ≠ i := fun heq => h.1 (heq ▸ hj)
      simpa using hne

end Forest
end CodeAtlas
