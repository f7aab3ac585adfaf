import CodeAtlas.Proofs.Sorting
import CodeAtlas.Proofs.Uses.Windows

/-!
# The assignment that owns a row

On every row a variable means what the latest assignment to it says, be it one that comes down to a
name or not.  The windows of the assignments say the same: a row is covered by a window of the
variable when some assignment to it starts on the row or above, by one window only, and this is the
window of the last such assignment in source order.  Assignments on one row do not disturb this,
since all of them but the last have windows without rows.
-/

namespace CodeAtlas
namespace Uses

variable {order : List Assignment} {p : Assignment → Prop} {x : String} {row i : Nat}

/-- The match captures both sides of an assignment. -/
def hasSides (captures : List Capture) : Bool :=
  captures.any (·.label == "left") && captures.any (·.label == "right")

/-- The match is the assignment.  A right side that does not come down to another name makes it an
assignment of something unknown. -/
structure Assigns (captures : List Capture) (a : Assignment) : Prop where
  left : (captures.find? (·.label == "left")).map (·.text) = some a.left
  right : a.right = ((captures.find? (·.label == "right")).bind (plainName? ·.text)).filter
    (· != a.left)
  row : (anchor? captures).map (·.span.start.row) = some a.row
  offset : (anchor? captures).map (·.span.startByte) = some a.offset

/-- The assignments stand by their offsets, and as they were found where these are equal. -/
structure InSourceOrder (found order : List Assignment) : Prop where
  perm : order.Perm found
  sorted : order.Pairwise fun a b => a.offset ≤ b.offset
  stable : ∀ offset, order.filter (·.offset == offset) = found.filter (·.offset == offset)

/-- The assignment at an index is the last one with a property. -/
structure IsLastAt (order : List Assignment) (p : Assignment → Prop) (i : Nat) : Prop where
  holds : ∃ a, order[i]? = some a ∧ p a
  last : ∀ j a, i < j → order[j]? = some a → ¬ p a

/-- The windows belong to the assignments one by one, and a row belongs to the latest assignment. -/
structure LatestOwns (order : List Assignment) (ws : List Window) : Prop where
  each : List.Forall₂ (fun a w => w.left = a.left ∧ w.right = a.right ∧ w.start = a.row) order ws
  covered : ∀ x row, (∃ w ∈ ws, w.left = x ∧ w.covers row = true) ↔
    ∃ a ∈ order, a.left = x ∧ a.row ≤ row
  unique : ∀ (x : String) (row i j : Nat) (v w : Window),
    ws[i]? = some v → v.left = x → v.covers row = true →
    ws[j]? = some w → w.left = x → w.covers row = true → i = j
  latest : ∀ (x : String) (row i : Nat) (w : Window),
    ws[i]? = some w → w.left = x → w.covers row = true →
    IsLastAt order (fun a => a.left = x ∧ a.row ≤ row) i

/-- The windows are those of the matches with both sides, in source order, and on every row the
latest of them counts. -/
def OwnRows (found : List (List Capture)) (ws : List Window) : Prop :=
  ∃ listed order, List.Forall₂ Assigns (found.filter hasSides) listed ∧
    InSourceOrder listed order ∧ LatestOwns order ws

/-! ## The assignments of matches -/

theorem assignmentOf?_cases (captures : List Capture) :
    (hasSides captures = false ∧ assignmentOf? captures = none) ∨
      hasSides captures = true ∧ ∃ a, assignmentOf? captures = some a ∧ Assigns captures a := by
  rw [assignmentOf?, hasSides, ← List.isSome_find?, ← List.isSome_find?]
  cases hleft : captures.find? (·.label == "left") with
  | none => exact Or.inl ⟨rfl, rfl⟩
  | some left =>
      cases hright : captures.find? (·.label == "right") with
      | none => exact Or.inl ⟨rfl, rfl⟩
      | some right =>
          refine Or.inr ⟨rfl, _, rfl, ?_⟩
          have hanchor := anchor?_eq_some hleft
          exact ⟨by rw [hleft]; rfl, by rw [hright]; rfl, by rw [hanchor]; rfl,
            by rw [hanchor]; rfl⟩

/-- Every match with both sides is an assignment, and no other match is. -/
theorem forall₂_assigns (found : List (List Capture)) :
    List.Forall₂ Assigns (found.filter hasSides) (found.filterMap assignmentOf?) := by
  induction found with
  | nil => exact .nil
  | cons captures found ih =>
      rcases assignmentOf?_cases captures with ⟨hsides, hnone⟩ | ⟨hsides, a, ha, hassigns⟩
      · rwa [List.filter_cons_of_neg (by simp [hsides]), List.filterMap_cons_none hnone]
      · rw [List.filter_cons_of_pos hsides, List.filterMap_cons_some ha]
        exact .cons hassigns ih

/-! ## The last assignment -/

theorem isLastAt_zero {a : Assignment} (ha : p a) (hlater : ∀ b ∈ order, ¬ p b) :
    IsLastAt (a :: order) p 0 := by
  refine ⟨⟨a, rfl, ha⟩, ?_⟩
  intro j b hj hb
  obtain ⟨j, rfl⟩ := Nat.exists_eq_succ_of_ne_zero (Nat.ne_of_gt hj)
  exact hlater b (List.mem_of_getElem? hb)

theorem IsLastAt.succ (h : IsLastAt order p i) (a : Assignment) :
    IsLastAt (a :: order) p (i + 1) := by
  refine ⟨h.holds, ?_⟩
  intro j b hj hb
  obtain ⟨j, rfl⟩ := Nat.exists_eq_succ_of_ne_zero (Nat.ne_zero_of_lt hj)
  exact h.last j b (Nat.lt_of_succ_lt_succ hj) hb

theorem exists_isLastAt (h : ∃ a ∈ order, p a) : ∃ i, IsLastAt order p i := by
  induction order with
  | nil =>
      obtain ⟨a, ha, -⟩ := h
      exact absurd ha (by simp)
  | cons b order ih =>
      by_cases hlater : ∃ a ∈ order, p a
      · obtain ⟨i, hi⟩ := ih hlater
        exact ⟨i + 1, hi.succ b⟩
      · obtain ⟨a, ha, hpa⟩ := h
        push Not at hlater
        rcases List.mem_cons.mp ha with rfl | ha
        · exact ⟨0, isLastAt_zero hpa hlater⟩
        · exact absurd hpa (hlater a ha)

theorem IsLastAt.unique {j : Nat} (hi : IsLastAt order p i) (hj : IsLastAt order p j) : i = j := by
  obtain ⟨a, ha, hpa⟩ := hi.holds
  obtain ⟨b, hb, hpb⟩ := hj.holds
  rcases Nat.lt_trichotomy i j with hlt | heq | hgt
  · exact absurd hpb (hi.last j b hlt hb)
  · exact heq
  · exact absurd hpa (hj.last i a hgt ha)

namespace Window

/-! ## Windows in source order -/

theorem getElem?_ended (order : List Assignment) (i : Nat) :
    (ended order)[i]? =
      order[i]?.map fun a => endedBy ⟨a.left, a.right, a.row, none⟩ (order.drop (i + 1)) := by
  induction order generalizing i with
  | nil => rfl
  | cons a order ih =>
      cases i with
      | zero => rfl
      | succ i => rw [ended, List.getElem?_cons_succ, ih]; rfl

/-- A window covers a row exactly if its assignment is the last one before the end of the row. -/
theorem covers_iff_isLastAt :
    (∃ w, (ended order)[i]? = some w ∧ w.left = x ∧ w.covers row = true) ↔
      IsLastAt order (fun a => a.left = x ∧ a.row ≤ row) i := by
  rw [getElem?_ended]
  constructor
  · rintro ⟨w, hw, hleft, hcovers⟩
    obtain ⟨a, ha, rfl⟩ := Option.map_eq_some_iff.mp hw
    obtain ⟨hleft', -, -, hrows⟩ :=
      endedBy_spec (k := row) ⟨a.left, a.right, a.row, none⟩ (order.drop (i + 1))
    obtain ⟨hstart, hlater⟩ := hrows.mp hcovers
    have hx : a.left = x := hleft'.symm.trans hleft
    refine ⟨⟨a, ha, hx, by simpa [covers] using hstart⟩, ?_⟩
    rintro j b hj hb ⟨hbx, hbrow⟩
    have hmem : b ∈ order.drop (i + 1) := by
      apply List.mem_of_getElem? (i := j - (i + 1))
      rw [List.getElem?_drop, Nat.add_sub_cancel' hj, hb]
    exact Nat.not_lt_of_le hbrow (hlater b hmem (hbx.trans hx.symm))
  · rintro ⟨⟨a, ha, hx, hrow⟩, hlast⟩
    obtain ⟨hleft, -, -, hrows⟩ :=
      endedBy_spec (k := row) ⟨a.left, a.right, a.row, none⟩ (order.drop (i + 1))
    refine ⟨_, Option.map_eq_some_iff.mpr ⟨a, ha, rfl⟩, hleft.trans hx, hrows.mpr ⟨?_, ?_⟩⟩
    · simpa [covers] using hrow
    · intro b hb hbx
      obtain ⟨j, hj⟩ := List.getElem?_of_mem hb
      rw [List.getElem?_drop] at hj
      have hnot := hlast (i + 1 + j) b (by omega) hj
      by_contra hbrow
      exact hnot ⟨hbx.trans hx, Nat.le_of_not_lt hbrow⟩

theorem forall₂_ended (order : List Assignment) :
    List.Forall₂ (fun a w => w.left = a.left ∧ w.right = a.right ∧ w.start = a.row) order
      (ended order) := by
  induction order with
  | nil => exact .nil
  | cons a order ih =>
      obtain ⟨hleft, hright, hstart, -⟩ :=
        endedBy_spec (k := 0) ⟨a.left, a.right, a.row, none⟩ order
      exact .cons ⟨hleft, hright, hstart⟩ ih

theorem latestOwns_ended (order : List Assignment) : LatestOwns order (ended order) := by
  refine ⟨forall₂_ended order, ?_, ?_, ?_⟩
  · intro x row
    constructor
    · rintro ⟨w, hw, hleft, hcovers⟩
      obtain ⟨i, hi⟩ := List.getElem?_of_mem hw
      obtain ⟨a, ha, hpa⟩ := (covers_iff_isLastAt.mp ⟨w, hi, hleft, hcovers⟩).holds
      exact ⟨a, List.mem_of_getElem? ha, hpa⟩
    · intro h
      obtain ⟨i, hi⟩ := exists_isLastAt h
      obtain ⟨w, hw, hcovers⟩ := covers_iff_isLastAt.mpr hi
      exact ⟨w, List.mem_of_getElem? hw, hcovers⟩
  · intro x row i j v w hv hvleft hvcovers hw hwleft hwcovers
    have hi := covers_iff_isLastAt.mp ⟨v, hv, hvleft, hvcovers⟩
    exact hi.unique (covers_iff_isLastAt.mp ⟨w, hw, hwleft, hwcovers⟩)
  · intro x row i w hw hleft hcovers
    exact covers_iff_isLastAt.mp ⟨w, hw, hleft, hcovers⟩

end Window

theorem inSourceOrder_mergeSort (found : List Assignment) :
    InSourceOrder found (found.mergeSort fun a b => a.offset ≤ b.offset) := by
  refine ⟨List.mergeSort_perm _ _, ?_, fun offset => ?_⟩
  · have hsorted := List.pairwise_mergeSort (Sorting.key_trans Assignment.offset)
      (Sorting.key_total Assignment.offset) found
    exact hsorted.imp of_decide_eq_true
  · exact Sorting.filter_mergeSort_key Assignment.offset offset found

/-- On every row the latest assignment to a variable counts: in every list of matches, and so in
every text, whatever is assigned and however many assignments share a row. -/
theorem latestOwns_windows :
    (∀ found, OwnRows found (Window.ofAssignments (found.filterMap assignmentOf?))) ∧
      ∀ language text, OwnRows (Capture.all (Syntax.parse language text) .assignments)
        (windows language text) := by
  have hmatches (found : List (List Capture)) :
      OwnRows found (Window.ofAssignments (found.filterMap assignmentOf?)) := by
    refine ⟨_, _, forall₂_assigns found, inSourceOrder_mergeSort _, ?_⟩
    rw [Window.ofAssignments_eq]
    exact Window.latestOwns_ended _
  exact ⟨hmatches, fun language text => hmatches _⟩

end Uses
end CodeAtlas
