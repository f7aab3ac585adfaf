import CodeAtlas.Proofs.Text.Members
import CodeAtlas.Proofs.Text.Rows
import CodeAtlas.Uses.Window
import Mathlib.Data.List.Pairwise

/-!
# Windows of assignments

The window of an assignment is ended by the assignments behind it, so the windows of a list of
assignments can be read off the list from its end.  They are applied in the same direction: the
later windows first, each on the rows that it covers.
-/

namespace CodeAtlas

namespace Uses

/-! ## Right-hand sides -/

theorem outside?_of_not_mem {cs : List Char} (h : '(' ∉ cs) : outside? 0 cs = some cs := by
  induction cs with
  | nil => rfl
  | cons c cs ih =>
      rw [List.mem_cons, not_or] at h
      rw [outside?, ih h.2]
      · rfl
      · exact fun hc => h.1 hc.symm

/-- The capture that says where the assignment of a match stands. -/
def anchor? (captures : List Capture) : Option Capture :=
  (captures.find? (·.label == "assignment")).or (captures.find? (·.label == "left"))

theorem anchor?_eq_some {captures : List Capture} {left : Capture}
    (h : captures.find? (·.label == "left") = some left) :
    anchor? captures = some ((captures.find? (·.label == "assignment")).getD left) := by
  rw [anchor?, h, Option.or_some]

namespace Window

variable {w : Window} {k : Nat}

/-! ## Windows from the end -/

/-- A window as the assignments behind it end it. -/
def endedBy (w : Window) (later : List Assignment) : Window :=
  later.foldl (fun w a => if w.left = a.left then w.endAt a.row else w) w

/-- The windows of assignments, each ended by those behind it. -/
def ended : List Assignment → List Window
  | [] => []
  | a :: later => endedBy ⟨a.left, a.right, a.row, none⟩ later :: ended later

theorem foldl_add (found : List Assignment) (done : List Window) :
    found.foldl add done = done.map (·.endedBy found) ++ ended found := by
  induction found generalizing done with
  | nil => simp [ended, endedBy]
  | cons a found ih =>
      rw [List.foldl_cons, ih, add, List.map_append, List.map_map, List.append_assoc]
      rfl

theorem covers_endAt (w : Window) (row : Nat) :
    (w.endAt row).covers k = true ↔ w.covers k = true ∧ k < row := by
  cases hstop : w.stop with
  | none => simp [endAt, covers, hstop]
  | some stop =>
      simp only [endAt, covers, hstop, Option.all_some, Bool.and_eq_true, decide_eq_true_eq,
        Nat.lt_min, and_assoc]

/-- Ending a window changes nothing but the rows that it covers. -/
theorem endedBy_spec (w : Window) (later : List Assignment) :
    (w.endedBy later).left = w.left ∧ (w.endedBy later).right = w.right ∧
      (w.endedBy later).start = w.start ∧
      ((w.endedBy later).covers k = true ↔
        w.covers k = true ∧ ∀ a ∈ later, a.left = w.left → k < a.row) := by
  induction later generalizing w with
  | nil => simp [endedBy]
  | cons a later ih =>
      rw [endedBy, List.foldl_cons]
      split
      next hsame =>
        obtain ⟨hleft, hright, hstart, hcovers⟩ := ih (w.endAt a.row)
        refine ⟨hleft, hright, hstart, hcovers.trans ?_⟩
        rw [covers_endAt, List.forall_mem_cons, and_assoc]
        simp [endAt, hsame]
      next hother =>
        obtain ⟨hleft, hright, hstart, hcovers⟩ := ih w
        refine ⟨hleft, hright, hstart, hcovers.trans ?_⟩
        rw [List.forall_mem_cons]
        simp [Ne.symm hother]

theorem ofAssignments_eq (found : List Assignment) :
    ofAssignments found = ended (found.mergeSort fun a b => a.offset ≤ b.offset) := by
  rw [ofAssignments, foldl_add]
  rfl

theorem exists_of_mem_ended {found : List Assignment} (h : w ∈ ended found) :
    ∃ a ∈ found, w.left = a.left ∧ w.right = a.right := by
  induction found with
  | nil => exact absurd h (by simp [ended])
  | cons a found ih =>
      rcases List.mem_cons.mp h with rfl | h
      · obtain ⟨hleft, hright, -⟩ := endedBy_spec (k := 0) ⟨a.left, a.right, a.row, none⟩ found
        exact ⟨a, List.mem_cons_self, hleft, hright⟩
      · obtain ⟨b, hb, hsame⟩ := ih h
        exact ⟨b, List.mem_cons_of_mem a hb, hsame⟩

/-! ## Applying windows row by row -/

/-- What a window makes of a row. -/
def replaceIn (k : Nat) (w : Window) (row : String) : String :=
  match w.right with
  | none => row
  | some right => if w.covers k then Text.replaceFreeWord w.left right row else row

end Window

variable {rows : List String} {ws : List Window} {k : Nat}

theorem applyWindow_eq (rows : List String) (w : Window) :
    applyWindow rows w = rows.mapIdx fun i row => w.replaceIn i row := by
  rw [applyWindow]
  cases hright : w.right with
  | none =>
      apply List.ext_getElem?
      intro i
      simp [Window.replaceIn, hright]
  | some right => simp [Window.replaceIn, hright]

theorem length_foldl_applyWindow (rows : List String) (ws : List Window) :
    (ws.foldl applyWindow rows).length = rows.length := by
  induction ws generalizing rows with
  | nil => rfl
  | cons w ws ih => rw [List.foldl_cons, ih, applyWindow_eq, List.length_mapIdx]

theorem foldl_applyWindow_ne_nil (hne : rows ≠ []) (ws : List Window) :
    ws.foldl applyWindow rows ≠ [] := by
  rw [← List.length_pos_iff, length_foldl_applyWindow]
  exact List.length_pos_iff.mpr hne

/-- Windows bring no row ends into rows. -/
theorem newline_not_mem_foldl_applyWindow
    (hws : ∀ w ∈ ws, ∀ right, w.right = some right → '\n' ∉ right.toList)
    (hrows : ∀ row ∈ rows, '\n' ∉ row.toList) :
    ∀ row ∈ ws.foldl applyWindow rows, '\n' ∉ row.toList := by
  induction ws generalizing rows with
  | nil => exact hrows
  | cons w ws ih =>
      rw [List.forall_mem_cons] at hws
      refine ih hws.2 ?_
      rw [applyWindow_eq]
      intro row hrow
      obtain ⟨i, hi, rfl⟩ := List.mem_mapIdx.mp hrow
      have hfree := hrows _ (List.getElem_mem hi)
      rw [Window.replaceIn]
      split
      next => exact hfree
      next right hright =>
        split
        next => exact Text.not_mem_replaceFreeWord (hws.1 right hright) hfree
        next => exact hfree

end Uses
end CodeAtlas
