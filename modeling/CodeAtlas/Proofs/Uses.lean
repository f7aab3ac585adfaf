import CodeAtlas.Proofs.Entity.Redaction
import CodeAtlas.Proofs.Names
import CodeAtlas.Uses

/-!
# Reported uses

A use of an entity is reported because a token of a capture in the prepared text of another one
resolves to it.  Its line lies as far below the start of the entity as the capture lies below the
start of the text.
-/

namespace CodeAtlas
namespace Uses

variable {P : String → Nat → Prop} {t : Table (List Nat)}

/-! ## Lines -/

theorem mem_insertLine {line other : Nat} {lines : List Nat} :
    other ∈ insertLine line lines ↔ other = line ∨ other ∈ lines := by
  induction lines with
  | nil => simp [insertLine]
  | cons l lines ih =>
      rw [insertLine]
      split
      · next heq => simp [heq]
      · split
        · simp
        · rw [List.mem_cons, ih, List.mem_cons, or_left_comm]

theorem pairwise_insertLine {line : Nat} {lines : List Nat} (h : lines.Pairwise (· < ·)) :
    (insertLine line lines).Pairwise (· < ·) := by
  induction lines with
  | nil => exact List.pairwise_singleton _ line
  | cons l lines ih =>
      obtain ⟨hfirst, hrest⟩ := List.pairwise_cons.mp h
      rw [insertLine]
      split
      next => exact h
      next hne =>
        split
        next hlt =>
          refine List.pairwise_cons.mpr ⟨List.forall_mem_cons.mpr ⟨hlt, ?_⟩, h⟩
          exact fun other hother => hlt.trans (hfirst other hother)
        next hle =>
          refine List.pairwise_cons.mpr ⟨?_, ih hrest⟩
          intro other hother
          rcases mem_insertLine.mp hother with rfl | hother
          · omega
          · exact hfirst other hother

/-- Every target in the table has lines, and each of them a property. -/
def ReportsHave (P : String → Nat → Prop) (t : Table (List Nat)) : Prop :=
  ∀ use ∈ t.entries, use.2 ≠ [] ∧ ∀ line ∈ use.2, P use.1 line

theorem ReportsHave.addLine (h : ReportsHave P t) {target : String} {line : Nat}
    (hline : P target line) : ReportsHave P (addLine t target line) := by
  intro use huse
  rcases Table.mem_entries_insert huse with rfl | huse
  · refine ⟨List.ne_nil_of_mem (mem_insertLine.mpr (Or.inl rfl)), ?_⟩
    intro other hother
    rcases mem_insertLine.mp hother with rfl | hother
    · exact hline
    · cases hfind : t.find? target with
      | none =>
          rw [hfind] at hother
          exact absurd hother (by simp)
      | some known =>
          rw [hfind] at hother
          exact (h _ (Table.mem_entries_of_find? hfind)).2 other hother
  · exact h use huse

/-! ## Reading uses -/

/-- What holds of the empty table and is kept by every line that is added holds of the uses that
captures give. -/
theorem ofCaptures_induction {motive : Table (List Nat) → Prop} (s : Scope) (e : Entity)
    (captures : List Capture) (empty : motive .empty)
    (addLine : ∀ t, motive t → ∀ c ∈ captures, ∀ token ∈ tokens c, ∀ target,
      s.names.resolve? token = some target → target ≠ e.id →
      motive (addLine t target (e.span.start.row + c.span.start.row + 1))) :
    motive (ofCaptures s e captures) := by
  refine List.foldlRecOn (motive := motive) captures _ empty ?_
  intro t ht c hc
  refine List.foldlRecOn (motive := motive) (tokens c) _ ht ?_
  intro u hu token htoken
  rw [addToken]
  split
  · next target htarget =>
    split
    · exact hu
    · next hne => exact addLine u hu c hc token htoken target htarget (by simpa using hne)
  · exact hu

/-- Every reported use comes from a token that resolves to its target, and from its row. -/
theorem reportsHave_ofCaptures (s : Scope) (e : Entity) (captures : List Capture) :
    ReportsHave (fun target line => ∃ c ∈ captures,
        line = e.span.start.row + c.span.start.row + 1 ∧
          ∃ token ∈ tokens c, s.names.resolve? token = some target)
      (ofCaptures s e captures) := by
  refine ofCaptures_induction (motive := ReportsHave _) s e captures ?_ ?_
  · exact fun use huse => absurd huse (by simp [Table.empty])
  · intro t ht c hc token htoken target htarget _
    exact ht.addLine ⟨c, hc, rfl, token, htoken, htarget⟩

/-- Every target of reported uses is what some token stands for. -/
theorem target_of_mem {s : Scope} {e : Entity} {captures : List Capture} {target : String}
    {P : String → Prop} (hnames : s.names.StandFor P)
    (h : target ∈ (ofCaptures s e captures).keys) : P target := by
  obtain ⟨use, huse, rfl⟩ := List.mem_map.mp h
  obtain ⟨hne, hlines⟩ := reportsHave_ofCaptures s e captures use huse
  obtain ⟨line, hline⟩ := List.exists_mem_of_ne_nil use.2 hne
  obtain ⟨c, -, -, token, -, htarget⟩ := hlines line hline
  exact hnames.resolve? htarget

theorem pairwise_ofCaptures (s : Scope) (e : Entity) (captures : List Capture) :
    ∀ use ∈ (ofCaptures s e captures).entries, use.2.Pairwise (· < ·) := by
  refine ofCaptures_induction
    (motive := fun t => ∀ use ∈ t.entries, use.2.Pairwise (· < ·)) s e captures ?_ ?_
  · exact fun use huse => absurd huse (by simp [Table.empty])
  · intro t ht c _ _ _ target _ _ use huse
    rcases Table.mem_entries_insert huse with rfl | huse
    · apply pairwise_insertLine
      cases hfind : t.find? target with
      | none => exact List.Pairwise.nil
      | some known => exact ht _ (Table.mem_entries_of_find? hfind)
    · exact ht use huse

theorem ordered_ofCaptures (s : Scope) (e : Entity) (captures : List Capture) :
    (ofCaptures s e captures).Ordered := by
  refine ofCaptures_induction (motive := Table.Ordered) s e captures .empty ?_
  exact fun t ht c _ _ _ target _ _ => ht.insert target _

/-! ## Prepared texts -/

/-- The text in which uses are looked for shows no ids, links and imports of entities. -/
theorem prepare_of_textual {v : Entity → Entity} (hv : ∀ e, (v e).textual = e.textual) (s : Scope)
    (e : Entity) (children : List Entity) (parent : Option Entity) :
    prepare s (v e) (children.map v) (parent.map v) = prepare s e children parent := by
  have hview : ∀ {α : Type} (view : Entity → α) (d : Entity),
      view (v d).textual = view d.textual := fun view d => congrArg view (hv d)
  have hkind : ∀ d, (v d).kind = d.kind := hview (·.kind)
  have hname : ∀ d, (v d).name = d.name := hview (·.name)
  have htext : (v e).analysisText (children.map v) = e.analysisText children := by
    rw [← Entity.analysisText_textual, ← e.analysisText_textual, List.map_map, hv,
      show Entity.textual ∘ v = Entity.textual from funext hv]
  rw [prepare, prepare, htext, hkind]
  congr 1
  unfold replaceSelf
  cases parent with
  | none => rfl
  | some owner =>
      cases s.language.selfWord? with
      | none => rfl
      | some word => simp only [Option.map_some, hkind, hname]

/-- A text that assigns nothing is looked through as it is prepared. -/
theorem find_of_windows_eq_nil {s : Scope} {e : Entity} {children : List Entity}
    {parent : Option Entity} {text : String} (htext : prepare s e children parent = text)
    (hnone : windows s.language text = []) :
    find s e children parent =
      ofCaptures s e (Capture.all (Syntax.parse s.language text) .uses).flatten := by
  have hsame : analysed s e children parent = text := by
    rw [analysed, htext, hnone, applyWindows, List.filter_nil, List.mergeSort_nil]
  rw [find, hsame]

end Uses
end CodeAtlas
