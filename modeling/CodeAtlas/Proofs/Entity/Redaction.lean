import CodeAtlas.Proofs.Entity.Location
import CodeAtlas.Proofs.Sorting
import CodeAtlas.Proofs.Text.Rows

/-!
# Redacted texts

In a text of an entity the visible bodies of the definitions inside are replaced by placeholders,
one definition after the other.  Whatever places the definitions claim to have, nothing else
changes: the text is cut into stretches that stay and bodies that are replaced, in the order of the
definitions.  A placeholder with as many row ends as the body then leaves every row of the text in
its place.
-/

namespace CodeAtlas

/-- A stretch of a text that stays, and the visible body of a definition behind it that does not. -/
structure Patch where
  kept : List Char
  child : Entity
  target : String

namespace Patch

/-- The stretch with the body behind it. -/
def original (p : Patch) : List Char := p.kept ++ p.target.toList

/-- The stretch with a placeholder behind it. -/
def replaced (placeholder : Entity → String → String) (p : Patch) : List Char :=
  p.kept ++ (placeholder p.child p.target).toList

end Patch

namespace Entity

variable {e child : Entity} {placeholder : Entity → String → String} {children : List Entity}
  {text result : List Char}

/-! ## The order of the definitions -/

theorem inSourceOrder_perm (children : List Entity) : (inSourceOrder children).Perm children :=
  List.mergeSort_perm _ _

/-- What replacing the bodies of definitions may make of a text.  A definition is passed over if it
has no visible body, or if that body stands nowhere in the rest of the text. -/
inductive Redaction (e : Entity) (placeholder : Entity → String → String) :
    List Entity → List Char → List Char → Prop
  | nil (text : List Char) : Redaction e placeholder [] text text
  | blank {child : Entity} {others : List Entity} {text result : List Char}
      (hbody : child.visibleBody? = none) (hothers : Redaction e placeholder others text result) :
      Redaction e placeholder (child :: others) text result
  | absent {child : Entity} {others : List Entity} {target : String} {text result : List Char}
      (hbody : child.visibleBody? = some target) (habsent : ¬ target.toList <:+: text)
      (hothers : Redaction e placeholder others text result) :
      Redaction e placeholder (child :: others) text result
  | keep {child : Entity} {others : List Entity} {target : String}
      {skipped after result : List Char}
      (hbody : child.visibleBody? = some target) (hkeep : e.keepsBodyOf child = true)
      (hothers : Redaction e placeholder others after result) :
      Redaction e placeholder (child :: others) (skipped ++ (target.toList ++ after))
        (skipped ++ (target.toList ++ result))
  | replace {child : Entity} {others : List Entity} {target : String}
      {skipped after result : List Char}
      (hbody : child.visibleBody? = some target) (hreplace : e.keepsBodyOf child = false)
      (hothers : Redaction e placeholder others after result) :
      Redaction e placeholder (child :: others) (skipped ++ (target.toList ++ after))
        (skipped ++ ((placeholder child target).toList ++ result))

theorem redactFrom_cons_of_visibleBody?_eq_none {others : List Entity} {done : List Char}
    (hbody : child.visibleBody? = none) :
    e.redactFrom placeholder (child :: others) done text =
      e.redactFrom placeholder others done text := by
  rw [redactFrom, hbody]

theorem redactFrom_cons_of_locate? {others : List Entity} {target : String}
    {done skipped after : List Char} (hbody : child.visibleBody? = some target)
    (hlocate : e.locate? child target done text = some (skipped, after)) :
    e.redactFrom placeholder (child :: others) done text =
      e.redactFrom placeholder others
        (done ++ skipped ++
          (if e.keepsBodyOf child then target else placeholder child target).toList) after := by
  simp only [redactFrom, hbody, hlocate]

theorem exists_redactFrom_eq (e : Entity) (placeholder : Entity → String → String)
    (children : List Entity) (done text : List Char) :
    ∃ result, e.redactFrom placeholder children done text = done ++ result ∧
      e.Redaction placeholder children text result := by
  induction children generalizing done text with
  | nil => exact ⟨text, rfl, .nil text⟩
  | cons child others ih =>
      rw [redactFrom]
      split
      next hbody =>
        obtain ⟨result, hresult, hothers⟩ := ih done text
        exact ⟨result, hresult, .blank hbody hothers⟩
      next target hbody =>
        split
        next hlocate =>
          obtain ⟨result, hresult, hothers⟩ := ih done text
          exact ⟨result, hresult, .absent hbody (not_infix_of_locate? hlocate) hothers⟩
        next skipped after hlocate =>
          obtain rfl := eq_append_of_locate? hlocate
          cases hkeep : e.keepsBodyOf child with
          | true =>
              obtain ⟨result, hresult, hothers⟩ := ih (done ++ skipped ++ target.toList) after
              refine ⟨skipped ++ (target.toList ++ result), ?_, .keep hbody hkeep hothers⟩
              rw [if_pos rfl, hresult, List.append_assoc, List.append_assoc]
          | false =>
              obtain ⟨result, hresult, hothers⟩ :=
                ih (done ++ skipped ++ (placeholder child target).toList) after
              refine ⟨_, ?_, .replace hbody hkeep hothers⟩
              rw [if_neg Bool.false_ne_true, hresult, List.append_assoc, List.append_assoc]

theorem redaction_redact (e : Entity) (placeholder : Entity → String → String) (text : String)
    (children : List Entity) :
    e.Redaction placeholder (inSourceOrder children) text.toList
      (e.redact placeholder text children).toList := by
  obtain ⟨result, hresult, hredaction⟩ :=
    exists_redactFrom_eq e placeholder (inSourceOrder children) [] text.toList
  rw [redact, String.toList_ofList, hresult]
  exact hredaction

namespace Redaction

/-- Placeholders with as many row ends as the bodies keep the number of rows. -/
theorem count_newline (h : e.Redaction placeholder children text result)
    (hrows : ∀ owner target, Text.rowEnds (placeholder owner target) = Text.rowEnds target) :
    result.count '\n' = text.count '\n' := by
  induction h with
  | nil text => rfl
  | blank _ _ ih => exact ih
  | absent _ _ _ ih => exact ih
  | keep _ _ _ ih => simp only [List.count_append, ih]
  | @replace child _ target _ _ _ _ _ _ ih =>
      have htarget := hrows child target
      rw [Text.rowEnds, Text.rowEnds] at htarget
      simp only [List.count_append, ih, htarget]

end Redaction

theorem rowEnds_rowPlaceholder (e owner : Entity) (target : String) :
    Text.rowEnds (e.rowPlaceholder owner target) = Text.rowEnds target := by
  have hrows : Text.rowEnds (Text.repeated "\n" (Text.rowEnds target)) = Text.rowEnds target := by
    rw [Text.rowEnds_repeated]
    exact Nat.mul_one _
  rw [rowPlaceholder]
  split
  · rw [Text.rowEnds_append, Text.rowEnds_append, hrows]
    exact Nat.zero_add _
  · split
    · rw [Text.rowEnds_append, Text.rowEnds_append, hrows, Text.rowEnds_spaces]
      rfl
    · rw [Text.rowEnds_append, hrows]
      rfl

/-- The text that is analysed has the rows of the own text. -/
theorem rowEnds_analysisText (e : Entity) (children : List Entity) :
    Text.rowEnds (e.analysisText children) = Text.rowEnds e.source := by
  cases children with
  | nil => rfl
  | cons child others =>
      exact (redaction_redact e e.rowPlaceholder e.source (child :: others)).count_newline
        e.rowEnds_rowPlaceholder

/-- The entity with nothing but what its texts depend on: without ids, links and imports. -/
def textual (e : Entity) : Entity :=
  { e with id := "", imports := [], parent := none, children := [], inDegree := 0, outDegree := 0 }

section Textual

variable (e : Entity)

theorem redactFrom_textual {put put' : Entity → String → String}
    (hput : ∀ child target, put' child.textual target = put child target) (children : List Entity)
    (done rest : List Char) :
    e.textual.redactFrom put' (children.map textual) done rest =
      e.redactFrom put children done rest := by
  induction children generalizing done rest with
  | nil => rfl
  | cons child children ih =>
      have hbody : child.textual.visibleBody? = child.visibleBody? := rfl
      have hlocate : ∀ target, e.textual.locate? child.textual target done rest =
          e.locate? child target done rest := fun _ => rfl
      have hkeeps : e.textual.keepsBodyOf child.textual = e.keepsBodyOf child := rfl
      simp only [List.map_cons, redactFrom, hbody, hlocate, hkeeps, hput, ih]

theorem redact_textual {put put' : Entity → String → String}
    (hput : ∀ child target, put' child.textual target = put child target) (text : String)
    (children : List Entity) :
    e.textual.redact put' text (children.map textual) = e.redact put text children := by
  have hsort : inSourceOrder (children.map textual) = (inSourceOrder children).map textual := by
    rw [inSourceOrder, inSourceOrder, List.map_mergeSort]
    exact fun _ _ _ _ => rfl
  rw [redact, redact, hsort, redactFrom_textual e hput]

theorem codeWithoutBody_textual (children : List Entity) :
    e.textual.codeWithoutBody (children.map textual) = e.codeWithoutBody children := by
  cases children with
  | nil => rfl
  | cons child children =>
      exact congrArg Text.trim (e.redact_textual (fun _ _ => rfl) e.code (child :: children))

theorem analysisText_textual (children : List Entity) :
    e.textual.analysisText (children.map textual) = e.analysisText children := by
  cases children with
  | nil => rfl
  | cons child children => exact e.redact_textual (fun _ _ => rfl) e.source (child :: children)

end Textual

end Entity
end CodeAtlas
