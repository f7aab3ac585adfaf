import CodeAtlas.Entity
import CodeAtlas.Proofs.Text.Bytes

/-!
# Where a body stands

The visible body of a definition is the end of its body.  In a text of an entity it is looked for at
the byte where its place in the file puts it, and otherwise at the first place behind what was
passed already.  Whichever of the two finds it, the text is divided into what stands before and
after it, and a body that is not found stands nowhere in the rest of the text.
-/

namespace CodeAtlas
namespace Entity

variable {e owner : Entity} {target : String} {before rest skipped after : List Char}

theorem exists_append_dropBeginning? (beginning text : String) :
    ∃ skipped,
      text.toList = skipped ++ ((Text.dropBeginning? beginning text).getD text).toList := by
  rw [Text.dropBeginning?]
  split
  · rw [Option.getD_some, String.toList_ofList]
    exact ⟨_, (List.take_append_drop _ _).symm⟩
  · exact ⟨[], rfl⟩

/-- The visible body is the end of the body. -/
theorem exists_body_eq {e : Entity} {target : String} (h : e.visibleBody? = some target) :
    e.body ≠ "" ∧ ∃ skipped, e.body.toList = skipped ++ target.toList := by
  simp only [visibleBody?, Option.ite_none_left_eq_some, Option.some.injEq] at h
  obtain ⟨hblank, htarget⟩ := h
  have hskipped : ∃ skipped, e.body.toList = skipped ++ target.toList := by
    rw [← htarget]
    split
    · exact ⟨[], rfl⟩
    · exact exists_append_dropBeginning? e.documentation e.body
  refine ⟨?_, hskipped⟩
  intro hempty
  obtain ⟨skipped, hbody⟩ := hskipped
  rw [hempty] at hbody
  have hnil : target.toList = [] := (List.append_eq_nil_iff.mp hbody.symm).2
  rw [htarget, Text.isBlankText, hnil] at hblank
  exact hblank rfl

/-- The byte of the file at which the visible body of the definition starts. -/
def visibleStart (e : Entity) (target : String) : Nat :=
  e.bodyStart + (Text.size e.body - Text.size target)

/-! ## Looking for a body -/

/-- The offset in a text is as far from its end as the place in the file is from the end of the
source. -/
theorem expectedOffset?_eq_some {size offset : Nat} (hstart : e.span.startByte ≤ owner.bodyStart)
    (hoffset : e.span.startByte + Text.size e.source + offset = owner.visibleStart target + size) :
    e.expectedOffset? owner target size = some offset := by
  rw [visibleStart] at hoffset
  simp only [expectedOffset?]
  rw [if_neg (by omega), if_pos (by omega)]
  congr 1
  omega

/-- A body that stands at its expected offset is found there. -/
theorem locate?_of_expectedOffset? (hrest : rest = skipped ++ (target.toList ++ after))
    (hoffset : e.expectedOffset? owner target (Text.byteLength before + Text.byteLength rest) =
      some (Text.byteLength before + Text.byteLength skipped)) :
    e.locate? owner target before rest = some (skipped, after) := by
  have hcut : Text.cutAt?
      (Text.byteLength before + Text.byteLength skipped - Text.byteLength before) rest =
        some (skipped, target.toList ++ after) := by
    rw [hrest, Nat.add_sub_cancel_left]
    exact Text.cutAt?_append _ _
  simp only [locate?, hoffset, Option.bind_eq_bind, Option.bind_some, hcut,
    Text.stripPrefix?_append]
  rw [if_neg (by omega)]

theorem eq_append_of_locate? (h : e.locate? owner target before rest = some (skipped, after)) :
    rest = skipped ++ (target.toList ++ after) := by
  simp only [locate?] at h
  split at h
  next p hexact =>
    obtain rfl := Option.some.inj h
    obtain ⟨offset, -, hfound⟩ := Option.bind_eq_some_iff.mp hexact
    split at hfound
    · exact absurd hfound (by simp)
    · obtain ⟨q, hcut, hstrip⟩ := Option.bind_eq_some_iff.mp hfound
      obtain ⟨after', hafter, heq⟩ := Option.bind_eq_some_iff.mp hstrip
      obtain ⟨rfl, rfl⟩ := Prod.mk.inj (Option.some.inj heq)
      rw [(Text.eq_append_of_cutAt? hcut).1, Text.eq_append_of_stripPrefix? hafter]
  next => exact Text.eq_append_of_splitFirst? h

theorem not_infix_of_locate? (h : e.locate? owner target before rest = none) :
    ¬ target.toList <:+: rest := by
  simp only [locate?] at h
  split at h
  · exact absurd h (by simp)
  · exact Text.not_infix_of_splitFirst? h

end Entity
end CodeAtlas
