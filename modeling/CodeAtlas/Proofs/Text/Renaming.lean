import CodeAtlas.Uses
import Mathlib.Data.List.Basic

/-!
# Renaming words

Replacing a word that stands nowhere in a text changes nothing, and replacing a text that is a word
of its own gives the replacement.  Renamings are carried out one after the other, so an alias ends
as the name it stands for when no other alias interferes: none that comes first may stand in the
alias, and none that comes later may stand in the name.
-/

namespace CodeAtlas
namespace Text

variable {word replacement cs : List Char} {keep : Option Char → Bool} {before : Option Char}

/-! ## Where a word stands -/

/-- The word stands as a whole somewhere in the characters, which follow `before`. -/
def standsFrom (word : List Char) : Option Char → List Char → Bool
  | _, [] => false
  | before, c :: rest =>
    (wordAtFront? word before (c :: rest)).isSome || standsFrom word (some c) rest

/-- The word stands as a whole somewhere in the text. -/
def stands (word text : String) : Bool := standsFrom word.toList none text.toList

theorem length_le_of_wordAtFront? (h : (wordAtFront? word before cs).isSome = true) :
    word.length ≤ cs.length := by
  rw [wordAtFront?] at h
  split at h
  next => exact absurd h (by simp)
  next hprefix => exact (List.isPrefixOf_iff_prefix.mp hprefix).length_le

theorem length_le_of_standsFrom (h : standsFrom word before cs = true) :
    word.length ≤ cs.length := by
  induction cs generalizing before with
  | nil => exact absurd h (by simp [standsFrom])
  | cons c cs ih =>
      rw [standsFrom, Bool.or_eq_true] at h
      rcases h with h | h
      · exact length_le_of_wordAtFront? h
      · exact Nat.le_succ_of_le (ih h)

/-! ## Replacing a word -/

theorem replaceWordFrom_of_not_standsFrom (h : standsFrom word before cs = false) :
    replaceWordFrom word replacement keep 0 before cs = cs := by
  induction cs generalizing before with
  | nil => rfl
  | cons c cs ih =>
      rw [standsFrom, Bool.or_eq_false_iff, Option.isSome_eq_false_iff,
        Option.isNone_iff_eq_none] at h
      rw [replaceWordFrom, h.1]
      exact congrArg (c :: ·) (ih h.2)

/-- A word that stands nowhere is replaced nowhere. -/
theorem replaceWord_of_not_stands {word text : String} (h : stands word text = false)
    (replacement : String) : replaceWord word replacement text = text := by
  rw [replaceWord]
  split
  · rfl
  · rw [replaceWordFrom_of_not_standsFrom h, String.ofList_toList]

theorem replaceWordFrom_skip (word replacement : List Char) (keep : Option Char → Bool)
    (before : Option Char) (cs : List Char) :
    replaceWordFrom word replacement keep cs.length before cs = [] := by
  induction cs generalizing before with
  | nil => rfl
  | cons c cs ih => exact ih (some c)

/-- A text that is a word of its own is replaced as a whole. -/
theorem replaceWord_self {word : String} (h : stands word word = true) (replacement : String) :
    replaceWord word replacement word = replacement := by
  rw [stands] at h
  rw [replaceWord]
  cases hword : word.toList with
  | nil =>
      rw [hword] at h
      exact absurd h (by simp [standsFrom])
  | cons c cs =>
      rw [hword, standsFrom, Bool.or_eq_true] at h
      -- behind its first character the text is too short to hold the word
      have hfront : (wordAtFront? (c :: cs) none (c :: cs)).isSome = true := by
        rcases h with h | h
        · exact h
        · exact absurd (length_le_of_standsFrom h) (by simp)
      obtain ⟨rest, hrest⟩ := Option.isSome_iff_exists.mp hfront
      have hnonempty : word.isEmpty = false := by
        rw [Bool.eq_false_iff, Ne, String.isEmpty_iff]
        rintro rfl
        exact absurd hword (by simp)
      rw [hnonempty, if_neg (by simp), replaceWordFrom, hrest]
      simp only [Bool.false_eq_true, if_false, List.length_cons, Nat.add_sub_cancel]
      rw [replaceWordFrom_skip, List.append_nil, String.ofList_toList]

/-! ## Renamings in a row -/

/-- The text after renamings, one after the other. -/
def renamed (renamings : List (String × String)) (text : String) : String :=
  renamings.foldl (fun t r => replaceWord r.1 r.2 t) text

theorem renamed_of_not_stands {renamings : List (String × String)} {text : String}
    (h : ∀ r ∈ renamings, stands r.1 text = false) : renamed renamings text = text := by
  induction renamings with
  | nil => rfl
  | cons r renamings ih =>
      rw [renamed, List.foldl_cons, replaceWord_of_not_stands (h r List.mem_cons_self)]
      exact ih fun r' hr' => h r' (List.mem_cons_of_mem r hr')

/-- Nothing but the renaming of an alias touches the alias, and nothing behind that renaming
touches the name. -/
structure Undisturbed (renamings : List (String × String)) (word name : String) : Prop where
  only : ∀ r ∈ renamings, stands r.1 word = true → r = (word, name)
  later : ∀ r ∈ (renamings.dropWhile (· != (word, name))).tail, stands r.1 name = false

/-- An undisturbed alias ends as the name that it stands for. -/
theorem renamed_eq_name {renamings : List (String × String)} {word name : String}
    (h : Undisturbed renamings word name) (hself : stands word word = true)
    (hmem : (word, name) ∈ renamings) : renamed renamings word = name := by
  obtain ⟨before, after, hsplit, hfirst⟩ := List.eq_append_cons_of_mem hmem
  have hbefore : renamed before word = word := by
    apply renamed_of_not_stands
    intro r hr
    rw [Bool.eq_false_iff]
    intro hstands
    have hr' : r ∈ renamings := by rw [hsplit]; exact List.mem_append_left _ hr
    exact hfirst (h.only r hr' hstands ▸ hr)
  have hlater : (renamings.dropWhile (· != (word, name))).tail = after := by
    rw [hsplit, List.dropWhile_append_of_pos, List.dropWhile_cons_of_neg (by simp), List.tail_cons]
    intro r hr
    rw [bne_iff_ne]
    rintro rfl
    exact hfirst hr
  have hafter : renamed after name = name := renamed_of_not_stands (hlater ▸ h.later)
  calc renamed renamings word
      = renamed after (replaceWord word name (renamed before word)) := by
        rw [hsplit, renamed, List.foldl_append, List.foldl_cons]
        rfl
    _ = renamed after name := by rw [hbefore, replaceWord_self hself]
    _ = name := hafter

end Text
end CodeAtlas
