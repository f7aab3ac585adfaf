import CodeAtlas.Names
import CodeAtlas.Proofs.Text.Rows

/-!
# The name that a token stands for

A dotted token stands for the longest name that it begins with.  The search goes through the parts
of the token that are made of its leading segments, from the longest down to the one with two of
them; these parts are exactly the dotted texts behind which the token goes on with a dot.
-/

namespace CodeAtlas

namespace Text

variable {separator : Char} {cs : List Char} {j k : Nat}

/-- The pieces of a text up to the `k`-th, joined again. -/
def leadingChars (separator : Char) (cs : List Char) (k : Nat) : List Char :=
  joinChars [separator] ((splitChars separator cs).take k)

theorem splitChars_leadingChars (hk : 0 < k) :
    splitChars separator (leadingChars separator cs k) = (splitChars separator cs).take k := by
  refine splitChars_joinChars ?_ fun piece hpiece => ?_
  · simp [Nat.ne_of_gt hk, splitChars_ne_nil]
  · exact separator_not_mem_of_mem_splitChars (List.mem_of_mem_take hpiece)

/-- The text goes on with a separator behind its leading pieces. -/
theorem leadingChars_concat_prefix (hk : 0 < k) (hlt : k < (splitChars separator cs).length) :
    leadingChars separator cs k ++ [separator] <+: cs := by
  have htake : (splitChars separator cs).take k ≠ [] := by
    simp [Nat.ne_of_gt hk, splitChars_ne_nil]
  have hdrop : (splitChars separator cs).drop k ≠ [] := by
    simpa using hlt
  have happend := joinChars_append [separator] htake hdrop
  rw [List.take_append_drop, joinChars_splitChars] at happend
  exact ⟨_, happend.symm⟩

/-- What stands in front of a separator is made of leading pieces. -/
theorem eq_leadingChars_of_prefix {front : List Char} (h : front ++ [separator] <+: cs) :
    front = leadingChars separator cs (front.count separator + 1) ∧
      front.count separator + 1 < (splitChars separator cs).length ∧
      splitChars separator front <+: splitChars separator cs := by
  obtain ⟨rest, rfl⟩ := h
  rw [List.append_assoc, List.singleton_append, leadingChars, splitChars_append_cons,
    ← length_splitChars, List.take_left, joinChars_splitChars, List.length_append]
  refine ⟨rfl, ?_, List.prefix_append _ _⟩
  exact Nat.lt_add_of_pos_right (List.length_pos_iff.mpr (splitChars_ne_nil separator rest))

theorem separator_mem_leadingChars_iff (hk : 0 < k) (hle : k ≤ (splitChars separator cs).length) :
    separator ∈ leadingChars separator cs k ↔ 2 ≤ k := by
  have hlength := length_splitChars separator (leadingChars separator cs k)
  rw [splitChars_leadingChars hk, List.length_take, Nat.min_eq_left hle] at hlength
  rw [← List.count_pos_iff]
  omega

/-- More leading pieces make a longer text. -/
theorem length_leadingChars_lt (hj : 0 < j) (hjk : j < k)
    (hk : k ≤ (splitChars separator cs).length) :
    (leadingChars separator cs j).length < (leadingChars separator cs k).length := by
  have hsplit := @splitChars_leadingChars separator cs k (Nat.lt_trans hj hjk)
  have hprefix : leadingChars separator (leadingChars separator cs k) j ++ [separator] <+:
      leadingChars separator cs k := by
    refine leadingChars_concat_prefix hj ?_
    rwa [hsplit, List.length_take, Nat.min_eq_left hk]
  have hleading : leadingChars separator (leadingChars separator cs k) j =
      leadingChars separator cs j := by
    rw [leadingChars, hsplit, List.take_take, Nat.min_eq_left (Nat.le_of_lt hjk), ← leadingChars]
  have hlength := hprefix.length_le
  rw [hleading, List.length_append, List.length_singleton] at hlength
  exact hlength

end Text

namespace Names

variable {n : Names} {token name : String}

/-- A known name that a token may stand for: the token itself, or a dotted text behind which the
token goes on with a dot. -/
structure IsCandidate (n : Names) (token name : String) : Prop where
  known : (n.find? name).isSome = true
  begins : name = token ∨ '.' ∈ name.toList ∧ (name ++ ".").toList <+: token.toList

/-- The longest of the names that a token may stand for. -/
structure IsLongest (n : Names) (token name : String) : Prop where
  candidate : n.IsCandidate token name
  longest : ∀ other, n.IsCandidate token other → other ≠ name → other.length < name.length

/-- The leading segments of a token. -/
def leading (token : String) (k : Nat) : String :=
  Text.join "." ((Text.split '.' token).take k)

theorem toList_leading (token : String) (k : Nat) :
    (leading token k).toList = Text.leadingChars '.' token.toList k := by
  rw [leading, Text.join, Text.split, String.toList_ofList, ← List.map_take,
    Text.map_toList_ofList]
  rfl

/-- The names that a token may stand for without being them are its leading segments, at least two
of them and not all. -/
theorem isCandidate_iff :
    n.IsCandidate token name ↔ (n.find? name).isSome = true ∧
      (name = token ∨ ∃ k, 2 ≤ k ∧ k < (Text.split '.' token).length ∧ name = leading token k) := by
  have hlength : (Text.split '.' token).length = (Text.splitChars '.' token.toList).length := by
    rw [Text.split, List.length_map]
  have hdots : ".".toList = ['.'] := rfl
  rw [hlength]
  constructor
  · rintro ⟨hknown, hbegins⟩
    refine ⟨hknown, hbegins.imp_right ?_⟩
    rintro ⟨hdot, hprefix⟩
    rw [String.toList_append, hdots] at hprefix
    obtain ⟨hname, hlt, -⟩ := Text.eq_leadingChars_of_prefix hprefix
    have hcount := List.count_pos_iff.mpr hdot
    exact ⟨_, by omega, hlt, String.toList_injective (hname.trans (toList_leading _ _).symm)⟩
  · rintro ⟨hknown, hbegins⟩
    refine ⟨hknown, hbegins.imp_right ?_⟩
    rintro ⟨k, hk, hlt, rfl⟩
    rw [String.toList_append, hdots, toList_leading]
    exact ⟨(Text.separator_mem_leadingChars_iff (by omega) (Nat.le_of_lt hlt)).mpr hk,
      Text.leadingChars_concat_prefix (by omega) hlt⟩

/-- The search finds the longest leading segments that are known, or there are none. -/
theorem resolvePart?_cases (n : Names) (token : String) (m : Nat) :
    (∃ k, 2 ≤ k ∧ k ≤ m ∧ (n.find? (leading token k)).isSome = true ∧
        n.resolvePart? (Text.split '.' token) m = n.find? (leading token k) ∧
        ∀ j, k < j → j ≤ m → n.find? (leading token j) = none) ∨
      n.resolvePart? (Text.split '.' token) m = none ∧
        ∀ j, 2 ≤ j → j ≤ m → n.find? (leading token j) = none := by
  fun_induction Names.resolvePart? n (Text.split '.' token) m with
  | case1 => exact Or.inr ⟨rfl, fun j hj hle => by omega⟩
  | case2 => exact Or.inr ⟨rfl, fun j hj hle => by omega⟩
  | case3 m hm id hid =>
      have hm : m ≠ 0 := hm
      refine Or.inl ⟨m + 1, by omega, Nat.le_refl _, ?_, hid.symm, fun j hj hle => by omega⟩
      rw [leading, hid]
      rfl
  | case4 m hm hnone ih =>
      have hlast : ∀ j, m < j → j ≤ m + 1 → n.find? (leading token j) = none := by
        intro j hj hle
        obtain rfl : j = m + 1 := by omega
        exact hnone
      rcases ih with ⟨k, hk, hle, hknown, hresolve, hlonger⟩ | ⟨hresolve, hall⟩
      · refine Or.inl ⟨k, hk, by omega, hknown, hresolve, fun j hj hle => ?_⟩
        rcases Nat.lt_or_ge m j with h | h
        · exact hlast j h hle
        · exact hlonger j hj h
      · refine Or.inr ⟨hresolve, fun j hj hle => ?_⟩
        rcases Nat.lt_or_ge m j with h | h
        · exact hlast j h hle
        · exact hall j hj h

theorem IsCandidate.split_prefix (h : n.IsCandidate token name) :
    Text.split '.' name <+: Text.split '.' token := by
  obtain ⟨-, rfl | ⟨k, hk, -, rfl⟩⟩ := isCandidate_iff.mp h
  · exact List.prefix_rfl
  · rw [Text.split, Text.split, toList_leading, Text.splitChars_leadingChars (by omega)]
    exact (List.take_prefix _ _).map _

/-- A token that is known as a whole may stand for nothing longer. -/
theorem isLongest_self (h : (n.find? token).isSome = true) : n.IsLongest token token := by
  refine ⟨⟨h, Or.inl rfl⟩, fun other hother hne => ?_⟩
  obtain ⟨-, hprefix⟩ := hother.begins.resolve_left hne
  have hlength := hprefix.length_le
  rw [String.toList_append, List.length_append, String.length_toList, String.length_toList]
    at hlength
  exact hlength

theorem isLongest_leading {k : Nat} (hk : 2 ≤ k) (hlt : k < (Text.split '.' token).length)
    (hknown : (n.find? (leading token k)).isSome = true) (hwhole : n.find? token = none)
    (hlonger : ∀ j, k < j → j < (Text.split '.' token).length → n.find? (leading token j) = none) :
    n.IsLongest token (leading token k) := by
  refine ⟨isCandidate_iff.mpr ⟨hknown, Or.inr ⟨k, hk, hlt, rfl⟩⟩, fun other hother hne => ?_⟩
  obtain ⟨hfound, rfl | ⟨j, hj, hjlt, rfl⟩⟩ := isCandidate_iff.mp hother
  · simp [hwhole] at hfound
  · rcases Nat.lt_trichotomy j k with hjk | rfl | hjk
    · rw [← String.length_toList, ← String.length_toList, toList_leading, toList_leading]
      rw [Text.split, List.length_map] at hlt
      exact Text.length_leadingChars_lt (by omega) hjk (Nat.le_of_lt hlt)
    · exact absurd rfl hne
    · simp [hlonger j hjk hjlt] at hfound

/-- A token stands for the longest name that it may stand for, and for nothing if there is none.
Such a name ends where a segment of the token ends, and without a dot in it it is the token. -/
theorem resolve?_longest (n : Names) (token : String) :
    ((∃ name, n.IsLongest token name ∧ n.resolve? token = n.find? name) ∨
      (∀ name, ¬ n.IsCandidate token name) ∧ n.resolve? token = none) ∧
    ∀ name, n.IsCandidate token name →
      Text.split '.' name <+: Text.split '.' token ∧ ('.' ∉ name.toList → name = token) := by
  refine ⟨?_, fun name h => ⟨h.split_prefix, fun hdot => ?_⟩⟩
  · cases hwhole : n.find? token with
    | some id =>
        have hknown : (n.find? token).isSome = true := by simp [hwhole]
        exact Or.inl ⟨token, isLongest_self hknown, by simp [resolve?, hwhole]⟩
    | none =>
        have hresolve : n.resolve? token = n.resolvePart? (Text.split '.' token)
            ((Text.split '.' token).length - 1) := by simp [resolve?, hwhole]
        have hpos := List.length_pos_iff.mpr (Text.split_ne_nil '.' token)
        rw [hresolve]
        rcases n.resolvePart?_cases token ((Text.split '.' token).length - 1) with
          ⟨k, hk, hle, hknown, hfound, hlonger⟩ | ⟨hfound, hall⟩
        · exact Or.inl ⟨_, isLongest_leading hk (by omega) hknown hwhole
            fun j hj hlt => hlonger j hj (by omega), hfound⟩
        · refine Or.inr ⟨fun name hname => ?_, hfound⟩
          obtain ⟨hknown, rfl | ⟨k, hk, hlt, rfl⟩⟩ := isCandidate_iff.mp hname
          · simp [hwhole] at hknown
          · simp [hall k hk (by omega)] at hknown
  · exact h.begins.resolve_right fun hdotted => hdot hdotted.1

end Names
end CodeAtlas
