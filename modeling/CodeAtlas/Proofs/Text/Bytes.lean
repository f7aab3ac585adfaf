import CodeAtlas.Text.Bytes
import Mathlib.Data.List.Infix

/-!
# Cutting at bytes

What cutting a text at a byte offset gives, and when it succeeds: an offset is the number of bytes
of a beginning of the text, and two beginnings with as many bytes are the same.  A piece that is
looked for in a text divides it into what stands before and after the piece.
-/

namespace CodeAtlas
namespace Text

variable {cs part inner piece : List Char} {first stop first' stop' : Nat}

/-! ## Sizes of beginnings -/

@[simp] theorem byteLength_nil : byteLength [] = 0 := rfl

theorem byteLength_append (xs ys : List Char) :
    byteLength (xs ++ ys) = byteLength xs + byteLength ys := by
  induction xs with
  | nil => rw [List.nil_append, byteLength, Nat.zero_add]
  | cons x xs ih => rw [List.cons_append, byteLength, byteLength, ih, Nat.add_assoc]

theorem length_le_byteLength (cs : List Char) : cs.length ≤ byteLength cs := by
  induction cs with
  | nil => exact Nat.le_refl 0
  | cons c cs ih =>
      have hpos : 0 < c.utf8Size := c.utf8Size_pos
      rw [List.length_cons, byteLength]
      omega

theorem byteLength_take_le {i j : Nat} (h : i ≤ j) (cs : List Char) :
    byteLength (cs.take i) ≤ byteLength (cs.take j) := by
  obtain ⟨more, hmore⟩ := List.take_prefix_take_left (l := cs) h
  rw [← hmore, byteLength_append]
  exact Nat.le_add_right _ _

/-- Of two beginnings of one text, the one with fewer bytes is the shorter one. -/
theorem prefix_of_byteLength_le {before before' : List Char} (h : before <+: cs)
    (h' : before' <+: cs) (hle : byteLength before ≤ byteLength before') : before <+: before' := by
  rcases List.prefix_or_prefix_of_prefix h h' with hshort | ⟨more, rfl⟩
  · exact hshort
  · rw [byteLength_append] at hle
    have hnone := length_le_byteLength more
    obtain rfl : more = [] := List.eq_nil_of_length_eq_zero (by omega)
    exact ⟨[], by simp⟩

/-- Beginnings of one text with as many bytes are the same. -/
theorem eq_of_byteLength_eq {before before' : List Char} (h : before <+: cs)
    (h' : before' <+: cs) (hlength : byteLength before = byteLength before') :
    before = before' := by
  have hshort := prefix_of_byteLength_le h h' (Nat.le_of_eq hlength)
  have hlong := prefix_of_byteLength_le h' h (Nat.le_of_eq hlength.symm)
  exact hshort.eq_of_length (Nat.le_antisymm hshort.length_le hlong.length_le)

/-! ## Slices -/

theorem eq_append_of_cutAt? {n : Nat} {p : List Char × List Char}
    (h : cutAt? n cs = some p) : cs = p.1 ++ p.2 ∧ byteLength p.1 = n := by
  fun_induction cutAt? n cs generalizing p with
  | case1 cs =>
      obtain rfl := Option.some.inj h
      exact ⟨rfl, rfl⟩
  | case2 n => exact absurd h (by simp)
  | case3 n c rest hsmall => exact absurd h (by simp)
  | case4 n c rest hsmall ih =>
      obtain ⟨q, hq, rfl⟩ := Option.map_eq_some_iff.mp h
      obtain ⟨hrest, hlength⟩ := ih hq
      refine ⟨congrArg (c :: ·) hrest, ?_⟩
      rw [byteLength, hlength]
      omega

theorem cutAt?_append (before after : List Char) :
    cutAt? (byteLength before) (before ++ after) = some (before, after) := by
  induction before with
  | nil => rw [byteLength, List.nil_append, cutAt?]
  | cons c before ih =>
      have hpos : 0 < c.utf8Size := c.utf8Size_pos
      obtain ⟨n, hn⟩ : ∃ n, c.utf8Size + byteLength before = n + 1 :=
        ⟨c.utf8Size + byteLength before - 1, by omega⟩
      rw [byteLength, List.cons_append, hn, cutAt?, if_neg (by omega)]
      rw [show n + 1 - c.utf8Size = byteLength before by omega, ih]
      rfl

/-- What is cut out between two bytes stands in the text behind as many bytes. -/
theorem exists_of_sliceBytes?
    (h : sliceBytes? first stop cs = some part) :
    ∃ before after, cs = before ++ (part ++ after) ∧ byteLength before = first := by
  rw [sliceBytes?] at h
  split at h
  · exact absurd h (by simp)
  · obtain ⟨rest, hrest, hpart⟩ := Option.bind_eq_some_iff.mp h
    obtain ⟨p, hp, rfl⟩ := Option.map_eq_some_iff.mp hrest
    obtain ⟨q, hq, rfl⟩ := Option.map_eq_some_iff.mp hpart
    obtain ⟨hcs, hlength⟩ := eq_append_of_cutAt? hp
    obtain ⟨hrest', -⟩ := eq_append_of_cutAt? hq
    exact ⟨p.1, q.2, by rw [← hrest', ← hcs], hlength⟩

theorem add_byteLength_of_sliceBytes?
    (h : sliceBytes? first stop cs = some part) : first + byteLength part = stop := by
  rw [sliceBytes?] at h
  split at h
  · exact absurd h (by simp)
  · obtain ⟨rest, -, hpart⟩ := Option.bind_eq_some_iff.mp h
    obtain ⟨q, hq, rfl⟩ := Option.map_eq_some_iff.mp hpart
    have hlength := (eq_append_of_cutAt? hq).2
    omega

theorem sliceBytes?_append (before part after : List Char) :
    sliceBytes? (byteLength before) (byteLength (before ++ part)) (before ++ (part ++ after)) =
      some part := by
  have hlength : byteLength (before ++ part) - byteLength before = byteLength part := by
    rw [byteLength_append, Nat.add_sub_cancel_left]
  rw [sliceBytes?, if_neg (by rw [byteLength_append]; omega), hlength, dropBytes?, cutAt?_append,
    Option.map_some, Option.bind_some, takeBytes?, cutAt?_append, Option.map_some]

/-- What is cut out between two bytes stands in what is cut out further apart. -/
theorem exists_of_sliceBytes?_within (h : sliceBytes? first stop cs = some part)
    (h' : sliceBytes? first' stop' cs = some inner) (hfirst : first ≤ first')
    (hstop : stop' ≤ stop) :
    ∃ before after, part = before ++ (inner ++ after) ∧ byteLength before = first' - first := by
  obtain ⟨outside, rest, hcs, hlength⟩ := exists_of_sliceBytes? h
  obtain ⟨outside', rest', hcs', hlength'⟩ := exists_of_sliceBytes? h'
  have hpart := add_byteLength_of_sliceBytes? h
  have hinner := add_byteLength_of_sliceBytes? h'
  -- the outer part starts no later and ends no earlier
  obtain ⟨before, rfl⟩ : outside <+: outside' :=
    prefix_of_byteLength_le ⟨_, hcs.symm⟩ ⟨_, hcs'.symm⟩ (by omega)
  have hshort : outside ++ before ++ inner <+: cs := ⟨rest', by rw [hcs', List.append_assoc]⟩
  have hlong : outside ++ part <+: cs := ⟨rest, by rw [hcs, List.append_assoc]⟩
  obtain ⟨after, hafter⟩ : outside ++ before ++ inner <+: outside ++ part := by
    apply prefix_of_byteLength_le hshort hlong
    rw [byteLength_append, byteLength_append outside part]
    omega
  refine ⟨before, after, ?_, ?_⟩
  · rw [List.append_assoc, List.append_assoc] at hafter
    exact (List.append_cancel_left hafter).symm
  · rw [byteLength_append] at hlength'
    omega

/-! ## Pieces -/

theorem stripPrefix?_append (piece after : List Char) :
    stripPrefix? piece (piece ++ after) = some after := by
  induction piece with
  | nil => rfl
  | cons c piece ih => rw [List.cons_append, stripPrefix?, if_pos rfl, ih]

theorem eq_append_of_stripPrefix? {after : List Char} (h : stripPrefix? piece cs = some after) :
    cs = piece ++ after := by
  fun_induction stripPrefix? piece cs with
  | case1 cs => exact Option.some.inj h
  | case2 p piece => exact absurd h (by simp)
  | case3 piece p cs ih => exact congrArg (p :: ·) (ih h)
  | case4 p piece c cs hne => exact absurd h (by simp)

theorem eq_append_of_splitFirst? {p : List Char × List Char} (h : splitFirst? piece cs = some p) :
    cs = p.1 ++ (piece ++ p.2) := by
  induction cs generalizing p with
  | nil =>
      rw [splitFirst?] at h
      split at h
      next hempty =>
        obtain rfl := Option.some.inj h
        simpa using hempty
      next => exact absurd h (by simp)
  | cons c cs ih =>
      rw [splitFirst?] at h
      split at h
      next after hfront =>
        obtain rfl := Option.some.inj h
        exact (eq_append_of_stripPrefix? hfront :)
      next =>
        obtain ⟨q, hq, rfl⟩ := Option.map_eq_some_iff.mp h
        exact congrArg (c :: ·) (ih hq)

/-- A piece that stands in a text is found. -/
theorem isSome_splitFirst?_append (before piece after : List Char) :
    (splitFirst? piece (before ++ (piece ++ after))).isSome = true := by
  induction before with
  | nil =>
      rw [List.nil_append]
      cases hcs : piece ++ after with
      | nil =>
          obtain ⟨rfl, -⟩ := List.append_eq_nil_iff.mp hcs
          rfl
      | cons c cs => rw [splitFirst?, ← hcs, stripPrefix?_append, Option.isSome_some]
  | cons c before ih =>
      rw [List.cons_append, splitFirst?]
      split
      · rfl
      · rw [Option.isSome_map, ih]

theorem not_infix_of_splitFirst? (h : splitFirst? piece cs = none) : ¬ piece <:+: cs := by
  rintro ⟨before, after, rfl⟩
  have hfound := isSome_splitFirst?_append before piece after
  rw [← List.append_assoc, h] at hfound
  exact absurd hfound (by simp)

end Text
end CodeAtlas
