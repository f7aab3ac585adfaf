import CodeAtlas.Proofs.Text.Bytes
import CodeAtlas.Survey
import Mathlib.Data.List.Forall2

/-!
# Rows of a text

A text is cut into rows at its row ends.  A piece of a text is cut in the same way, and each of its
rows then is a part of one row of the text: the first one of the row on which the piece starts, and
the others of the rows below it.  The row on which a piece starts is the number of row ends in front
of it, which is what the marks of a source count.
-/

namespace CodeAtlas
namespace Text

variable {separator : Char} {xs ys piece : List Char} {k : Nat}

/-! ## Cutting a text in two -/

theorem splitChars_ne_nil (separator : Char) (cs : List Char) : splitChars separator cs ≠ [] := by
  cases cs with
  | nil => simp [splitChars]
  | cons c cs =>
      rw [splitChars]
      split
      · simp
      · split <;> simp

/-- A separator between two texts only puts their pieces side by side. -/
theorem splitChars_append_cons (separator : Char) (xs ys : List Char) :
    splitChars separator (xs ++ separator :: ys) =
      splitChars separator xs ++ splitChars separator ys := by
  induction xs with
  | nil => simp [splitChars]
  | cons x xs ih =>
      rw [List.cons_append, splitChars, splitChars, ih]
      by_cases hx : x = separator
      · rw [if_pos hx, if_pos hx, List.cons_append]
      · rw [if_neg hx, if_neg hx]
        obtain ⟨first, rest, hfirst⟩ := List.exists_cons_of_ne_nil (splitChars_ne_nil separator xs)
        rw [hfirst]
        rfl

/-- Where two texts meet, the last piece of one and the first piece of the other become one. -/
theorem exists_splitChars_append (separator : Char) (xs ys : List Char) :
    ∃ before last first after, splitChars separator xs = before ++ [last] ∧
      splitChars separator ys = first :: after ∧
      splitChars separator (xs ++ ys) = before ++ (last ++ first) :: after ∧
      before.length = xs.count separator := by
  induction xs with
  | nil =>
      obtain ⟨first, after, hys⟩ := List.exists_cons_of_ne_nil (splitChars_ne_nil separator ys)
      exact ⟨[], [], first, after, rfl, hys, hys, rfl⟩
  | cons x xs ih =>
      obtain ⟨before, last, first, after, hxs, hys, happend, hlength⟩ := ih
      rw [List.cons_append, splitChars, splitChars, hxs, happend]
      by_cases hx : x = separator
      · refine ⟨[] :: before, last, first, after, by rw [if_pos hx]; rfl, hys,
          by rw [if_pos hx]; rfl, ?_⟩
        rw [hx, List.count_cons_self, List.length_cons, hlength]
      · have hcount : (x :: xs).count separator = xs.count separator :=
          List.count_cons_of_ne hx
        rw [if_neg hx, if_neg hx, hcount]
        cases before with
        | nil => exact ⟨[], x :: last, first, after, rfl, hys, rfl, hlength⟩
        | cons b before => exact ⟨(x :: b) :: before, last, first, after, rfl, hys, rfl, hlength⟩

theorem joinChars_cons (separator piece : List Char) {pieces : List (List Char)}
    (h : pieces ≠ []) :
    joinChars separator (piece :: pieces) = piece ++ separator ++ joinChars separator pieces := by
  cases pieces with
  | nil => exact absurd rfl h
  | cons next pieces => rfl

theorem joinChars_append (separator : List Char) {pieces others : List (List Char)}
    (hpieces : pieces ≠ []) (hothers : others ≠ []) :
    joinChars separator (pieces ++ others) =
      joinChars separator pieces ++ separator ++ joinChars separator others := by
  induction pieces with
  | nil => exact absurd rfl hpieces
  | cons piece pieces ih =>
      by_cases hlast : pieces = []
      · subst hlast
        exact joinChars_cons separator piece hothers
      · rw [List.cons_append, joinChars_cons _ _ (by simp [hlast]), joinChars_cons _ _ hlast,
          ih hlast]
        simp only [List.append_assoc]

/-- Joining the pieces gives the text back. -/
theorem joinChars_splitChars (separator : Char) (cs : List Char) :
    joinChars [separator] (splitChars separator cs) = cs := by
  induction cs with
  | nil => rfl
  | cons c cs ih =>
      have hne := splitChars_ne_nil separator cs
      rw [splitChars]
      split
      next hc =>
        rw [joinChars_cons _ _ hne, ih, hc]
        rfl
      next =>
        obtain ⟨piece, pieces, hsplit⟩ := List.exists_cons_of_ne_nil hne
        rw [hsplit] at ih
        rw [hsplit]
        cases pieces with
        | nil => exact congrArg (c :: ·) ih
        | cons next pieces => exact congrArg (c :: ·) ih

theorem map_toList_ofList (pieces : List (List Char)) :
    (pieces.map String.ofList).map String.toList = pieces := by
  simp

theorem splitChars_of_not_mem {cs : List Char} (h : separator ∉ cs) :
    splitChars separator cs = [cs] := by
  induction cs with
  | nil => rfl
  | cons c cs ih =>
      rw [List.mem_cons, not_or] at h
      rw [splitChars, if_neg (Ne.symm h.1), ih h.2]

/-- A text without the separator behind another one only makes its last piece longer. -/
theorem exists_splitChars_append_of_not_mem {tail : List Char}
    (h : separator ∉ tail) (cs : List Char) :
    ∃ before last, splitChars separator cs = before ++ [last] ∧
      splitChars separator (cs ++ tail) = before ++ [last ++ tail] := by
  obtain ⟨before, last, first, after, hcs, htail, happend, -⟩ :=
    exists_splitChars_append separator cs tail
  rw [splitChars_of_not_mem h] at htail
  obtain ⟨rfl, rfl⟩ := List.cons.inj htail
  exact ⟨before, last, hcs, happend⟩

/-- Cutting what was joined gives the pieces back, if none of them holds the separator. -/
theorem splitChars_joinChars {pieces : List (List Char)} (hne : pieces ≠ [])
    (hfree : ∀ piece ∈ pieces, separator ∉ piece) :
    splitChars separator (joinChars [separator] pieces) = pieces := by
  induction pieces with
  | nil => exact absurd rfl hne
  | cons piece pieces ih =>
      rw [List.forall_mem_cons] at hfree
      by_cases hlast : pieces = []
      · subst hlast
        exact splitChars_of_not_mem hfree.1
      · rw [joinChars_cons _ _ hlast, List.append_assoc, List.singleton_append,
          splitChars_append_cons, splitChars_of_not_mem hfree.1, ih hlast hfree.2,
          List.singleton_append]

theorem split_join_rows {rows : List String} (hne : rows ≠ [])
    (hfree : ∀ row ∈ rows, '\n' ∉ row.toList) : split '\n' (join "\n" rows) = rows := by
  have hpieces : ∀ piece ∈ rows.map String.toList, '\n' ∉ piece := by
    intro piece hpiece
    obtain ⟨row, hrow, rfl⟩ := List.mem_map.mp hpiece
    exact hfree row hrow
  have hsplit := splitChars_joinChars (by simpa using hne) hpieces
  rw [split, join, String.toList_ofList, show "\n".toList = ['\n'] from rfl, hsplit]
  simp

theorem length_splitChars (separator : Char) (cs : List Char) :
    (splitChars separator cs).length = cs.count separator + 1 := by
  obtain ⟨before, last, -, -, hcs, -, -, hlength⟩ := exists_splitChars_append separator cs []
  rw [hcs, List.length_append, hlength]
  rfl

theorem separator_not_mem_of_mem_splitChars {cs : List Char}
    (h : piece ∈ splitChars separator cs) : separator ∉ piece := by
  induction cs generalizing piece with
  | nil =>
      obtain rfl := List.mem_singleton.mp h
      exact List.not_mem_nil
  | cons c cs ih =>
      rw [splitChars] at h
      split at h
      next =>
        rcases List.mem_cons.mp h with rfl | h
        · exact List.not_mem_nil
        · exact ih h
      next hc =>
        obtain ⟨first, others, hsplit⟩ :=
          List.exists_cons_of_ne_nil (splitChars_ne_nil separator cs)
        rw [hsplit] at h
        rcases List.mem_cons.mp h with rfl | h
        · rw [List.mem_cons, not_or]
          exact ⟨Ne.symm hc, ih (by rw [hsplit]; exact List.mem_cons_self)⟩
        · exact ih (by rw [hsplit]; exact List.mem_cons_of_mem first h)

/-! ## Counting row ends -/

theorem rowEnds_append (s t : String) : rowEnds (s ++ t) = rowEnds s + rowEnds t := by
  rw [rowEnds, String.toList_append, List.count_append, rowEnds, rowEnds]

theorem rowEnds_repeated (s : String) (n : Nat) : rowEnds (repeated s n) = n * rowEnds s := by
  have hfold : ∀ start, rowEnds ((List.replicate n s).foldl (· ++ ·) start) =
      rowEnds start + n * rowEnds s := by
    induction n with
    | zero => simp
    | succ n ih =>
        intro start
        rw [List.replicate_succ, List.foldl_cons, ih, rowEnds_append, Nat.succ_mul,
          Nat.add_assoc, Nat.add_comm (rowEnds s)]
  rw [repeated, String.join, hfold]
  exact Nat.zero_add _

theorem rowEnds_spaces (n : Nat) : rowEnds (spaces n) = 0 := by
  rw [rowEnds, spaces, String.toList_ofList, List.count_replicate]
  rfl

theorem newline_not_mem_of_mem_split {text row : String} (h : row ∈ split '\n' text) :
    '\n' ∉ row.toList := by
  obtain ⟨piece, hpiece, rfl⟩ := List.mem_map.mp h
  rw [String.toList_ofList]
  exact separator_not_mem_of_mem_splitChars hpiece

theorem split_ne_nil (separator : Char) (text : String) : split separator text ≠ [] := by
  rw [split, Ne, List.map_eq_nil_iff]
  exact splitChars_ne_nil separator text.toList

theorem length_split (text : String) : (split '\n' text).length = rowEnds text + 1 := by
  rw [split, List.length_map, length_splitChars, rowEnds]

theorem rowEnds_join {rows : List String} (hne : rows ≠ [])
    (hfree : ∀ row ∈ rows, '\n' ∉ row.toList) : rowEnds (join "\n" rows) + 1 = rows.length := by
  rw [← length_split, split_join_rows hne hfree]

/-! ## Pieces of a part -/

/-- Each piece of a beginning is part of a piece of the whole text. -/
theorem exists_piece_of_append_left (h : (splitChars separator xs)[k]? = some piece)
    (ys : List Char) :
    ∃ whole, (splitChars separator (xs ++ ys))[k]? = some whole ∧ piece <:+: whole := by
  obtain ⟨before, last, first, after, hxs, -, happend, -⟩ :=
    exists_splitChars_append separator xs ys
  rw [hxs] at h
  rw [happend]
  by_cases hk : k < before.length
  · rw [List.getElem?_append_left hk] at h ⊢
    exact ⟨piece, h, List.infix_rfl⟩
  · -- the last piece of the beginning may go on behind it
    have hlast : k = before.length ∧ last = piece := by
      rw [List.getElem?_append_right (by omega), List.getElem?_singleton] at h
      split at h
      · exact ⟨by omega, Option.some.inj h⟩
      · exact absurd h (by simp)
    obtain ⟨rfl, rfl⟩ := hlast
    exact ⟨last ++ first, by simp, (List.prefix_append last first).isInfix⟩

/-- Each piece of an ending is part of a piece of the whole text. -/
theorem exists_piece_of_append_right (h : (splitChars separator ys)[k]? = some piece)
    (xs : List Char) :
    ∃ whole, (splitChars separator (xs ++ ys))[xs.count separator + k]? = some whole ∧
      piece <:+: whole := by
  obtain ⟨before, last, first, after, -, hys, happend, hlength⟩ :=
    exists_splitChars_append separator xs ys
  rw [hys] at h
  rw [happend, ← hlength, List.getElem?_append_right (by omega), Nat.add_sub_cancel_left]
  cases k with
  | zero =>
      obtain rfl := Option.some.inj h
      exact ⟨last ++ first, rfl, (List.suffix_append last first).isInfix⟩
  | succ k => exact ⟨piece, h, List.infix_rfl⟩

/-- Each piece of a part is a part of the piece of the whole text that stands there. -/
theorem exists_piece_of_part {part : List Char} (h : (splitChars separator part)[k]? = some piece)
    (xs ys : List Char) :
    ∃ whole, (splitChars separator (xs ++ (part ++ ys)))[xs.count separator + k]? = some whole ∧
      piece <:+: whole := by
  obtain ⟨middle, hmiddle, hpiece⟩ := exists_piece_of_append_left h ys
  obtain ⟨whole, hwhole, hmiddle'⟩ := exists_piece_of_append_right hmiddle xs
  exact ⟨whole, hwhole, hpiece.trans hmiddle'⟩

end Text

/-! ## Marks -/

namespace Syntax

namespace Mark

/-- The mark behind several characters. -/
def behind (m : Mark) (cs : List Char) : Mark := cs.foldl after m

theorem byte_after (m : Mark) (c : Char) : (m.after c).byte = m.byte + c.utf8Size := by
  rw [after]
  split <;> rfl

theorem row_after (m : Mark) (c : Char) :
    (m.after c).position.row = m.position.row + if c = '\n' then 1 else 0 := by
  rw [after]
  split <;> rfl

theorem byte_behind (m : Mark) (cs : List Char) :
    (m.behind cs).byte = m.byte + Text.byteLength cs := by
  induction cs generalizing m with
  | nil => rfl
  | cons c cs ih =>
      rw [behind, List.foldl_cons, ← behind, ih, byte_after, Text.byteLength, Nat.add_assoc]

theorem row_behind (m : Mark) (cs : List Char) :
    (m.behind cs).position.row = m.position.row + cs.count '\n' := by
  induction cs generalizing m with
  | nil => rfl
  | cons c cs ih =>
      rw [behind, List.foldl_cons, ← behind, ih, row_after, List.count_cons, Nat.add_assoc]
      by_cases hc : c = '\n'
      · rw [if_pos hc, if_pos (by simpa using hc), Nat.add_comm 1]
      · rw [if_neg hc, if_neg (by simpa using hc), Nat.zero_add, Nat.add_zero]

end Mark

namespace Source

theorem length_marksFrom (m : Mark) (cs : List Char) :
    (marksFrom m cs).length = cs.length + 1 := by
  induction cs generalizing m with
  | nil => rfl
  | cons c cs ih => rw [marksFrom, List.length_cons, ih, List.length_cons]

theorem getElem?_marksFrom (m : Mark) (cs : List Char) (i : Nat) :
    (marksFrom m cs)[i]? = if i ≤ cs.length then some (m.behind (cs.take i)) else none := by
  induction cs generalizing m i with
  | nil =>
      cases i with
      | zero => rfl
      | succ i => simp [marksFrom]
  | cons c cs ih =>
      cases i with
      | zero => rfl
      | succ i =>
          rw [marksFrom, List.getElem?_cons_succ, ih]
          simp [Mark.behind]

/-- The mark of a place counts what stands in front of it. -/
theorem markAt_ofString (text : String) (i : Nat) :
    (ofString text).markAt i = Mark.origin.behind (text.toList.take i) := by
  have hget := getElem?_marksFrom Mark.origin text.toList
  have hlast : (marksFrom Mark.origin text.toList).getLast? =
      some (Mark.origin.behind text.toList) := by
    rw [List.getLast?_eq_getElem?, length_marksFrom, Nat.add_sub_cancel, hget,
      if_pos (Nat.le_refl _), List.take_length]
  simp only [markAt, ofString, Array.getD_eq_getD_getElem?, List.getElem?_toArray, hget,
    List.back?_toArray, hlast, Option.getD_some]
  split
  · rfl
  · rw [Option.getD_none, List.take_of_length_le (by omega)]

theorem byte_markAt_ofString (text : String) (i : Nat) :
    ((ofString text).markAt i).byte = Text.byteLength (text.toList.take i) := by
  rw [markAt_ofString, Mark.byte_behind]
  exact Nat.zero_add _

theorem row_markAt_ofString (text : String) (i : Nat) :
    ((ofString text).markAt i).position.row = (text.toList.take i).count '\n' := by
  rw [markAt_ofString, Mark.row_behind]
  exact Nat.zero_add _

/-- A place that is not behind another one is not on a row below. -/
theorem row_markAt_le {text : String} {i j : Nat}
    (h : ((ofString text).markAt i).byte ≤ ((ofString text).markAt j).byte) :
    ((ofString text).markAt i).position.row ≤ ((ofString text).markAt j).position.row := by
  rw [byte_markAt_ofString, byte_markAt_ofString] at h
  rw [row_markAt_ofString, row_markAt_ofString]
  exact (Text.prefix_of_byteLength_le (List.take_prefix i text.toList)
    (List.take_prefix j text.toList) h).sublist.count_le '\n'

theorem row_markAt_le_rowEnds (text : String) (i : Nat) :
    ((ofString text).markAt i).position.row ≤ Text.rowEnds text := by
  rw [row_markAt_ofString]
  exact (List.take_sublist i text.toList).count_le '\n'

theorem row_markAt_le_size (text : String) (i : Nat) :
    ((ofString text).markAt i).position.row ≤ Text.size text := by
  calc ((ofString text).markAt i).position.row ≤ text.toList.count '\n' :=
        row_markAt_le_rowEnds text i
    _ ≤ text.toList.length := List.count_le_length
    _ ≤ Text.size text := Text.length_le_byteLength text.toList

end Source
end Syntax

/-! ## Spans of a text -/

/-- The span lies between two places of the text. -/
def Span.Of (content : String) (s : Span) : Prop :=
  ∃ first stop, s = (Syntax.Source.ofString content).span first stop

namespace Span

variable {content : String} {a b s : Span}

/-- The span is a stretch of the text: it does not end in front of its start. -/
structure StretchOf (content : String) (s : Span) : Prop where
  of : s.Of content
  le : s.startByte ≤ s.endByte

theorem of_span {p : Syntax.Parsed} (hp : p.source = Syntax.Source.ofString content)
    (site : Syntax.Site) : (p.span site).Of content :=
  ⟨site.tree.first, _, by rw [Syntax.Parsed.span, hp]⟩

theorem Of.start_row_le (ha : a.Of content) (hb : b.Of content) (h : a.startByte ≤ b.startByte) :
    a.start.row ≤ b.start.row := by
  obtain ⟨i, j, rfl⟩ := ha
  obtain ⟨i', j', rfl⟩ := hb
  exact Syntax.Source.row_markAt_le h

theorem Of.stop_row_le (ha : a.Of content) (hb : b.Of content) (h : a.endByte ≤ b.endByte) :
    a.stop.row ≤ b.stop.row := by
  obtain ⟨i, j, rfl⟩ := ha
  obtain ⟨i', j', rfl⟩ := hb
  exact Syntax.Source.row_markAt_le h

theorem Of.start_row_le_rowEnds (h : s.Of content) : s.start.row ≤ Text.rowEnds content := by
  obtain ⟨i, j, rfl⟩ := h
  exact Syntax.Source.row_markAt_le_rowEnds content i

theorem Of.stop_row_le_size (h : s.Of content) : s.stop.row ≤ Text.size content := by
  obtain ⟨i, j, rfl⟩ := h
  exact Syntax.Source.row_markAt_le_size content j

theorem StretchOf.row_le (h : s.StretchOf content) : s.start.row ≤ s.stop.row := by
  obtain ⟨⟨i, j, rfl⟩, hle⟩ := h
  exact Syntax.Source.row_markAt_le hle

/-- Rows are counted without going around the end of the counter. -/
theorem StretchOf.rows_eq (h : s.StretchOf content) (hsize : Text.size content < UInt64.size) :
    s.rows = s.stop.row - s.start.row := by
  have hrow := h.row_le
  have hstop := h.of.stop_row_le_size
  have hdistance : s.stop.row + UInt64.size - s.start.row =
      s.stop.row - s.start.row + UInt64.size := by omega
  rw [rows, hdistance, Nat.add_mod_right, Nat.mod_eq_of_lt (by omega)]

end Span

namespace Survey

/-- The text is part of a row. -/
def StandsOn (content text : String) (row : Nat) : Prop :=
  ∃ whole, (Text.split '\n' content)[row]? = some whole ∧ text.toList <:+: whole.toList

/-- The rows that a span covers. -/
def rowsOf (content : String) (s : Span) : List Nat :=
  List.range' s.start.row (Text.split '\n' (slice content s)).length

theorem getElem?_split {text row : String} {k : Nat} (h : (Text.split '\n' text)[k]? = some row) :
    (Text.splitChars '\n' text.toList)[k]? = some row.toList := by
  rw [Text.split, List.getElem?_map] at h
  obtain ⟨cs, hcs, rfl⟩ := Option.map_eq_some_iff.mp h
  rw [hcs, String.toList_ofList]

theorem StandsOn.of_piece {content text : String} {row : Nat} {whole : List Char}
    (hwhole : (Text.splitChars '\n' content.toList)[row]? = some whole)
    (hpart : text.toList <:+: whole) : StandsOn content text row := by
  refine ⟨String.ofList whole, ?_, by rwa [String.toList_ofList]⟩
  rw [Text.split, List.getElem?_map, hwhole]
  rfl

/-- The characters of a span stand between its two places. -/
theorem exists_get?_of_mem_slice {content : String} {first stop : Nat} {c : Char}
    (h : c ∈ (slice content ((Syntax.Source.ofString content).span first stop)).toList) :
    ∃ i, first ≤ i ∧ i < stop ∧ (Syntax.Source.ofString content).get? i = some c := by
  rw [slice, String.toList_ofList, Syntax.Source.span, Syntax.Source.byte_markAt_ofString,
    Syntax.Source.byte_markAt_ofString] at h
  cases hcut : Text.sliceBytes? (Text.byteLength (content.toList.take first))
      (Text.byteLength (content.toList.take stop)) content.toList with
  | none =>
      rw [hcut, Option.getD_none] at h
      exact absurd h (by simp)
  | some part =>
      rw [hcut, Option.getD_some] at h
      obtain ⟨before, after, hcontent, hlength⟩ := Text.exists_of_sliceBytes? hcut
      have hend := Text.add_byteLength_of_sliceBytes? hcut
      have hbefore : before = content.toList.take first :=
        Text.eq_of_byteLength_eq (hcontent ▸ List.prefix_append before (part ++ after))
          (List.take_prefix first content.toList) hlength
      have hthrough : before ++ part = content.toList.take stop := by
        have hprefix : before ++ part <+: content.toList :=
          ⟨after, by rw [hcontent, List.append_assoc]⟩
        refine Text.eq_of_byteLength_eq hprefix (List.take_prefix stop content.toList) ?_
        rw [Text.byteLength_append, hlength, hend]
      obtain ⟨k, hk, rfl⟩ := List.mem_iff_getElem.mp h
      -- something stands behind the first place, so that it lies in the text
      have hfirst : before.length = first := by
        have hlen := congrArg List.length hcontent
        rw [List.length_append, List.length_append] at hlen
        have htake := congrArg List.length hbefore
        rw [List.length_take] at htake
        omega
      have hstop : before.length + part.length ≤ stop := by
        rw [← List.length_append, hthrough]
        exact List.length_take_le stop content.toList
      refine ⟨first + k, by omega, by omega, ?_⟩
      rw [Syntax.Source.get?, Syntax.Source.ofString, List.getElem?_toArray, hcontent, ← hfirst,
        List.getElem?_append_right (by omega), Nat.add_sub_cancel_left,
        List.getElem?_append_left hk, List.getElem?_eq_getElem hk]

/-- The text of a span stands row by row on the rows from its start on. -/
theorem standsOn_slice {content : String} {s : Span} (hs : s.Of content) {k : Nat} {text : String}
    (h : (Text.split '\n' (slice content s))[k]? = some text) :
    StandsOn content text (s.start.row + k) := by
  obtain ⟨first, stop, rfl⟩ := hs
  have hmark := Syntax.Source.markAt_ofString content first
  have hrow : ((Syntax.Source.ofString content).span first stop).start.row =
      (content.toList.take first).count '\n' := by
    rw [Syntax.Source.span, hmark, Syntax.Mark.row_behind]
    exact Nat.zero_add _
  have hbyte : ((Syntax.Source.ofString content).span first stop).startByte =
      Text.byteLength (content.toList.take first) := by
    rw [Syntax.Source.span, hmark, Syntax.Mark.byte_behind]
    exact Nat.zero_add _
  have hpiece := getElem?_split h
  rw [slice, hbyte, String.toList_ofList] at hpiece
  rw [hrow]
  cases hcut : Text.sliceBytes? (Text.byteLength (content.toList.take first))
      ((Syntax.Source.ofString content).span first stop).endByte content.toList with
  | some part =>
      rw [hcut, Option.getD_some] at hpiece
      obtain ⟨before, after, hcontent, hlength⟩ := Text.exists_of_sliceBytes? hcut
      -- the part starts where the span does, since it has as many bytes in front of it
      have hbefore : before = content.toList.take first :=
        Text.eq_of_byteLength_eq (hcontent ▸ List.prefix_append before (part ++ after))
          (List.take_prefix first content.toList) hlength
      obtain ⟨whole, hwhole, hinfix⟩ := Text.exists_piece_of_part hpiece before after
      rw [← hcontent, hbefore] at hwhole
      exact .of_piece hwhole hinfix
  | none =>
      -- a span that cannot be cut out has the empty text, which stands everywhere
      rw [hcut, Option.getD_none, Text.splitChars, List.getElem?_singleton] at hpiece
      split at hpiece
      · have hlength : 0 < (Text.splitChars '\n' (content.toList.drop first)).length := by
          rw [Text.length_splitChars]
          omega
        obtain ⟨whole, hwhole, -⟩ := Text.exists_piece_of_append_right
          (List.getElem?_eq_getElem hlength) (content.toList.take first)
        rw [List.take_append_drop] at hwhole
        subst k
        refine .of_piece hwhole ?_
        rw [← Option.some.inj hpiece]
        exact List.nil_infix
      · exact absurd hpiece (by simp)

theorem forall₂_standsOn_slice {content : String} {s : Span} (hs : s.Of content) :
    List.Forall₂ (StandsOn content) (Text.split '\n' (slice content s)) (rowsOf content s) := by
  rw [List.forall₂_iff_get]
  refine ⟨by rw [rowsOf, List.length_range'], ?_⟩
  intro k hk hk'
  have hrow : (rowsOf content s).get ⟨k, hk'⟩ = s.start.row + k := by
    simp [rowsOf]
  rw [hrow]
  exact standsOn_slice hs (List.getElem?_eq_getElem hk)

end Survey
end CodeAtlas
