import CodeAtlas.Proofs.Entity.Redaction
import CodeAtlas.Proofs.Uses
import CodeAtlas.Proofs.Uses.Windows

/-!
# Rows of the analysed text

The text of an entity is changed in five ways before uses are looked for in it, and none of them
moves a row.  Placeholders have the row ends of the bodies, and words are replaced by words on one
row: an alias by a name, the own object by a class, and a variable by what is left of a right-hand
side once its blanks are single spaces.  Only the class around a Java definition adds a row, the
last one.  So a use is reported on a line of the entity, or of that last row.
-/

namespace CodeAtlas

namespace Text

theorem rowEnds_replaceWord {word replacement : String} (hword : '\n' ∉ word.toList)
    (hreplacement : '\n' ∉ replacement.toList) (text : String) :
    rowEnds (replaceWord word replacement text) = rowEnds text := by
  rw [replaceWord]
  split
  next => rfl
  next hempty =>
    have hne : word.toList ≠ [] := by simpa [String.isEmpty_iff] using hempty
    rw [rowEnds, String.toList_ofList, count_replaceWordFrom hne hword hreplacement, List.drop_zero,
      rowEnds]

/-- Runs between blanks have no blanks. -/
theorem isBlank_of_mem_blankSeparatedChars (cs : List Char) :
    ∀ run ∈ blankSeparatedChars cs, ∀ c ∈ run, isBlank c = false := by
  fun_induction blankSeparatedChars cs with
  | case1 => simp
  | case2 c rest _ ih => exact ih
  | case3 c hc _ => simpa using hc
  | case4 c hc d rest _ ih => exact List.forall_mem_cons.mpr ⟨by simpa using hc, ih⟩
  | case5 c hc d rest _ hruns _ =>
      rw [hruns]
      simpa using hc
  | case6 c hc d rest _ run others hruns ih =>
      rw [hruns, List.forall_mem_cons] at ih
      rw [hruns, List.forall_mem_cons, List.forall_mem_cons]
      exact ⟨⟨by simpa using hc, ih.1⟩, ih.2⟩

theorem mem_joinChars {separator : List Char} {pieces : List (List Char)} {c : Char}
    (h : c ∈ joinChars separator pieces) : c ∈ separator ∨ ∃ piece ∈ pieces, c ∈ piece := by
  fun_induction joinChars separator pieces with
  | case1 => exact absurd h (by simp)
  | case2 piece => exact Or.inr ⟨piece, List.mem_cons_self, h⟩
  | case3 piece pieces _ ih =>
      rw [List.mem_append, List.mem_append] at h
      rcases h with (h | h) | h
      · exact Or.inr ⟨piece, List.mem_cons_self, h⟩
      · exact Or.inl h
      · obtain hc | ⟨other, hother, hc⟩ := ih h
        · exact Or.inl hc
        · exact Or.inr ⟨other, List.mem_cons_of_mem piece hother, hc⟩

end Text

/-- What the statement names is written on one row. -/
structure Import.Statement.Unbroken (i : Import.Statement) : Prop where
  module : '\n' ∉ i.module.toList
  moduleAlias : '\n' ∉ i.moduleAlias.toList
  names : ∀ n ∈ i.names, '\n' ∉ n.name.toList ∧ '\n' ∉ n.otherName.toList

theorem Import.Statement.Unbroken.renamings {i : Import.Statement} (h : i.Unbroken) :
    ∀ r ∈ i.renamings, '\n' ∉ r.1.toList ∧ '\n' ∉ r.2.toList := by
  have hnamed : ∀ r ∈ i.names.filterMap (fun n =>
      if !n.otherName.isEmpty && n.otherName != n.name then some (n.otherName, n.name) else none),
      '\n' ∉ r.1.toList ∧ '\n' ∉ r.2.toList := by
    intro r hr
    obtain ⟨n, hn, heq⟩ := List.mem_filterMap.mp hr
    obtain ⟨-, heq⟩ := Option.ite_none_right_eq_some.mp heq
    obtain rfl := Option.some.inj heq
    exact (h.names n hn).symm
  intro r hr
  simp only [Import.Statement.renamings] at hr
  split at hr
  · rcases List.mem_append.mp hr with hr | hr
    · exact hnamed r hr
    · obtain rfl := List.mem_singleton.mp hr
      exact ⟨h.moduleAlias, h.module⟩
  · exact hnamed r hr

namespace Uses

/-! ## Replacing names -/

theorem rowEnds_replaceAliases {imports : List Import.Statement}
    (himports : ∀ i ∈ imports, i.Unbroken) (text : String) :
    Text.rowEnds (replaceAliases imports text) = Text.rowEnds text := by
  refine List.foldlRecOn (motive := fun t => Text.rowEnds t = Text.rowEnds text) _ _ rfl ?_
  intro t ht r hr
  obtain ⟨i, hi, hr⟩ := List.mem_flatMap.mp hr
  obtain ⟨hword, hreplacement⟩ := (himports i hi).renamings r hr
  rw [Text.rowEnds_replaceWord hword hreplacement, ht]

theorem newline_not_mem_selfWord {language : Language} {word : String}
    (h : language.selfWord? = some word) : '\n' ∉ word.toList := by
  cases language <;> simp only [Language.selfWord?, Option.some.injEq, reduceCtorEq] at h <;>
    subst h <;> decide

theorem rowEnds_replaceSelf (language : Language) (e : Entity) {parent : Option Entity}
    (hparent : ∀ owner, parent = some owner → owner.kind.isClassLike = true →
      '\n' ∉ owner.name.toList) (text : String) :
    Text.rowEnds (replaceSelf language e parent text) = Text.rowEnds text := by
  unfold replaceSelf
  split
  next owner word hword =>
    split
    next hmethod =>
      rw [Bool.and_eq_true] at hmethod
      exact Text.rowEnds_replaceWord (newline_not_mem_selfWord hword)
        (hparent owner rfl hmethod.2) text
    next => rfl
  next => rfl

/-! ## Putting a text into a frame -/

/-- The rows that are added to the text of a definition that does not stand alone. -/
def addedRows (language : Language) (kind : EntityKind) : Nat :=
  if language = .java ∧ kind ∉ [.file, .interface, .enum, .cls] then 1 else 0

theorem rowEnds_wrap (language : Language) (kind : EntityKind) (text : String) :
    Text.rowEnds (wrap language kind text) = Text.rowEnds text + addedRows language kind := by
  have hfunction : Text.rowEnds "function " = 0 := rfl
  have hopening : Text.rowEnds "class __scope__ \x7b " = 0 := rfl
  have hclosing : Text.rowEnds "\n\x7d" = 1 := rfl
  have htag : Text.rowEnds "<?php " = 0 := rfl
  cases language <;> cases kind <;>
    simp [wrap, addedRows, Text.rowEnds_append, hfunction, hopening, hclosing, htag]

theorem rowEnds_prepare (s : Scope) (e : Entity) (children : List Entity) {parent : Option Entity}
    (himports : ∀ i ∈ s.imports, i.Unbroken)
    (hparent : ∀ owner, parent = some owner → owner.kind.isClassLike = true →
      '\n' ∉ owner.name.toList) :
    Text.rowEnds (prepare s e children parent) =
      Text.rowEnds e.source + addedRows s.language e.kind := by
  rw [prepare, rowEnds_wrap, rowEnds_replaceSelf s.language e hparent,
    rowEnds_replaceAliases himports, Entity.rowEnds_analysisText]

/-! ## Replacing variables -/

/-- What a right-hand side comes down to stands on one row. -/
theorem newline_not_mem_of_plainName? {text name : String} (h : plainName? text = some name) :
    '\n' ∉ name.toList := by
  simp only [plainName?, Option.bind_eq_bind, Option.bind_eq_some_iff] at h
  obtain ⟨kept, -, hname⟩ := h
  obtain ⟨-, hname⟩ := Option.ite_none_left_eq_some.mp hname
  obtain rfl := Option.some.inj hname
  rw [String.toList_ofList]
  intro hmem
  obtain hspace | ⟨run, hrun, hmem⟩ := Text.mem_joinChars hmem
  · exact absurd hspace (by decide)
  · exact absurd (Text.isBlank_of_mem_blankSeparatedChars kept run hrun '\n' hmem) (by decide)

theorem newline_not_mem_of_mem_windows {language : Language} {text right : String} {w : Window}
    (hw : w ∈ windows language text) (hright : w.right = some right) : '\n' ∉ right.toList := by
  rw [windows, Window.ofAssignments, Window.foldl_add] at hw
  obtain ⟨a, ha, -, hsame⟩ := Window.exists_of_mem_ended hw
  obtain ⟨captures, -, ha⟩ := List.mem_filterMap.mp (List.mem_mergeSort.mp ha)
  obtain ⟨left, -, ha⟩ := Option.bind_eq_some_iff.mp ha
  obtain ⟨value, -, ha⟩ := Option.bind_eq_some_iff.mp ha
  obtain rfl := Option.some.inj ha
  obtain ⟨hname, -⟩ := Option.filter_eq_some_iff.mp (hsame.symm.trans hright)
  exact newline_not_mem_of_plainName? hname

/-- Windows that put in words on one row keep the number of rows. -/
theorem rowEnds_applyWindows (text : String) {ws : List Window}
    (hws : ∀ w ∈ ws, ∀ right, w.right = some right → '\n' ∉ right.toList) :
    Text.rowEnds (applyWindows text ws) = Text.rowEnds text := by
  rw [applyWindows]
  split
  next => rfl
  next =>
    have hrows : ∀ row ∈ Text.split '\n' text, '\n' ∉ row.toList :=
      fun row => Text.newline_not_mem_of_mem_split
    have hordered : ∀ w ∈ (ws.filter (·.right.isSome)).mergeSort (fun a b => b.start ≤ a.start),
        ∀ right, w.right = some right → '\n' ∉ right.toList := fun w hw =>
      hws w (List.mem_of_mem_filter (List.mem_mergeSort.mp hw))
    have hjoin := Text.rowEnds_join (foldl_applyWindow_ne_nil (Text.split_ne_nil '\n' text) _)
      (newline_not_mem_foldl_applyWindow hordered hrows)
    rw [length_foldl_applyWindow, Text.length_split] at hjoin
    exact Nat.add_right_cancel hjoin

/-! ## Reported lines -/

/-- A use of an entity with a number of rows as it should be reported: of another entity that a name
in scope stands for, on lines of the entity, each once and in order. -/
structure Reported (s : Scope) (e : Entity) (rows : Nat) (use : String × List Nat) : Prop where
  target : ∃ name, s.names.find? name = some use.1
  other : use.1 ≠ e.id
  lines_ne_nil : use.2 ≠ []
  increasing : use.2.Pairwise (· < ·)
  within : ∀ line ∈ use.2, e.span.start.row + 1 ≤ line ∧ line ≤ e.span.start.row + 1 + rows

theorem reported_ofCaptures (s : Scope) (e : Entity) {captures : List Capture} {rows : Nat}
    (hrows : ∀ c ∈ captures, c.span.start.row ≤ rows) :
    ∀ use ∈ (ofCaptures s e captures).entries, Reported s e rows use := by
  have hnames : s.names.StandFor fun id => ∃ name, s.names.find? name = some id :=
    fun name id hid => ⟨name, hid⟩
  have hreports : ReportsHave (fun target line => (∃ name, s.names.find? name = some target) ∧
      target ≠ e.id ∧ e.span.start.row + 1 ≤ line ∧ line ≤ e.span.start.row + 1 + rows)
      (ofCaptures s e captures) := by
    refine ofCaptures_induction (motive := ReportsHave _) s e captures ?_ ?_
    · exact fun use huse => absurd huse (by simp [Table.empty])
    · intro t ht c hc token _ target htarget hne
      have hrow := hrows c hc
      exact ht.addLine ⟨hnames.resolve? htarget, hne, by omega, by omega⟩
  intro use huse
  obtain ⟨hne, hlines⟩ := hreports use huse
  obtain ⟨line, hline⟩ := List.exists_mem_of_ne_nil use.2 hne
  obtain ⟨htarget, hother, -⟩ := hlines line hline
  exact ⟨htarget, hother, hne, pairwise_ofCaptures s e captures use huse,
    fun line hline => (hlines line hline).2.2⟩

/-- What is captured in a text starts on one of its rows. -/
theorem row_le_of_mem_all {language : Language} {text : String} {purpose : Catalogue.Purpose}
    {c : Capture} (h : c ∈ (Capture.all (Syntax.parse language text) purpose).flatten) :
    c.span.start.row ≤ Text.rowEnds text := by
  obtain ⟨found, hfound, hc⟩ := List.mem_flatten.mp h
  obtain ⟨m, -, rfl⟩ := List.mem_map.mp hfound
  obtain ⟨l, -, rfl⟩ := List.mem_map.mp hc
  exact (Span.of_span rfl l.site).start_row_le_rowEnds

/-- The text in which uses of an entity are looked for has the rows of its source, and one more
where a Java definition is put into a class.  Whatever is captured on these rows, every use that is
reported is one of another entity in scope, on lines of the entity; in particular what is captured
in the text. -/
theorem analysed_rows (s : Scope) (e : Entity) (children : List Entity) {parent : Option Entity}
    (himports : ∀ i ∈ s.imports, i.Unbroken)
    (hparent : ∀ owner, parent = some owner → owner.kind.isClassLike = true →
      '\n' ∉ owner.name.toList) :
    Text.rowEnds (analysed s e children parent) =
        Text.rowEnds e.source + addedRows s.language e.kind ∧
      (∀ captures : List Capture,
        (∀ c ∈ captures, c.span.start.row ≤ Text.rowEnds (analysed s e children parent)) →
        ∀ use ∈ (ofCaptures s e captures).entries,
          Reported s e (Text.rowEnds (analysed s e children parent)) use) ∧
      ∀ use ∈ (find s e children parent).entries,
        Reported s e (Text.rowEnds (analysed s e children parent)) use := by
  refine ⟨?_, fun captures hrows => reported_ofCaptures s e hrows,
    reported_ofCaptures s e fun c hc => row_le_of_mem_all hc⟩
  rw [analysed, rowEnds_applyWindows _ fun w hw right => newline_not_mem_of_mem_windows hw,
    rowEnds_prepare s e children himports hparent]

/-- A file of which two methods are known, and that imports a class with a method under an alias. -/
def javaScope : Scope where
  language := .java
  names :=
    let own := (Names.empty.define "A.f" "/A.java::A.f").define "A.g" "/A.java::A.g"
    own.importAs "B.h" "/B.java::B.h"
  imports := [⟨"b", "", [⟨"B", "C", ""⟩], "", "", default, default, false⟩]

/-- A method that calls itself and the others. -/
def javaMethod : Entity :=
  { Entity.ofCode "/A.java::A.f" .method .java
      "int f() \x7b\n  C.h(this.f());\n  return C.h(this.g());\n\x7d" with
    name := "A.f"
    span := ⟨20, 75, ⟨4, 2⟩, ⟨7, 3⟩⟩ }

/-- The calls of the method, as they are captured in the prepared text. -/
def javaCalls : List Capture :=
  let call (text : String) (row : Nat) : Capture :=
    ⟨"identifier.name", text, ⟨0, 0, ⟨row, 0⟩, ⟨row, 0⟩⟩, false⟩
  [call "B.h" 2, call "A.f" 1, call "B.h" 1, call "A.g" 2, call "B.h" 2]

/-- The text of the method has one more row than its source, and each of the other methods is
reported on the lines of its calls. -/
theorem analysed_rows_java :
    let owner : Entity := { Entity.ofCode "/A.java::A" .cls .java "" with name := "A" }
    Text.rowEnds (analysed javaScope javaMethod [] (some owner)) = 4 ∧
      (ofCaptures javaScope javaMethod javaCalls).entries =
        [("/A.java::A.g", [7]), ("/B.java::B.h", [6, 7])] ∧
      ∀ use ∈ (ofCaptures javaScope javaMethod javaCalls).entries,
        Reported javaScope javaMethod 4 use := by
  intro owner
  have himports : ∀ i ∈ javaScope.imports, i.Unbroken := by
    intro i hi
    obtain rfl := List.mem_singleton.mp hi
    exact ⟨by decide, by decide, by decide⟩
  have hparent : ∀ o, some owner = some o → o.kind.isClassLike = true → '\n' ∉ o.name.toList := by
    rintro o heq -
    obtain rfl := Option.some.inj heq
    decide
  obtain ⟨hrows, hreported, -⟩ := analysed_rows javaScope javaMethod [] himports hparent
  have hfour : Text.rowEnds (analysed javaScope javaMethod [] (some owner)) = 4 :=
    hrows.trans (by decide +kernel)
  rw [hfour] at hreported
  exact ⟨hfour, by decide +kernel, hreported javaCalls (by decide +kernel)⟩

end Uses
end CodeAtlas
