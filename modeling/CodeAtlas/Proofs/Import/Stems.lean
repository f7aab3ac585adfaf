import CodeAtlas.Proofs.FilePaths
import CodeAtlas.Proofs.Import.Sorted
import CodeAtlas.Proofs.Text.Rows

/-!
# Files that complete a stem

An import mostly leaves the extension of a file out.  What it names is then the stem of the file, and
the file is one of the languages whose extensions are tried: the language of the import itself, or
another one of its family.
-/

namespace CodeAtlas

namespace Text

theorem join_ne_empty {separator : String} (hseparator : separator ≠ "") {pieces : List String}
    (hne : pieces ≠ []) (hlone : pieces ≠ [""]) : join separator pieces ≠ "" := by
  have hchars : separator.toList ≠ [] := fun hnil => hseparator (String.toList_injective hnil)
  rw [join, Ne, String.ofList_eq_empty_iff]
  rcases pieces with _ | ⟨piece, _ | ⟨other, pieces⟩⟩
  · exact absurd rfl hne
  · intro hnil
    obtain rfl : piece = "" := String.toList_injective hnil
    exact hlone rfl
  · rw [List.map_cons, joinChars_cons _ _ (by simp)]
    simp [hchars]

end Text

namespace Path

theorem render_body (p : String) : render (isRooted p) (body p) = p := by
  apply String.toList_injective
  rw [render, String.toList_ofList, body, isRooted, rawSegments]
  cases hp : p.toList with
  | nil => rfl
  | cons c cs =>
      by_cases hc : c = '/'
      · subst hc
        exact congrArg ('/' :: ·) (Text.joinChars_splitChars '/' cs)
      · have hrooted : ((c :: cs).head? == some '/') = false := by simpa using hc
        rw [hrooted]
        exact Text.joinChars_splitChars '/' (c :: cs)

/-- A tail without a slash only makes the last segment of a path longer. -/
theorem exists_segments_append (p : String) {tail : String} (h : '/' ∉ tail.toList) :
    isRooted (p ++ tail) = isRooted p ∧
      ∃ before behind last, rawSegments (p ++ tail) = before ++ [last ++ tail.toList] ∧
        body p = behind ++ [last] ∧ body (p ++ tail) = behind ++ [last ++ tail.toList] := by
  have happend : (p ++ tail).toList = p.toList ++ tail.toList := String.toList_append
  have hsplit := Text.exists_splitChars_append_of_not_mem h
  rw [body, body, isRooted, isRooted, rawSegments, rawSegments, happend]
  cases hp : p.toList with
  | nil =>
      have hrooted : (tail.toList.head? == some '/') = false := by
        rw [beq_eq_false_iff_ne]
        exact fun hhead => h (List.mem_of_mem_head? hhead)
      rw [List.nil_append, hrooted, Text.splitChars_of_not_mem h]
      exact ⟨rfl, [], [], [], rfl, rfl, rfl⟩
  | cons c cs =>
      by_cases hc : c = '/'
      · subst hc
        obtain ⟨before, last, hcs, htail⟩ := hsplit cs
        refine ⟨rfl, [] :: before, before, last, ?_, hcs, htail⟩
        exact congrArg ([] :: ·) htail
      · obtain ⟨before, last, hcs, htail⟩ := hsplit (c :: cs)
        have hrooted : (some c == some '/') = false := by simpa using hc
        simp only [List.cons_append, List.head?_cons, hrooted]
        exact ⟨trivial, before, before, last, htail, hcs, htail⟩

theorem trimSegments_of_names (rooted : Bool) {segments : List (List Char)} {segment : List Char}
    (h : names segment = true) :
    trimSegments rooted (segments ++ [segment]) = segments ++ [segment] := by
  have hkept : ((segments ++ [segment]).reverse.dropWhile fun s => !names s).reverse =
      segments ++ [segment] := by
    rw [List.reverse_append, List.reverse_singleton, List.singleton_append,
      List.dropWhile_cons_of_neg (by simp [h]), List.reverse_cons, List.reverse_reverse]
  rw [trimSegments, hkept]
  intro _ hnil
  exact absurd (hkept.symm.trans hnil) (by simp)

/-- The stem of a file of a known language is not empty. -/
theorem fileStem?_getD_ne_empty {path : String}
    (h : (Language.ofPath? path).isSome = true) : (fileStem? path).getD path ≠ "" := by
  rw [Language.ofPath?, extension?] at h
  rw [fileStem?]
  cases hname : fileName? path with
  | none =>
      rw [hname] at h
      exact absurd h (by decide)
  | some file =>
      rw [hname, Option.bind_some] at h
      rw [Option.map_some, Option.getD_some]
      have hunknown : (Language.ofExtension? "").isSome = false := by decide
      rw [cutExtension] at h ⊢
      split at h
      case h_3 hnil hlone => exact Text.join_ne_empty (by decide) hnil hlone
      all_goals exact absurd h (by simp [hunknown])

/-- A file name is cut at its last dot, unless that opens it. -/
theorem cutExtension_append (segment : List Char) {extension : List Char}
    (h : '.' ∉ extension) :
    cutExtension (String.ofList (segment ++ '.' :: extension)) =
      if segment = [] then (String.ofList ('.' :: extension), none)
      else (String.ofList segment, some (String.ofList extension)) := by
  have hpieces : Text.split '.' (String.ofList (segment ++ '.' :: extension)) =
      (Text.splitChars '.' segment).map String.ofList ++ [String.ofList extension] := by
    rw [Text.split, String.toList_ofList, Text.splitChars_append_cons,
      Text.splitChars_of_not_mem h, List.map_append]
    rfl
  have hjoin : Text.join "." ((Text.splitChars '.' segment).map String.ofList) =
      String.ofList segment := by
    rw [Text.join, Text.map_toList_ofList]
    exact congrArg String.ofList (Text.joinChars_splitChars '.' segment)
  rw [cutExtension, hpieces, List.dropLast_concat, List.getLast?_concat]
  split
  next hnil => exact absurd (List.map_eq_nil_iff.mp hnil) (Text.splitChars_ne_nil '.' segment)
  next hopen =>
    have hsegment : segment = [] := by
      rw [hopen, show Text.join "." [""] = "" from rfl] at hjoin
      simpa using congrArg String.toList hjoin.symm
    rw [if_pos hsegment, hsegment]
    rfl
  next before after hafter hnil hopen =>
    have hsegment : segment ≠ [] := by
      rintro rfl
      exact hopen rfl
    rw [if_neg hsegment, hjoin, hafter]
  next hnone _ _ => exact absurd hnone (by simp)

/-- A path with a known extension is a stem, a dot and the extension. -/
theorem extension?_withoutExtension_append {stem extension : String}
    (hdot : '.' ∉ extension.toList) (hslash : '/' ∉ extension.toList) (hne : extension ≠ "")
    (hsome : (extension? (stem ++ ("." ++ extension))).isSome = true) :
    extension? (stem ++ ("." ++ extension)) = some extension ∧
      withoutExtension (stem ++ ("." ++ extension)) = stem := by
  have htail : ("." ++ extension).toList = '.' :: extension.toList := String.toList_append
  have hslash' : '/' ∉ ("." ++ extension).toList := by
    rw [htail]
    simpa using hslash
  obtain ⟨hrooted, before, behind, last, hraw, hbody, hbody'⟩ :=
    exists_segments_append stem hslash'
  rw [htail] at hraw hbody'
  have hpos : 0 < extension.toList.length :=
    List.length_pos_iff.mpr fun hnil => hne (String.toList_injective hnil)
  have hlong : ∀ ds : List Char, ds.length < 2 → last ++ '.' :: extension.toList ≠ ds := by
    rintro _ hlength rfl
    rw [List.length_append, List.length_cons] at hlength
    omega
  have hnames : names (last ++ '.' :: extension.toList) = true := by
    simp [names, hlong [] (by decide), hlong ['.'] (by decide)]
  have hup : last ++ '.' :: extension.toList ≠ ['.', '.'] := by
    intro hdots
    have hlength := congrArg List.length hdots
    rw [List.length_append, List.length_cons] at hlength
    obtain rfl : last = [] := List.length_eq_zero_iff.mp (by simp at hlength; omega)
    rw [List.nil_append, List.cons.injEq] at hdots
    exact hdot (by simp [hdots.2])
  have hname := fileName?_of_rawSegments hraw hnames hup (hlong ['/'] (by decide))
  rw [extension?, hname, Option.bind_some, cutExtension_append last hdot] at hsome ⊢
  have hlast : last ≠ [] := by
    rintro rfl
    exact absurd hsome (by simp)
  rw [if_neg hlast, String.ofList_toList]
  refine ⟨rfl, ?_⟩
  rw [withoutExtension, fileStem?, hname, Option.map_some, cutExtension_append last hdot,
    if_neg hlast]
  simp only [hbody', trimSegments_of_names _ hnames, List.dropLast_concat, String.toList_ofList,
    hrooted]
  rw [← hbody, render_body]

end Path

namespace Language

/-- Files of the two languages may use each other: they are of one language or of one family. -/
def compatible (l l' : Language) : Bool := l == l' || l.isScript && l'.isScript

/-- The extensions that are tried for an import belong to compatible languages. -/
theorem exists_compatible_of_mem {language : Language} {extension : String}
    (h : extension ∈ language.importExtensions) :
    ∃ l, ofExtension? extension = some l ∧ language.compatible l = true := by
  have hall : ∀ e ∈ language.importExtensions, (ofExtension? e).any language.compatible = true := by
    cases language <;> decide
  exact (Option.any_eq_true _ _).mp (hall extension h)

theorem importExtensions_plain {language : Language} {extension : String}
    (h : extension ∈ language.importExtensions) :
    '.' ∉ extension.toList ∧ '/' ∉ extension.toList ∧ extension ≠ "" := by
  revert extension
  cases language <;> decide

end Language

namespace Import
namespace Resolver

variable {r : Resolver} {language : Language} {path stem : String}

theorem mem_filesWithStem : path ∈ r.filesWithStem stem ↔
    path ∈ r.files ∧ Path.withoutExtension path = stem := by
  rw [filesWithStem, List.mem_filter, beq_iff_eq]

/-- A stem that is completed by an extension is that of a file of a compatible language. -/
theorem exists_of_completes (hfiles : ∀ f ∈ r.files, (Language.ofPath? f).isSome = true)
    (h : r.completes language stem = true) :
    ∃ f ∈ r.filesWithStem stem, ∃ l, Language.ofPath? f = some l ∧
      language.compatible l = true := by
  obtain ⟨extension, hextension, hmem⟩ := List.any_eq_true.mp h
  rw [List.contains_iff_mem, String.append_assoc] at hmem
  obtain ⟨hdot, hslash, hne⟩ := Language.importExtensions_plain hextension
  have hsome : (Path.extension? (stem ++ ("." ++ extension))).isSome = true := by
    have hlanguage := hfiles _ hmem
    rw [Language.ofPath?] at hlanguage
    cases hnone : Path.extension? (stem ++ ("." ++ extension)) with
    | some _ => rfl
    | none =>
        rw [hnone] at hlanguage
        exact absurd hlanguage (by decide)
  obtain ⟨hext, hstem⟩ := Path.extension?_withoutExtension_append hdot hslash hne hsome
  obtain ⟨l, hl, hcompatible⟩ := Language.exists_compatible_of_mem hextension
  refine ⟨_, mem_filesWithStem.mpr ⟨hmem, hstem⟩, l, ?_, hcompatible⟩
  rw [Language.ofPath?, hext, Option.getD_some, hl]

/-- A path names a file as it stands, or it or the file of the folder is found with an extension. -/
theorem stemAt?_cases (h : r.stemAt? language path = some stem) :
    (path ∈ r.files ∧ Path.withoutExtension path = stem) ∨
      r.completes language stem = true ∧
        (stem = path ∨ ∃ ending, language.indexEnding? = some ending ∧ stem = path ++ ending) := by
  rw [stemAt?] at h
  split at h
  next hfile => exact Or.inl ⟨List.contains_iff_mem.mp hfile, Option.some.inj h⟩
  next =>
    split at h
    next hcompletes =>
      obtain rfl := Option.some.inj h
      exact Or.inr ⟨hcompletes, Or.inl rfl⟩
    next =>
      split at h
      next => exact absurd h (by simp)
      next ending hending =>
        split at h
        next hcompletes =>
          obtain rfl := Option.some.inj h
          exact Or.inr ⟨hcompletes, Or.inr ⟨ending, hending, rfl⟩⟩
        next => exact absurd h (by simp)

theorem stemEnding?_eq_some (h : r.stemEnding? path = some stem) :
    Text.endsWith stem ("/" ++ Text.trimStartOf '/' path) = true ∧
      ∃ f, f ∈ r.filesWithStem stem := by
  rw [stemEnding?] at h
  refine ⟨by simpa using List.find?_some h, ?_⟩
  obtain ⟨f, hf, hstem⟩ := List.mem_map.mp (mem_sorted.mp (List.mem_of_find?_eq_some h))
  exact ⟨f, mem_filesWithStem.mpr ⟨hf, hstem⟩⟩

end Resolver
end Import
end CodeAtlas
