import CodeAtlas.Proofs.Relocation.Resolving
import CodeAtlas.Proofs.Walk.Roots
import CodeAtlas.Walk

/-!
# Files below a folder

What a walk finds in a folder and what is read there depends on the folder, and not on the path by
which it was reached: the paths of the files to be indexed are those below the folder, with the lead
of the folder in front, and each of them is read from the folder on.
-/

namespace CodeAtlas

/-! ## Replaced characters and endings -/

namespace Text

theorem replaceChar_append (old new : Char) (s s' : String) :
    replaceChar old new (s ++ s') = replaceChar old new s ++ replaceChar old new s' := by
  apply String.toList_injective
  simp [replaceChar]

theorem replaceChar_of_not_mem {old : Char} (new : Char) {s : String} (h : old ∉ s.toList) :
    replaceChar old new s = s := by
  apply String.toList_injective
  rw [replaceChar, String.toList_ofList]
  exact (List.map_congr_left fun c hc => if_neg (ne_of_mem_of_not_mem hc h)).trans (List.map_id _)

/-- An ending without slashes stands in the last segment. -/
theorem endsWith_append_of_not_mem {ending : String} (h : '/' ∉ ending.toList) (front rest : String) :
    endsWith (front ++ ("/" ++ rest)) ending = endsWith ("/" ++ rest) ending := by
  have hrest : ∀ front : List Char, ending.toList <:+ front ++ '/' :: rest.toList ↔
      ending.toList <:+ rest.toList := by
    intro front
    refine ⟨fun hends => ?_, fun hends => hends.trans ?_⟩
    · rcases List.suffix_or_suffix_of_suffix hends (List.suffix_append front ('/' :: rest.toList))
        with hshort | hlong
      · rcases List.suffix_cons_iff.mp hshort with hwhole | hrest
        · exact absurd (hwhole ▸ List.mem_cons_self) h
        · exact hrest
      · exact absurd (hlong.subset List.mem_cons_self) h
    · exact (List.suffix_cons '/' rest.toList).trans (List.suffix_append front _)
  rw [endsWith, endsWith, Bool.eq_iff_iff, List.isSuffixOf_iff_suffix, List.isSuffixOf_iff_suffix,
    String.toList_append, Path.toList_slash_append, hrest]
  exact (hrest []).symm

end Text

/-! ## Reading from a folder on -/

namespace Trail

/-- The bytes of a file whose path is written from the folder on. -/
def read? (t : Trail) (path : String) : Option ByteArray :=
  match t.walk? (Disk.segments path), (Disk.segments path).getLast? with
  | none, some last =>
    if Text.endsWith path "/" then none
    else (t.walk? (Disk.segments path).dropLast).bind fun u => Entry.file? u.entries last
  | _, _ => none

end Trail

theorem Disk.read?_eq (d : Disk) (path : String) : d.read? path = d.start.read? path := by
  rw [read?, locate?, Trail.read?]
  cases d.start.walk? (segments path) with
  | some t => rfl
  | none =>
      cases (segments path).getLast? with
      | none => rfl
      | some last =>
          cases Text.endsWith path "/" with
          | true => rfl
          | false =>
              cases d.start.walk? (segments path).dropLast with
              | none => rfl
              | some t => cases hfile : Entry.file? t.entries last <;> simp [hfile]

theorem Disk.segments_append (front : String) {p : String} (hp : Path.isRooted p = true) :
    segments (front ++ p) = segments front ++ segments p := by
  obtain ⟨rest, rfl⟩ := Path.exists_of_isRooted hp
  rw [← String.append_assoc, segments, Path.rawSegments_append_slash, List.filter_append,
    List.map_append, segments, segments, Path.rawSegments_slash_append,
    List.filter_cons_of_neg (by decide)]

/-- A path that goes on behind a folder is read from that folder on. -/
theorem Trail.read?_append {t u : Trail} {front p : String}
    (hfront : t.walk? (Disk.segments front) = some u) (hp : Path.isRooted p = true)
    (hnamed : Disk.segments p ≠ []) : t.read? (front ++ p) = u.read? p := by
  have hends : Text.endsWith (front ++ p) "/" = Text.endsWith p "/" := by
    rw [Bool.eq_iff_iff, Path.endsWith_slash_iff, Path.endsWith_slash_iff, String.toList_append,
      List.getLast?_append_of_ne_nil _ (by simpa using Path.ne_empty_of_isRooted hp)]
  rw [read?, read?, Disk.segments_append front hp, hends, walk?_append, hfront, Option.bind_some,
    List.getLast?_append_of_ne_nil _ hnamed, List.dropLast_append_of_ne_nil hnamed, walk?_append,
    hfront, Option.bind_some]

/-! ## What a walk finds -/

namespace Walk

variable {g : Guide}

mutual

theorem exists_of_mem_filesIn (levels : List Level) (way : String) (e : Entry) {path : String}
    (h : path ∈ filesIn g levels way e) :
    ∃ tail, path = way ++ e.name ++ tail ∧ (tail = "" ∨ Path.isRooted tail = true) := by
  match e with
  | .file name content =>
      exact ⟨"", by simpa [filesIn, Entry.name] using h, .inl rfl⟩
  | .folder name entries =>
      rw [filesIn] at h
      obtain ⟨d, -, tail, rfl, -⟩ := exists_of_mem_filesAmong _ _ entries h
      refine ⟨"/" ++ (d.name ++ tail), ?_, .inr (Path.isRooted_slash_append _)⟩
      rw [Entry.name, ← String.append_assoc, ← String.append_assoc]

/-- The path of a file that a walk finds goes through one of the entries. -/
theorem exists_of_mem_filesAmong (levels : List Level) (way : String) (entries : List Entry)
    {path : String} (h : path ∈ filesAmong g levels way entries) :
    ∃ e ∈ entries, ∃ tail, path = way ++ e.name ++ tail ∧
      (tail = "" ∨ Path.isRooted tail = true) := by
  match entries with
  | [] => exact absurd h (by simp [filesAmong])
  | e :: rest =>
      have hlater : path ∈ filesAmong g levels way rest → ∃ d ∈ e :: rest, ∃ tail,
          path = way ++ d.name ++ tail ∧ (tail = "" ∨ Path.isRooted tail = true) := by
        intro hmem
        obtain ⟨d, hd, htail⟩ := exists_of_mem_filesAmong levels way rest hmem
        exact ⟨d, List.mem_cons_of_mem e hd, htail⟩
      rw [filesAmong] at h
      split at h
      next => exact hlater h
      next =>
        rcases List.mem_append.mp h with hhere | hmem
        · exact ⟨e, List.mem_cons_self, exists_of_mem_filesIn levels way e hhere⟩
        · exact hlater hmem

end

/-- The name of an entry starts at its folder and names something. -/
structure IsProper (e : Entry) : Prop where
  unrooted : Path.isRooted e.name = false
  named : Disk.segments (Text.replaceChar '\\' '/' e.name) ≠ []

/-- The path of a file below a folder, written from the folder on. -/
structure IsBelow (path : String) : Prop where
  rooted : Path.isRooted path = true
  named : Disk.segments path ≠ []

theorem IsBelow.exists_mem_body {path : String} (h : IsBelow path) :
    ∃ s ∈ Path.body path, Path.names s = true := by
  obtain ⟨s, hs⟩ := List.exists_mem_of_ne_nil _ h.named
  rw [Disk.segments, Path.rawSegments_of_isRooted h.rooted,
    List.filter_cons_of_neg (by decide)] at hs
  obtain ⟨segment, hmem, -⟩ := List.mem_map.mp hs
  exact ⟨segment, List.mem_filter.mp hmem⟩

/-- Whether a file is to be indexed does not depend on where its folder is. -/
theorem IsBelow.isSource_under {front path : String} (h : IsBelow path)
    (hfront : Path.IsFront front) : isSource (Path.under front path) = isSource path := by
  have hgenerated : isGenerated (Path.under front path) = isGenerated path := by
    have hslashless : ∀ ending ∈ generatedEndings, '/' ∉ ending.toList := by decide
    obtain ⟨rest, hrest⟩ := Path.exists_of_isRooted h.rooted
    rw [Path.under_of_isRooted h.rooted, isGenerated, isGenerated, hrest, Bool.eq_iff_iff,
      List.any_eq_true, List.any_eq_true]
    refine exists_congr fun ending => and_congr_right fun hending => ?_
    rw [Text.endsWith_append_of_not_mem (hslashless ending hending)]
  rw [isSource, isSource, hgenerated, hfront.ofPath?_under h.rooted h.exists_mem_body]

/-- The paths of the files that a walk finds in a folder. -/
def found (g : Guide) (t : Trail) : List String :=
  filesAmong g (levelsOf g.settings t) "" t.entries

/-- A path that a walk found, written from the folder on. -/
def fromFolder (path : String) : String := "/" ++ Text.replaceChar '\\' '/' path

/-- The paths of the files below a folder that are to be indexed, written from the folder on. -/
def below (g : Guide) (t : Trail) : List String :=
  (((found g t).map fromFolder).filter isSource).mergeSort fun a b => decide (a ≤ b)

section Folder

variable {disk : Disk} {root path : String} {t : Trail}

theorem isBelow_of_mem_found (ht : ∀ e ∈ t.entries, IsProper e) (h : path ∈ found g t) :
    Path.isRooted path = false ∧ IsBelow (fromFolder path) := by
  obtain ⟨e, he, tail, rfl, htail⟩ := exists_of_mem_filesAmong _ _ _ h
  obtain ⟨hunrooted, hnamed⟩ := ht e he
  have hne : e.name ≠ "" := by
    intro hempty
    rw [hempty] at hnamed
    exact hnamed (by decide)
  rw [String.empty_append, fromFolder, Text.replaceChar_append]
  refine ⟨by rw [Path.isRooted_append, if_neg hne, hunrooted], Path.isRooted_slash_append _, ?_⟩
  have hname : Disk.segments ("/" ++ Text.replaceChar '\\' '/' e.name) ≠ [] := by
    rw [Disk.segments, Path.rawSegments_slash_append, List.filter_cons_of_neg (by decide)]
    exact hnamed
  rw [← String.append_assoc]
  rcases htail with rfl | hrooted
  · rw [Text.replaceChar_of_not_mem (s := "") '/' (by simp), String.append_empty]
    exact hname
  · obtain ⟨rest, rfl⟩ := Path.exists_of_isRooted hrooted
    rw [Text.replaceChar_append, Text.replaceChar_of_not_mem (s := "/") '/' (by decide),
      Disk.segments_append _ (Path.isRooted_slash_append _)]
    exact List.append_ne_nil_of_left_ne_nil hname _

theorem isFile_of_mem_below (ht : ∀ e ∈ t.entries, IsProper e) (h : path ∈ below g t) :
    IsBelow path ∧ Path.IsFile path := by
  rw [below, List.mem_mergeSort, List.mem_filter] at h
  obtain ⟨foundPath, hfound, rfl⟩ := List.mem_map.mp h.1
  have hpath := (isBelow_of_mem_found ht hfound).2
  exact ⟨hpath, hpath.rooted, (Bool.and_eq_true_iff.mp h.2).2⟩

/-- The files to be indexed are those below the folder, with its lead in front. -/
theorem sources_eq (hne : root ≠ "") (hfront : Path.IsFront (Path.lead root))
    (hslash : '\\' ∉ root.toList) (hleads : disk.locate? root = some (.folder t))
    (ht : ∀ e ∈ t.entries, IsProper e) :
    sources disk g root = (below g t).map (Path.under (Path.lead root)) := by
  have hlead : '\\' ∉ (Path.lead root).toList := by
    rcases Path.eq_lead_or root with hends | ⟨hsame, -⟩
    · rw [hends, String.toList_append, List.mem_append, not_or] at hslash
      exact hslash.1
    · rw [← hsame]
      exact hslash
  have hpaths : (allFiles disk g root).map (Text.replaceChar '\\' '/') =
      ((found g t).map fromFolder).map (Path.under (Path.lead root)) := by
    rw [allFiles, hleads, List.map_map, List.map_map]
    refine List.map_congr_left fun path hpath => ?_
    obtain ⟨hunrooted, hbelow⟩ := isBelow_of_mem_found ht hpath
    rw [Function.comp_apply, Function.comp_apply, Path.append_eq_lead hne hunrooted,
      Path.under_of_isRooted hbelow.rooted, Text.replaceChar_append, Text.replaceChar_append,
      Text.replaceChar_of_not_mem '/' hlead, Text.replaceChar_of_not_mem (s := "/") '/' (by decide),
      String.append_assoc, fromFolder]
  have hsources : ∀ path ∈ (found g t).map fromFolder,
      isSource (Path.under (Path.lead root) path) = isSource path := by
    intro path hpath
    obtain ⟨foundPath, hfound, rfl⟩ := List.mem_map.mp hpath
    exact (isBelow_of_mem_found ht hfound).2.isSource_under hfront
  -- a front does not change the order of paths
  have hle : ∀ a b, decide (a ≤ b) =
      decide (Path.under (Path.lead root) a ≤ Path.under (Path.lead root) b) := fun a b =>
    decide_eq_decide.mpr hfront.strictMono_under.le_iff_le.symm
  rw [sources, below, hpaths, List.filter_map,
    List.map_mergeSort (s := fun a b => decide (a ≤ b)) fun a _ b _ => hle a b]
  exact congrArg (fun paths : List String =>
    (paths.map (Path.under (Path.lead root))).mergeSort fun a b => decide (a ≤ b))
      (List.filter_congr hsources)

end Folder

/-! ## Reading what was found -/

/-- What is read of files below a folder does not depend on the front of their paths. -/
theorem exists_readAll_under (disk : Disk) (t : Trail) (paths : List String) :
    ∃ files unreadable, (∀ f ∈ files, f.path ∈ paths) ∧
      ∀ front, (∀ path ∈ paths, disk.read? (Path.under front path) = t.read? path) →
        readAll disk (paths.map (Path.under front)) = (Index.filesUnder front files, unreadable) := by
  induction paths with
  | nil => exact ⟨[], 0, by simp, fun _ _ => rfl⟩
  | cons path paths ih =>
      obtain ⟨files, unreadable, hpaths, hread⟩ := ih
      have hlater : ∀ f ∈ files, f.path ∈ path :: paths := fun f hf =>
        List.mem_cons_of_mem path (hpaths f hf)
      cases htext : (t.read? path).bind String.fromUTF8? with
      | some content =>
          refine ⟨⟨path, content⟩ :: files, unreadable,
            List.forall_mem_cons.mpr ⟨List.mem_cons_self, hlater⟩, fun front hfront => ?_⟩
          rw [List.forall_mem_cons] at hfront
          rw [List.map_cons, readAll, hread front hfront.2, hfront.1, htext]
          rfl
      | none =>
          refine ⟨files, unreadable + 1, hlater, fun front hfront => ?_⟩
          rw [List.forall_mem_cons] at hfront
          rw [List.map_cons, readAll, hread front hfront.2, hfront.1, htext]

theorem path_mem_of_mem_readAll {disk : Disk} {paths : List String} {f : SourceFile}
    (h : f ∈ (readAll disk paths).1) : f.path ∈ paths := by
  obtain ⟨files, unreadable, hpaths, hread⟩ := exists_readAll_under disk disk.start paths
  have hempty := hread "" fun path _ => by rw [Path.under_empty, disk.read?_eq]
  have hsame : paths.map (Path.under "") = paths :=
    (List.map_congr_left fun path _ => Path.under_empty path).trans (List.map_id paths)
  rw [hsame, Index.filesUnder_empty] at hempty
  rw [hempty] at h
  exact hpaths f h

end Walk
end CodeAtlas
