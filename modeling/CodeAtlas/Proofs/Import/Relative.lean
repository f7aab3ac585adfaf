import CodeAtlas.Proofs.Import.Repetition
import CodeAtlas.Proofs.NormalPaths

/-!
# Relative imports

A relative import leads from the folder of the importing file some folders up, and from there along
segments.  Scripts write `../` for each folder and slashes between the segments; where modules are
dotted, there is one dot more than there are folders, and dots stand between the segments.  Both
come down to one path, and its normal form behind the folder drops as many segments as there are
folders to go up.  The file that has this path but for its extension is the one that is found.
-/

namespace CodeAtlas

namespace Text

theorem repeated_succ (s : String) (n : Nat) : repeated s (n + 1) = s ++ repeated s n := by
  rw [repeated, List.replicate_succ, String.join_cons, repeated]

/-- Pieces that lack the old separator are joined by the new one in its place. -/
theorem map_joinChars {old : Char} (new : Char) {pieces : List (List Char)}
    (h : ∀ piece ∈ pieces, old ∉ piece) :
    (joinChars [old] pieces).map (fun c => if c = old then new else c) =
      joinChars [new] pieces := by
  have hkept : ∀ piece ∈ pieces, piece.map (fun c => if c = old then new else c) = piece := by
    intro piece hpiece
    refine (List.map_congr_left fun c hc => if_neg ?_).trans (List.map_id piece)
    rintro rfl
    exact h piece hpiece hc
  induction pieces with
  | nil => rfl
  | cons piece pieces ih =>
      rw [List.forall_mem_cons] at h hkept
      by_cases hlast : pieces = []
      · subst hlast
        exact hkept.1
      · rw [joinChars_cons _ _ hlast, joinChars_cons _ _ hlast, List.map_append, List.map_append,
          hkept.1, ih h.2 hkept.2]
        simp

end Text

namespace Path

/-- Going up from a folder takes segments away from its end. -/
theorem foldl_pushSegment_up (k : Nat) (folder : List (List Char)) :
    (List.replicate k ['.', '.']).foldl pushSegment folder = folder.take (folder.length - k) := by
  induction k generalizing folder with
  | zero => simp
  | succ k ih =>
      have hup : pushSegment folder ['.', '.'] = folder.dropLast := rfl
      rw [List.replicate_succ, List.foldl_cons, hup, ih, List.length_dropLast,
        List.dropLast_eq_take, List.take_take]
      congr 1
      omega

end Path

namespace Import

variable {language : Language} {k : Nat} {folder segments : List (List Char)}

/-- The path that goes `k` folders up and then along segments. -/
def relativePath (k : Nat) (segments : List (List Char)) : String :=
  (if k = 0 then "./" else Text.repeated "../" k) ++
    String.ofList (Text.joinChars ['/'] segments)

/-- The text of an import that goes `k` folders up and then along segments. -/
def relativeText (language : Language) (k : Nat) (segments : List (List Char)) : String :=
  match language with
  | .python => String.ofList (List.replicate (k + 1) '.' ++ Text.joinChars ['.'] segments)
  | _ => relativePath k segments

/-- The segments can be written in a relative import of the language. -/
def Spells (language : Language) (segments : List (List Char)) : Prop :=
  language.isScript = true ∨ language = .python ∧ ∀ segment ∈ segments, '.' ∉ segment

instance (language : Language) (segments : List (List Char)) :
    Decidable (Spells language segments) :=
  inferInstanceAs (Decidable (_ ∨ _ ∧ _))

/-! ## The path of a relative import -/

theorem splitChars_repeated_up (k : Nat) (cs : List Char) :
    Text.splitChars '/' ((Text.repeated "../" k).toList ++ cs) =
      List.replicate k ['.', '.'] ++ Text.splitChars '/' cs := by
  induction k with
  | zero => rfl
  | succ k ih =>
      have hchars : (Text.repeated "../" (k + 1)).toList ++ cs =
          ['.', '.'] ++ '/' :: ((Text.repeated "../" k).toList ++ cs) := by
        rw [Text.repeated_succ, String.toList_append]
        rfl
      rw [hchars, Text.splitChars_append_cons, ih, Text.splitChars_of_not_mem (by decide),
        List.replicate_succ]
      rfl

theorem rawSegments_relativePath (hne : segments ≠ []) (h : ∀ s ∈ segments, '/' ∉ s) :
    Path.rawSegments (relativePath k segments) =
      (if k = 0 then [['.']] else List.replicate k ['.', '.']) ++ segments := by
  rw [Path.rawSegments, relativePath, String.toList_append, String.toList_ofList]
  split
  next =>
    have hdot : "./".toList ++ Text.joinChars ['/'] segments =
        ['.'] ++ '/' :: Text.joinChars ['/'] segments := rfl
    rw [hdot, Text.splitChars_append_cons, Text.splitChars_joinChars hne h]
    rfl
  next => rw [splitChars_repeated_up, Text.splitChars_joinChars hne h]

theorem startsWith_relativePath (k : Nat) (segments : List (List Char)) :
    Text.startsWith (relativePath k segments) "./" = true ∨
      Text.startsWith (relativePath k segments) "../" = true := by
  cases k with
  | zero => exact Or.inl (by simp [relativePath, Text.startsWith])
  | succ k =>
      refine Or.inr ?_
      rw [relativePath, if_neg (Nat.succ_ne_zero k), Text.repeated_succ, Text.startsWith,
        String.append_assoc, String.toList_append]
      exact List.isPrefixOf_iff_prefix.mpr (List.prefix_append _ _)

theorem head?_relativePath (k : Nat) (segments : List (List Char)) :
    (relativePath k segments).toList.head? = some '.' := by
  rcases startsWith_relativePath k segments with h | h
  all_goals
    obtain ⟨rest, hrest⟩ := List.isPrefixOf_iff_prefix.mp h
    rw [← hrest]
    rfl

/-- Behind a folder, the path leads to the folder that lies `k` levels higher and on from there. -/
theorem join_relativePath (hfolder : ∀ s ∈ folder, Path.IsSegment s) (hne : segments ≠ [])
    (h : ∀ s ∈ segments, Path.IsSegment s) :
    Path.join (Path.render true folder) (relativePath k segments) =
      Path.render true (folder.take (folder.length - k) ++ segments) := by
  have hrooted : Path.isRooted (relativePath k segments) = false := by
    rw [Path.isRooted, head?_relativePath]
    rfl
  rw [Path.join_render hfolder hrooted,
    rawSegments_relativePath hne fun s hs => (h s hs).slashless, List.foldl_append,
    Path.foldl_pushSegment h]
  split
  next hk =>
    subst hk
    simp [Path.pushSegment, Path.names]
  next => rw [Path.foldl_pushSegment_up]

/-- The opening dots are told from the segments, and the other dots become slashes. -/
theorem dottedPath_relativeText (hne : segments ≠ []) (h : ∀ s ∈ segments, Path.IsSegment s)
    (hdots : ∀ s ∈ segments, '.' ∉ s) :
    dottedPath (relativeText .python k segments) = relativePath k segments := by
  obtain ⟨c, rest, hc, hjoin⟩ :
      ∃ c rest, c ≠ '.' ∧ Text.joinChars ['.'] segments = c :: rest := by
    obtain ⟨segment, others, rfl⟩ := List.exists_cons_of_ne_nil hne
    obtain ⟨c, tail, rfl⟩ := List.exists_cons_of_ne_nil (h segment List.mem_cons_self).ne_nil
    refine ⟨c, ?_⟩
    obtain ⟨rest, hrest⟩ := Text.joinChars_prefix_append ['.'] [c :: tail] others
    refine ⟨tail ++ rest, ?_, hrest.symm⟩
    rintro rfl
    exact hdots _ List.mem_cons_self List.mem_cons_self
  have htake : (List.replicate (k + 1) '.' ++ Text.joinChars ['.'] segments).takeWhile (· == '.') =
      List.replicate (k + 1) '.' := by
    rw [List.takeWhile_append_of_pos (by simp), hjoin,
      List.takeWhile_cons_of_neg (by simpa using hc), List.append_nil]
  have hdrop : (List.replicate (k + 1) '.' ++ Text.joinChars ['.'] segments).drop (k + 1) =
      Text.joinChars ['.'] segments := List.drop_left' List.length_replicate
  have hslashes := Text.map_joinChars '/' hdots
  have hempty : (String.ofList (Text.joinChars ['/'] segments)).isEmpty = false := by
    rw [← hslashes, hjoin, String.isEmpty_eq_false_iff, Ne, String.ofList_eq_empty_iff]
    exact List.cons_ne_nil _ _
  simp only [dottedPath, relativeText, String.toList_ofList, htake, List.length_replicate, hdrop,
    Text.replaceChar, hslashes, hempty]
  cases k with
  | zero => rfl
  | succ k => rfl

theorem pathOfModule?_relativeText (hne : segments ≠ []) (h : ∀ s ∈ segments, Path.IsSegment s)
    (hspells : Spells language segments) :
    pathOfModule? language (relativeText language k segments) =
      some (relativePath k segments, .relative) := by
  have hempty : (relativePath k segments).isEmpty = false := by
    rw [String.isEmpty_eq_false_iff]
    intro hempty
    have hhead := head?_relativePath k segments
    rw [hempty] at hhead
    exact absurd hhead (by decide)
  have hanchor : (relativePath k segments == "." || relativePath k segments == ".." ||
      Text.startsWith (relativePath k segments) "./" ||
      Text.startsWith (relativePath k segments) "../") = true := by
    rcases startsWith_relativePath k segments with hup | hup <;> simp [hup]
  rcases hspells with hscript | ⟨rfl, hdots⟩
  · cases language
    case javascript | typescript | tsx => simp [pathOfModule?, relativeText, hempty, hanchor]
    all_goals exact absurd hscript (by decide)
  · simp only [pathOfModule?, dottedPath_relativeText hne h hdots, hempty, hanchor]
    rfl

/-! ## The file that is found -/

namespace Resolver

variable {r : Resolver} {path : String}

/-- A path that is not a file itself is the stem of the file that completes it. -/
theorem stemAt?_of_mem {extension : String} (hextension : extension ∈ language.importExtensions)
    (hmem : path ++ "." ++ extension ∈ r.files) (hnot : path ∉ r.files) :
    r.stemAt? language path = some path := by
  have hcompletes : r.completes language path = true :=
    List.any_eq_true.mpr ⟨extension, hextension, List.contains_iff_mem.mpr hmem⟩
  rw [stemAt?, if_neg (by simpa using hnot), if_pos hcompletes]

/-- A module that is found gives the statement its path. -/
theorem path_resolve_of_moduleStem? {importer text stem : String} {anchor : Anchor} {s : Statement}
    (hmodule : pathOfModule? language s.module = some (text, anchor))
    (hstem : r.moduleStem? importer language text anchor = some stem) (hne : stem ≠ "") :
    (r.resolve importer language s).path = stem := by
  rw [resolve_eq hmodule, hstem]
  dsimp only
  rw [withSubpaths_eq]
  exact foldl_filledBy_of_ne_empty _ hne s.names

/-- From every file, the text that goes `k` folders up and along segments leads to the file with
this path but for its extension. -/
theorem resolve_relativeText {root : String} {files : List String} {file : List Char}
    {extension : String} {s : Statement} (hfolder : ∀ segment ∈ folder, Path.IsSegment segment)
    (hfile : Path.IsSegment file) (hne : segments ≠ [])
    (hsegments : ∀ segment ∈ segments, Path.IsSegment segment) (hspells : Spells language segments)
    (hextension : extension ∈ language.importExtensions)
    (hmem : Path.render true (folder.take (folder.length - k) ++ segments) ++ "." ++ extension ∈
      files)
    (hnot : Path.render true (folder.take (folder.length - k) ++ segments) ∉ files)
    (hmodule : s.module = relativeText language k segments) :
    let found := (ofFiles root files).resolve (Path.render true (folder ++ [file])) language s
    found.path = Path.render true (folder.take (folder.length - k) ++ segments) ∧
      succeeds language found = true := by
  intro found
  have htext : pathOfModule? language s.module = some (relativePath k segments, .relative) := by
    rw [hmodule, pathOfModule?_relativeText hne hsegments hspells]
  have hbase : Path.join ((Path.parent? (Path.render true (folder ++ [file]))).getD "/")
      (relativePath k segments) =
        Path.render true (folder.take (folder.length - k) ++ segments) := by
    rw [Path.parent?_render hfolder hfile.named hfile.slashless, Option.getD_some,
      join_relativePath hfolder hne hsegments]
  have hstem : (ofFiles root files).moduleStem? (Path.render true (folder ++ [file])) language
      (relativePath k segments) .relative =
        some (Path.render true (folder.take (folder.length - k) ++ segments)) := by
    rw [moduleStem?, bases, hbase, List.findSome?_singleton,
      stemAt?_of_mem hextension (mem_sorted.mpr hmem) (fun h => hnot (mem_sorted.mp h))]
  have hpath : found.path = _ :=
    path_resolve_of_moduleStem? htext hstem (Path.render_ne_empty _)
  refine ⟨hpath, ?_⟩
  rw [succeeds, module_resolve, htext, Statement.isResolved, hpath]
  simp [Path.render_ne_empty]

theorem resolve_relativeText_twoUp :
    let found := (ofFiles "/r" ["/r/a/b/m.py", "/r/lib/util.py"]).resolve "/r/a/b/m.py" .python
      { (default : Statement) with module := "...lib.util" }
    found.path = "/r/lib/util" ∧ succeeds .python found = true :=
  resolve_relativeText (k := 2)
    (by decide : ∀ segment ∈ [['r'], ['a'], ['b']], Path.IsSegment segment)
    (by decide : Path.IsSegment ['m', '.', 'p', 'y'])
    (by decide : [['l', 'i', 'b'], ['u', 't', 'i', 'l']] ≠ []) (by decide) (by decide)
    (by decide : "py" ∈ Language.importExtensions .python) (by decide) (by decide) (by decide)

end Resolver
end Import
end CodeAtlas
