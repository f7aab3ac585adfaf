import CodeAtlas.Proofs.Import.Stems

/-!
# Normal paths

A path that starts at the root and is its own normal form is known by its segments: each of them
names something, none goes up, and none holds a slash.  On such paths the lexical rules are plain
operations on lists.  The folder of a file is what stands before its last segment, its stem is cut
off in the last segment only, and a relative path starts from the segments of the folder that it is
put behind.
-/

namespace CodeAtlas

namespace Text

/-- Joining fewer pieces gives a beginning. -/
theorem joinChars_prefix_append (separator : List Char) (pieces others : List (List Char)) :
    joinChars separator pieces <+: joinChars separator (pieces ++ others) := by
  by_cases hpieces : pieces = []
  · rw [hpieces]
    exact List.nil_prefix
  · by_cases hothers : others = []
    · rw [hothers, List.append_nil]
    · rw [joinChars_append separator hpieces hothers, List.append_assoc]
      exact List.prefix_append _ _

end Text

namespace Path

variable {p : String} {segments folder : List (List Char)} {segment file : List Char}

/-- A segment that stands for a file or a folder. -/
structure IsSegment (segment : List Char) : Prop where
  named : names segment = true
  stays : segment ≠ ['.', '.']
  slashless : '/' ∉ segment

instance (segment : List Char) : Decidable (IsSegment segment) :=
  decidable_of_iff (names segment = true ∧ segment ≠ ['.', '.'] ∧ '/' ∉ segment)
    ⟨fun h => ⟨h.1, h.2.1, h.2.2⟩, fun h => ⟨h.named, h.stays, h.slashless⟩⟩

/-- The path starts at the root and is its own normal form. -/
def IsNormal (p : String) : Prop := isRooted p = true ∧ normalize p = p

instance (p : String) : Decidable (IsNormal p) :=
  inferInstanceAs (Decidable (isRooted p = true ∧ normalize p = p))

/-- A text with neither slashes nor dots is a segment. -/
theorem isSegment_of_plain (hne : segment ≠ []) (hslash : '/' ∉ segment) (hdot : '.' ∉ segment) :
    IsSegment segment := by
  refine ⟨?_, ?_, hslash⟩
  · have hopen : segment ≠ ['.'] := by
      rintro rfl
      exact hdot List.mem_cons_self
    simp [names, hne, hopen]
  · rintro rfl
    exact hdot List.mem_cons_self

theorem slashless_concat (hfolder : ∀ s ∈ folder, IsSegment s) (hfile : '/' ∉ file) :
    ∀ s ∈ folder ++ [file], '/' ∉ s :=
  List.forall_mem_append.mpr
    ⟨fun s hs => (hfolder s hs).slashless, List.forall_mem_singleton.mpr hfile⟩

theorem IsSegment.ne_nil (h : IsSegment segment) : segment ≠ [] := by
  rintro rfl
  exact absurd h.named (by decide)

/-! ## Segments of a normal path -/

theorem isRooted_render (segments : List (List Char)) : isRooted (render true segments) = true := by
  simp [isRooted, render]

theorem render_ne_empty (segments : List (List Char)) : render true segments ≠ "" := by
  intro hempty
  have hrooted := isRooted_render segments
  rw [hempty] at hrooted
  exact absurd hrooted (by decide)

theorem rawSegments_render (hne : segments ≠ []) (h : ∀ s ∈ segments, '/' ∉ s) :
    rawSegments (render true segments) = [] :: segments := by
  rw [rawSegments, render, String.toList_ofList, if_pos rfl, Text.splitChars, if_pos rfl,
    Text.splitChars_joinChars hne h]

theorem body_render (hne : segments ≠ []) (h : ∀ s ∈ segments, '/' ∉ s) :
    body (render true segments) = segments := by
  rw [body, if_pos (isRooted_render segments), rawSegments_render hne h]
  rfl

theorem rawSegments_append_slash (front last : String) :
    rawSegments (front ++ "/" ++ last) = rawSegments front ++ rawSegments last := by
  have hchars : (front ++ "/" ++ last).toList = front.toList ++ '/' :: last.toList := by
    rw [String.toList_append, String.toList_append, List.append_assoc]
    rfl
  rw [rawSegments, hchars, Text.splitChars_append_cons, rawSegments, rawSegments]

theorem rawSegments_append_segment (front : String) {last : String} (h : '/' ∉ last.toList) :
    rawSegments (front ++ "/" ++ last) = rawSegments front ++ [last.toList] := by
  rw [rawSegments_append_slash, rawSegments, rawSegments, Text.splitChars_of_not_mem h]

/-- Segments that stay are put one behind the other. -/
theorem foldl_pushSegment (h : ∀ s ∈ segments, IsSegment s) (sofar : List (List Char)) :
    segments.foldl pushSegment sofar = sofar ++ segments := by
  induction segments generalizing sofar with
  | nil => simp
  | cons s segments ih =>
      rw [List.forall_mem_cons] at h
      have hpush : pushSegment sofar s = sofar ++ [s] := by
        simp [pushSegment, h.1.named, h.1.stays]
      rw [List.foldl_cons, hpush, ih h.2, List.append_assoc, List.singleton_append]

theorem isSegment_of_mem_pushSegment {sofar : List (List Char)} {s : List Char}
    (hsofar : ∀ t ∈ sofar, IsSegment t) (hs : '/' ∉ s) :
    ∀ t ∈ pushSegment sofar s, IsSegment t := by
  rw [pushSegment]
  split
  next => exact hsofar
  next hnamed =>
    split
    next => exact fun t ht => hsofar t (List.mem_of_mem_dropLast ht)
    next hstays =>
      refine List.forall_mem_append.mpr ⟨hsofar, List.forall_mem_singleton.mpr ?_⟩
      exact ⟨by simpa using hnamed, by simpa using hstays, hs⟩

theorem isSegment_of_mem_normalSegments (p : String) : ∀ s ∈ normalSegments p, IsSegment s := by
  refine List.foldlRecOn (motive := fun sofar : List (List Char) => ∀ s ∈ sofar, IsSegment s)
    (rawSegments p) _ (by simp) ?_
  intro sofar hsofar s hs
  exact isSegment_of_mem_pushSegment hsofar (Text.separator_not_mem_of_mem_splitChars hs)

theorem normalSegments_render (h : ∀ s ∈ segments, IsSegment s) :
    normalSegments (render true segments) = segments := by
  by_cases hne : segments = []
  · subst hne
    decide
  · rw [normalSegments, rawSegments_render hne fun s hs => (h s hs).slashless, List.foldl_cons]
    exact foldl_pushSegment h []

/-- The normal paths are those that are made of segments. -/
theorem isNormal_iff_exists_segments :
    IsNormal p ↔ ∃ segments, (∀ s ∈ segments, IsSegment s) ∧ p = render true segments := by
  constructor
  · rintro ⟨hrooted, hnormal⟩
    refine ⟨normalSegments p, isSegment_of_mem_normalSegments p, ?_⟩
    rw [← hrooted]
    exact hnormal.symm
  · rintro ⟨segments, h, rfl⟩
    refine ⟨isRooted_render segments, ?_⟩
    rw [normalize, isRooted_render, normalSegments_render h]

/-! ## Folders -/

theorem trimSegments_of_isSegment (h : ∀ s ∈ folder, IsSegment s) :
    trimSegments true folder = folder := by
  rcases List.eq_nil_or_concat folder with rfl | ⟨before, last, rfl⟩
  · rfl
  · rw [List.concat_eq_append] at h ⊢
    exact trimSegments_of_names true (h last (by simp)).named

/-- The folder of a file is what stands before its last segment. -/
theorem parent?_render (hfolder : ∀ s ∈ folder, IsSegment s) (hfile : names file = true)
    (hslash : '/' ∉ file) :
    parent? (render true (folder ++ [file])) = some (render true folder) := by
  have hbody : body (render true (folder ++ [file])) = folder ++ [file] :=
    body_render (by simp) (slashless_concat hfolder hslash)
  simp only [parent?, isRooted_render, hbody, trimSegments_of_names true hfile]
  split
  next hnil => exact absurd hnil (by simp)
  next => rw [List.dropLast_concat, trimSegments_of_isSegment hfolder]

/-- Every normal path but the root is that of a file in a folder. -/
theorem IsNormal.exists_file (h : IsNormal p) (hroot : p ≠ "/") :
    ∃ folder file, (∀ s ∈ folder, IsSegment s) ∧ IsSegment file ∧
      p = render true (folder ++ [file]) := by
  obtain ⟨segments, hsegments, rfl⟩ := isNormal_iff_exists_segments.mp h
  rcases List.eq_nil_or_concat segments with rfl | ⟨folder, file, rfl⟩
  · exact absurd rfl hroot
  · rw [List.concat_eq_append, List.forall_mem_append, List.forall_mem_singleton] at hsegments
    exact ⟨folder, file, hsegments.1, hsegments.2, by rw [List.concat_eq_append]⟩

theorem same_render_empty (folder : List (List Char)) : same (render true folder) "" = false := by
  have hempty : components "" = [] := by decide
  rw [same, hempty, components, isRooted_render]
  rfl

/-! ## Stems -/

/-- Cutting an extension off leaves a beginning of the file name. -/
theorem prefix_cutExtension (file : String) : (cutExtension file).1.toList <+: file.toList := by
  rw [cutExtension]
  split
  case h_3 after hafter _ _ =>
    have hpieces : (Text.split '.' file).dropLast ++ [after] = Text.split '.' file :=
      List.dropLast_append_getLast? after hafter
    have hjoin : (Text.join "." (Text.split '.' file)).toList = file.toList := by
      rw [Text.join, Text.split, Text.map_toList_ofList, String.toList_ofList]
      exact Text.joinChars_splitChars '.' file.toList
    have hfront : (Text.join "." (Text.split '.' file).dropLast).toList <+:
        (Text.join "." (Text.split '.' file)).toList := by
      conv_rhs => rw [← hpieces]
      simp only [Text.join, String.toList_ofList, List.map_append]
      exact Text.joinChars_prefix_append _ _ _
    rw [hjoin] at hfront
    exact hfront
  all_goals exact List.prefix_rfl

/-- The stem of a file differs from its path in the last segment only. -/
theorem withoutExtension_render (hfolder : ∀ s ∈ folder, IsSegment s) (hfile : IsSegment file) :
    withoutExtension (render true (folder ++ [file])) =
      render true (folder ++ [(cutExtension (String.ofList file)).1.toList]) := by
  have hslash := slashless_concat hfolder hfile.slashless
  have hraw := rawSegments_render (by simp) hslash
  have hroot : file ≠ ['/'] := by
    rintro rfl
    exact hfile.slashless List.mem_cons_self
  rw [← List.cons_append] at hraw
  rw [withoutExtension, fileStem?, fileName?_of_rawSegments hraw hfile.named hfile.stays hroot,
    Option.map_some]
  simp only [isRooted_render, body_render (List.concat_ne_nil file folder) hslash,
    trimSegments_of_names true hfile.named, List.dropLast_concat]

/-- A file stands in the folder of its stem, if the stem ends in a segment. -/
theorem IsNormal.parent?_withoutExtension (h : IsNormal p) (hroot : p ≠ "/") {front last : String}
    (hlast : IsSegment last.toList) (hstem : withoutExtension p = front ++ "/" ++ last) :
    ∃ folder, parent? p = some (render true folder) ∧
      parent? (front ++ "/" ++ last) = some (render true folder) := by
  obtain ⟨folder, file, hfolder, hfile, rfl⟩ := h.exists_file hroot
  refine ⟨folder, parent?_render hfolder hfile.named hfile.slashless, ?_⟩
  rw [withoutExtension_render hfolder hfile] at hstem
  have hcut : '/' ∉ (cutExtension (String.ofList file)).1.toList := by
    intro hmem
    have hsub := (prefix_cutExtension (String.ofList file)).subset hmem
    rw [String.toList_ofList] at hsub
    exact hfile.slashless hsub
  have hraw := congrArg rawSegments hstem
  rw [rawSegments_append_segment front hlast.slashless,
    rawSegments_render (by simp) (slashless_concat hfolder hcut), ← List.cons_append] at hraw
  have hsame : (cutExtension (String.ofList file)).1.toList = last.toList :=
    List.singleton_inj.mp (List.append_inj' hraw (by simp)).2
  rw [← hstem, hsame]
  exact parent?_render hfolder hlast.named hlast.slashless

/-! ## Relative paths -/

/-- A path that ends in a slash has an empty segment at its end. -/
theorem endsWith_render (hne : folder ≠ []) (h : ∀ s ∈ folder, IsSegment s) :
    Text.endsWith (render true folder) "/" = false := by
  rw [Bool.eq_false_iff]
  intro hends
  obtain ⟨front, hfront⟩ : ['/'] <:+ (render true folder).toList := by
    simpa [Text.endsWith] using hends
  have hsegments := rawSegments_render hne fun s hs => (h s hs).slashless
  rw [rawSegments, ← hfront, Text.splitChars_append_cons] at hsegments
  have hlast : ([] :: folder).getLast? = some [] := by
    rw [← hsegments]
    exact List.getLast?_concat
  rw [List.getLast?_cons_of_ne_nil hne] at hlast
  exact (h [] (List.mem_of_getLast? hlast)).ne_nil rfl

theorem rawSegments_append_render (h : ∀ s ∈ folder, IsSegment s) (hp : isRooted p = false) :
    rawSegments (append (render true folder) p) = [] :: (folder ++ rawSegments p) := by
  rw [append, hp, if_neg (by simp)]
  by_cases hne : folder = []
  · subst hne
    have hroot : (render true [] ++ p).toList = '/' :: p.toList := String.toList_append
    rw [if_pos (by decide), rawSegments, hroot, Text.splitChars, if_pos rfl]
    rfl
  · rw [endsWith_render hne h, if_neg (by simp [render]), rawSegments_append_slash,
      rawSegments_render hne fun s hs => (h s hs).slashless, List.cons_append]

/-- Behind a folder, a relative path goes on from the segments of the folder. -/
theorem join_render (h : ∀ s ∈ folder, IsSegment s) (hp : isRooted p = false) :
    join (render true folder) p = render true ((rawSegments p).foldl pushSegment folder) := by
  have hraw := rawSegments_append_render h hp
  have hrooted : isRooted (append (render true folder) p) = true := by
    rw [append, hp, if_neg (by simp)]
    split <;> simp [isRooted, render]
  have hfolder : ([] :: folder).foldl pushSegment [] = folder := foldl_pushSegment h []
  rw [join, normalize, hrooted, normalSegments, hraw, ← List.cons_append, List.foldl_append,
    hfolder]

end Path
end CodeAtlas
