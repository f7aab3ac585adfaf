import CodeAtlas.Proofs.NormalPaths
import CodeAtlas.Proofs.Table
import Mathlib.Data.List.DropRight

/-!
# Paths that are written from a folder on

A path below a folder can be written from the folder on: `/a/b.py` is then the file `b.py` in its
folder `a`, and what stands in front says where the folder is.  Nothing that is read off the path of
a file depends on the front, apart from the front itself: the file name is the same, and the stem
and the folder of the file have the same front.  The front does not change the order of texts
either, so that a table keeps the order of its entries.
-/

namespace CodeAtlas

namespace Path

variable {front p q : String}

/-! ## Fronts -/

/-- The path with a front, if it is written from a folder on; any other text stays as it is. -/
def under (front p : String) : String := if isRooted p then front ++ p else p

/-- The path of a folder with a front; the folder where the paths start has no slash at its end,
unless it is the top of all folders. -/
def folderUnder (front p : String) : String :=
  if p = "/" ∧ front ≠ "" then front else under front p

/-- The segments of a front. -/
def steps (front : String) : List (List Char) := (rawSegments front).drop 1

/-- A text that can stand in front of paths: it is empty or the path of a folder, without a slash
at its end, and no double colon cuts it. -/
structure IsFront (front : String) : Prop where
  rooted : front = "" ∨ isRooted front = true
  trimmed : render true (trimSegments true (steps front)) = folderUnder front "/"
  uncut : colonFree front

theorem under_empty (p : String) : under "" p = p := by
  rw [under, String.empty_append, ite_self]

theorem folderUnder_empty (p : String) : folderUnder "" p = p := by
  rw [folderUnder, if_neg (by simp), under_empty]

theorem IsFront.empty : IsFront "" := ⟨.inl rfl, by decide, by decide⟩

theorem exists_of_isRooted (h : isRooted p = true) : ∃ rest, p = "/" ++ rest := by
  rw [isRooted] at h
  cases hp : p.toList with
  | nil => simp [hp] at h
  | cons c cs =>
      obtain rfl : c = '/' := by simpa [hp] using h
      refine ⟨String.ofList cs, String.toList_injective ?_⟩
      simp [hp]

theorem toList_slash_append (rest : String) : ("/" ++ rest).toList = '/' :: rest.toList :=
  String.toList_append

theorem isRooted_slash_append (rest : String) : isRooted ("/" ++ rest) = true := by
  rw [isRooted, toList_slash_append]
  rfl

theorem rawSegments_slash_append (rest : String) :
    rawSegments ("/" ++ rest) = [] :: rawSegments rest := by
  rw [rawSegments, toList_slash_append, Text.splitChars, if_pos rfl, rawSegments]

theorem rawSegments_of_isRooted (h : isRooted p = true) : rawSegments p = [] :: body p := by
  obtain ⟨rest, rfl⟩ := exists_of_isRooted h
  rw [body, if_pos h, rawSegments_slash_append, List.drop_one, List.tail_cons]

theorem isRooted_append (p q : String) :
    isRooted (p ++ q) = if p = "" then isRooted q else isRooted p := by
  split
  next hp => rw [hp, String.empty_append]
  next hp =>
    obtain ⟨c, cs, hcs⟩ : ∃ c cs, p.toList = c :: cs :=
      List.exists_cons_of_ne_nil (by simpa using hp)
    simp [isRooted, hcs]

theorem ne_empty_of_isRooted (h : isRooted p = true) : p ≠ "" := by
  rintro rfl
  exact absurd h (by decide)

theorem under_of_isRooted (h : isRooted p = true) : under front p = front ++ p := by
  rw [under, if_pos h]

theorem under_of_not_isRooted (h : isRooted p = false) : under front p = p := by
  rw [under, h, if_neg (by simp)]

/-- A text behind a path that goes on in its last segment does not see the front. -/
theorem under_append (front p : String) {tail : String} (h : isRooted tail = false) :
    under front (p ++ tail) = under front p ++ tail := by
  have hrooted : isRooted (p ++ tail) = isRooted p := by
    rw [isRooted_append]
    split
    next hp => rw [h, hp]; rfl
    next => rfl
  rw [under, under, hrooted]
  split
  next => rw [String.append_assoc]
  next => rfl

theorem IsFront.isRooted_under (h : IsFront front) (p : String) :
    isRooted (under front p) = isRooted p := by
  rw [under]
  split
  next hp =>
    rw [isRooted_append, hp]
    rcases h.rooted with hempty | hrooted
    · rw [if_pos hempty]
    · rw [hrooted, ite_self]
  next => rfl

/-! ## Order -/

theorem append_lt_append_iff (front p q : String) : front ++ p < front ++ q ↔ p < q := by
  rw [String.lt_iff_toList_lt, String.lt_iff_toList_lt, String.toList_append, String.toList_append]
  induction front.toList with
  | nil => rfl
  | cons c cs ih => rw [List.cons_append, List.cons_append, List.cons_lt_cons_self, ih]

/-- How a path compares with another text depends on its first character only. -/
theorem lt_congr_of_isRooted {p' : String} (hp : isRooted p = true) (hp' : isRooted p' = true)
    (hq : isRooted q = false) : (p < q ↔ p' < q) ∧ (q < p ↔ q < p') := by
  obtain ⟨rest, rfl⟩ := exists_of_isRooted hp
  obtain ⟨rest', rfl⟩ := exists_of_isRooted hp'
  have hchars : ∀ rest : String, ("/" ++ rest).toList = '/' :: rest.toList :=
    fun rest => String.toList_append
  simp only [String.lt_iff_toList_lt, hchars]
  cases hcs : q.toList with
  | nil => simp
  | cons c cs =>
      have hc : c ≠ '/' := by simpa [isRooted, hcs] using hq
      simp [List.cons_lt_cons_iff, hc, hc.symm]

theorem IsFront.strictMono_under (h : IsFront front) : StrictMono (under front) := by
  intro p q hlt
  have hrooted := h.isRooted_under
  cases hp : isRooted p with
  | true =>
      cases hq : isRooted q with
      | true =>
          rw [under_of_isRooted hp, under_of_isRooted hq]
          exact (append_lt_append_iff front p q).mpr hlt
      | false =>
          rw [under_of_not_isRooted hq]
          exact (lt_congr_of_isRooted hp ((hrooted p).trans hp) hq).1.mp hlt
  | false =>
      rw [under_of_not_isRooted hp]
      cases hq : isRooted q with
      | true => exact (lt_congr_of_isRooted hq ((hrooted q).trans hq) hp).2.mp hlt
      | false => rwa [under_of_not_isRooted hq]

theorem IsFront.under_injective (h : IsFront front) : Function.Injective (under front) :=
  h.strictMono_under.injective

/-! ## Segments -/

theorem IsFront.rawSegments_eq (h : IsFront front) : rawSegments front = [] :: steps front := by
  rcases h.rooted with rfl | hrooted
  · rfl
  · rw [steps, rawSegments_of_isRooted hrooted, List.drop_one, List.tail_cons]

theorem IsFront.body_under (h : IsFront front) (hp : isRooted p = true) :
    body (under front p) = steps front ++ body p := by
  have hrooted : isRooted (under front p) = true := (h.isRooted_under p).trans hp
  have hraw : rawSegments (under front p) = rawSegments front ++ body p := by
    rw [under_of_isRooted hp]
    obtain ⟨rest, rfl⟩ := exists_of_isRooted hp
    have hbody := rawSegments_of_isRooted hp
    rw [rawSegments_slash_append] at hbody
    rw [← String.append_assoc, rawSegments_append_slash, List.tail_eq_of_cons_eq hbody]
  rw [h.rawSegments_eq, rawSegments_of_isRooted hrooted, List.cons_append] at hraw
  exact List.tail_eq_of_cons_eq hraw

theorem components_of_isRooted (hp : isRooted p = true) :
    components p = ['/'] :: (body p).filter names := by
  rw [components, if_pos hp, rawSegments_of_isRooted hp, List.filter_cons_of_neg (by decide)]

theorem IsFront.components_under (h : IsFront front) (hp : isRooted p = true) :
    components (under front p) =
      ['/'] :: ((steps front).filter names ++ (body p).filter names) := by
  rw [components_of_isRooted ((h.isRooted_under p).trans hp), h.body_under hp, List.filter_append]

/-- Segments behind those of a front are a path with that front. -/
theorem IsFront.render_steps_append (h : IsFront front) {segments : List (List Char)}
    (hne : segments ≠ []) : render true (steps front ++ segments) = front ++ render true segments := by
  rcases h.rooted with rfl | hrooted
  · rw [String.empty_append]
    rfl
  · have hsteps : steps front = body front := by rw [steps, body, if_pos hrooted]
    have hfront : render true (steps front) = front := by rw [hsteps, ← hrooted, render_body]
    have hsome : steps front ≠ [] := by
      obtain ⟨rest, rfl⟩ := exists_of_isRooted hrooted
      rw [steps, rawSegments_slash_append]
      exact Text.splitChars_ne_nil '/' rest.toList
    conv_rhs => rw [← hfront]
    apply String.toList_injective
    simp [render, Text.joinChars_append ['/'] hsome hne]

/-- Segments that name nothing are dropped at the end of a path. -/
theorem trimSegments_eq_rdropWhile (segments : List (List Char)) :
    trimSegments true segments = segments.rdropWhile fun s => !names s := by
  simp only [trimSegments]
  split
  next rest hkept => exact hkept.symm
  next => rfl

theorem trimSegments_append {segments others : List (List Char)}
    (h : ∃ s ∈ others, names s = true) :
    trimSegments true (segments ++ others) = segments ++ trimSegments true others := by
  have hsome : (others.reverse.dropWhile fun s => !names s).isEmpty = false := by
    rw [List.isEmpty_eq_false_iff]
    intro hnil
    have hall := List.rdropWhile_eq_nil_iff.mp (congrArg List.reverse hnil)
    obtain ⟨s, hs, hnames⟩ := h
    simpa [hnames] using hall s hs
  rw [trimSegments_eq_rdropWhile, trimSegments_eq_rdropWhile, List.rdropWhile, List.reverse_append,
    List.dropWhile_append, hsome, if_neg (by simp), List.reverse_append, List.reverse_reverse]
  rfl

theorem trimSegments_append_of_unnamed {segments others : List (List Char)}
    (h : ¬ ∃ s ∈ others, names s = true) :
    trimSegments true (segments ++ others) = trimSegments true segments := by
  have hnone : (others.reverse.dropWhile fun s => !names s) = [] := by
    rw [List.dropWhile_eq_nil_iff]
    intro s hs
    by_contra hnames
    exact h ⟨s, List.mem_reverse.mp hs, by simpa using hnames⟩
  rw [trimSegments_eq_rdropWhile, trimSegments_eq_rdropWhile, List.rdropWhile, List.reverse_append,
    List.dropWhile_append, hnone, List.isEmpty_nil, if_pos rfl]
  rfl

theorem trimSegments_eq_nil_iff {segments : List (List Char)} :
    trimSegments true segments = [] ↔ ¬ ∃ s ∈ segments, names s = true := by
  rw [trimSegments_eq_rdropWhile, List.rdropWhile_eq_nil_iff]
  simp

theorem exists_mem_trimSegments {segments : List (List Char)} (h : ∃ s ∈ segments, names s = true) :
    ∃ s ∈ trimSegments true segments, s ≠ [] := by
  have hne : trimSegments true segments ≠ [] := fun hnil => trimSegments_eq_nil_iff.mp hnil h
  rw [trimSegments_eq_rdropWhile] at hne ⊢
  refine ⟨_, List.getLast_mem hne, ?_⟩
  intro hnil
  have hlast := List.rdropWhile_last_not _ _ hne
  rw [hnil] at hlast
  exact hlast (by decide)

/-! ## Files -/

/-- The path of a file of a known language, written from a folder on. -/
structure IsFile (p : String) : Prop where
  rooted : isRooted p = true
  known : (Language.ofPath? p).isSome = true

theorem IsFile.named (h : IsFile p) : (fileName? p).isSome = true := by
  rw [Option.isSome_iff_ne_none]
  intro hnone
  have hknown := h.known
  rw [Language.ofPath?, extension?, hnone] at hknown
  exact absurd hknown (by decide)

theorem IsFile.exists_mem_body (h : IsFile p) : ∃ s ∈ body p, names s = true := by
  by_contra hnone
  have hbody : (body p).filter names = [] :=
    List.filter_eq_nil_iff.mpr fun s hs hnames => hnone ⟨s, hs, hnames⟩
  have hnamed := h.named
  rw [fileName?, components_of_isRooted h.rooted, hbody] at hnamed
  exact absurd hnamed (by decide)

theorem IsFront.fileName?_under (h : IsFront front) (hp : isRooted p = true)
    (hnamed : ∃ s ∈ body p, names s = true) : fileName? (under front p) = fileName? p := by
  have hne : (body p).filter names ≠ [] := by
    obtain ⟨s, hs, hnames⟩ := hnamed
    exact List.ne_nil_of_mem (List.mem_filter.mpr ⟨hs, hnames⟩)
  rw [fileName?, fileName?, h.components_under hp, components_of_isRooted hp,
    List.getLast?_cons_of_ne_nil (List.append_ne_nil_of_right_ne_nil _ hne),
    List.getLast?_append_of_ne_nil _ hne, List.getLast?_cons_of_ne_nil hne]

theorem IsFront.ofPath?_under (h : IsFront front) (hp : isRooted p = true)
    (hnamed : ∃ s ∈ body p, names s = true) :
    Language.ofPath? (under front p) = Language.ofPath? p := by
  rw [Language.ofPath?, Language.ofPath?, extension?, extension?, h.fileName?_under hp hnamed]

theorem IsFile.fileName?_under (h : IsFile p) (hfront : IsFront front) :
    fileName? (under front p) = fileName? p :=
  hfront.fileName?_under h.rooted h.exists_mem_body

theorem IsFile.ofPath?_under (h : IsFile p) (hfront : IsFront front) :
    Language.ofPath? (under front p) = Language.ofPath? p :=
  hfront.ofPath?_under h.rooted h.exists_mem_body

theorem IsFile.isFile_under (h : IsFile p) (hfront : IsFront front) : IsFile (under front p) :=
  ⟨(hfront.isRooted_under p).trans h.rooted, by rw [h.ofPath?_under hfront]; exact h.known⟩

theorem IsFile.fileStem?_under (h : IsFile p) (hfront : IsFront front) :
    fileStem? (under front p) = fileStem? p := by
  rw [fileStem?, fileStem?, h.fileName?_under hfront]

theorem render_ne_slash {segments : List (List Char)} (h : ∃ s ∈ segments, s ≠ []) :
    render true segments ≠ "/" := by
  intro hslash
  have hchars : Text.joinChars ['/'] segments = [] := by
    simpa [render] using congrArg String.toList hslash
  obtain ⟨s, hs, hne⟩ := h
  rcases segments with _ | ⟨piece, _ | ⟨other, rest⟩⟩
  · exact absurd hs List.not_mem_nil
  · obtain rfl := List.mem_singleton.mp hs
    exact hne hchars
  · simp [Text.joinChars] at hchars

theorem IsFile.withoutExtension_eq (h : IsFile p) :
    ∃ stem : String, stem ≠ "" ∧ fileStem? p = some stem ∧
      withoutExtension p =
        render true ((trimSegments true (body p)).dropLast ++ [stem.toList]) := by
  obtain ⟨file, hfile⟩ := Option.isSome_iff_exists.mp h.named
  have hstem : fileStem? p = some (cutExtension file).1 := by rw [fileStem?, hfile, Option.map_some]
  refine ⟨(cutExtension file).1, ?_, hstem, ?_⟩
  · simpa [hstem] using fileStem?_getD_ne_empty h.known
  · simp only [withoutExtension, hstem, h.rooted]

/-- The stem of a file has the front of the file. -/
theorem IsFile.withoutExtension_under (h : IsFile p) (hfront : IsFront front) :
    withoutExtension (under front p) = front ++ withoutExtension p := by
  obtain ⟨stem, -, hstem, hp⟩ := h.withoutExtension_eq
  obtain ⟨stem', -, hstem', hunder⟩ := (h.isFile_under hfront).withoutExtension_eq
  obtain rfl : stem = stem' := by
    rw [h.fileStem?_under hfront, hstem] at hstem'
    exact Option.some.inj hstem'
  have hkept : trimSegments true (body p) ≠ [] :=
    fun hnil => trimSegments_eq_nil_iff.mp hnil h.exists_mem_body
  rw [hunder, hp, hfront.body_under h.rooted, trimSegments_append h.exists_mem_body,
    List.dropLast_append_of_ne_nil hkept, List.append_assoc,
    hfront.render_steps_append (List.concat_ne_nil _ _)]

theorem IsFile.isRooted_withoutExtension (h : IsFile p) :
    isRooted (withoutExtension p) = true := by
  obtain ⟨stem, -, -, hp⟩ := h.withoutExtension_eq
  rw [hp]
  exact isRooted_render _

theorem IsFile.withoutExtension_ne_slash (h : IsFile p) : withoutExtension p ≠ "/" := by
  obtain ⟨stem, hstem, -, hp⟩ := h.withoutExtension_eq
  rw [hp]
  exact render_ne_slash ⟨stem.toList, by simp, by simpa using hstem⟩

theorem parent?_of_isRooted (hp : isRooted p = true) (hnamed : ∃ s ∈ body p, names s = true) :
    parent? p =
      some (render true (trimSegments true (trimSegments true (body p)).dropLast)) := by
  have hkept : trimSegments true (body p) ≠ [] := fun hnil => trimSegments_eq_nil_iff.mp hnil hnamed
  simp only [parent?, hp]

/-- The folder of a file has the front of the file. -/
theorem IsFile.parent?_under (h : IsFile p) (hfront : IsFront front) :
    parent? (under front p) = (parent? p).map (folderUnder front) := by
  have hkept : trimSegments true (body p) ≠ [] :=
    fun hnil => trimSegments_eq_nil_iff.mp hnil h.exists_mem_body
  rw [parent?_of_isRooted h.rooted h.exists_mem_body,
    parent?_of_isRooted (h.isFile_under hfront).rooted (h.isFile_under hfront).exists_mem_body,
    hfront.body_under h.rooted, trimSegments_append h.exists_mem_body,
    List.dropLast_append_of_ne_nil hkept, Option.map_some, Option.some_inj]
  by_cases hnamed : ∃ s ∈ (trimSegments true (body p)).dropLast, names s = true
  · have hrest : trimSegments true (trimSegments true (body p)).dropLast ≠ [] :=
      fun hnil => trimSegments_eq_nil_iff.mp hnil hnamed
    rw [trimSegments_append hnamed, hfront.render_steps_append hrest, folderUnder, if_neg,
      under_of_isRooted (isRooted_render _)]
    rintro ⟨hslash, -⟩
    exact render_ne_slash (exists_mem_trimSegments hnamed) hslash
  · rw [trimSegments_append_of_unnamed hnamed, trimSegments_eq_nil_iff.mpr hnamed]
    exact hfront.trimmed

/-! ## Looking for files -/

theorem folderUnder_of_not_isRooted (h : isRooted p = false) : folderUnder front p = p := by
  rw [folderUnder, if_neg, under_of_not_isRooted h]
  rintro ⟨rfl, -⟩
  exact absurd h (by decide)

theorem IsFront.isRooted_folderUnder (h : IsFront front) (p : String) :
    isRooted (folderUnder front p) = isRooted p := by
  rw [folderUnder]
  split
  next hroot =>
    rw [hroot.1, h.rooted.resolve_left hroot.2]
    rfl
  next => exact h.isRooted_under p

theorem IsFront.isEmpty_folderUnder (h : IsFront front) (p : String) :
    (folderUnder front p).isEmpty = p.isEmpty := by
  cases hp : isRooted p with
  | true =>
      have hfolder := ne_empty_of_isRooted ((h.isRooted_folderUnder p).trans hp)
      have hne := ne_empty_of_isRooted hp
      rw [Bool.eq_iff_iff, String.isEmpty_iff, String.isEmpty_iff]
      exact iff_of_false hfolder hne
  | false => rw [folderUnder_of_not_isRooted hp]

theorem IsFront.components_folderUnder (h : IsFront front) (hp : isRooted p = true) :
    components (folderUnder front p) =
      ['/'] :: ((steps front).filter names ++ (body p).filter names) := by
  rw [folderUnder]
  split
  next hroot =>
    have hrooted : isRooted front = true := h.rooted.resolve_left hroot.2
    have hsteps : body front = steps front := by rw [steps, body, if_pos hrooted]
    have hbody : (body "/").filter names = [] := by decide
    rw [components_of_isRooted hrooted, hsteps, hroot.1, hbody, List.append_nil]
  next => exact h.components_under hp

theorem components_ne_of_not_isRooted (h : isRooted p = false) (rest : List (List Char)) :
    components p ≠ ['/'] :: rest := by
  have hslash : ∀ s ∈ rawSegments p, s ≠ ['/'] := by
    rintro s hs rfl
    exact Text.separator_not_mem_of_mem_splitChars hs List.mem_cons_self
  have hfilter : ∀ segments : List (List Char), (∀ s ∈ segments, s ≠ ['/']) →
      segments.filter names ≠ ['/'] :: rest := by
    intro segments hall heq
    have hmem : ['/'] ∈ segments.filter names := heq ▸ List.mem_cons_self
    exact hall _ (List.mem_filter.mp hmem).1 rfl
  simp only [components, h]
  rw [if_neg (by simp)]
  split
  next => simp
  next => exact hfilter _ hslash

/-- Whether two folders are the same does not depend on a front that both have. -/
theorem IsFront.same_folderUnder (h : IsFront front) (hp : isRooted p = true) (q : String) :
    same (folderUnder front p) (folderUnder front q) = same p q := by
  rw [same, same, h.components_folderUnder hp, components_of_isRooted hp]
  cases hq : isRooted q with
  | true =>
      rw [h.components_folderUnder hq, components_of_isRooted hq, Bool.eq_iff_iff]
      simp
  | false =>
      rw [folderUnder_of_not_isRooted hq, beq_eq_false_iff_ne.mpr, beq_eq_false_iff_ne.mpr]
      · exact (components_ne_of_not_isRooted hq _).symm
      · exact (components_ne_of_not_isRooted hq _).symm

/-- Whether a file stands in a folder does not depend on a front that both have. -/
theorem IsFile.any_parent?_under (h : IsFile p) (hfront : IsFront front) (folder : String) :
    ((parent? (under front p)).any fun d => same d (folderUnder front folder)) =
      (parent? p).any fun d => same d folder := by
  rw [h.parent?_under hfront, parent?_of_isRooted h.rooted h.exists_mem_body]
  exact hfront.same_folderUnder (isRooted_render _) folder

/-- Whether a file has a stem does not depend on a front that both have. -/
theorem IsFile.withoutExtension_under_beq (h : IsFile p) (hfront : IsFront front) (stem : String) :
    (withoutExtension (under front p) == folderUnder front stem) = (withoutExtension p == stem) := by
  rw [h.withoutExtension_under hfront, Bool.eq_iff_iff, beq_iff_eq, beq_iff_eq, folderUnder]
  have hne := h.withoutExtension_ne_slash
  have hrooted := h.isRooted_withoutExtension
  split
  next hslash =>
    refine iff_of_false ?_ (hslash.1 ▸ hne)
    intro hempty
    have hnil : withoutExtension p = "" := by simpa using hempty
    exact ne_empty_of_isRooted hrooted hnil
  next =>
    cases hstem : isRooted stem with
    | true =>
        rw [under_of_isRooted hstem]
        simp
    | false =>
        rw [under_of_not_isRooted hstem, ← under_of_isRooted hrooted]
        refine iff_of_false ?_ ?_
        · rintro rfl
          rw [hfront.isRooted_under, hrooted] at hstem
          cases hstem
        · rintro rfl
          rw [hrooted] at hstem
          cases hstem

/-! ## Ids -/

theorem beforeColons_append_slash {cs : List Char} (h : ¬ [':', ':'] <:+: cs) (rest : List Char) :
    Entity.beforeColons (cs ++ '/' :: rest) = cs ++ '/' :: Entity.beforeColons rest := by
  induction cs with
  | nil => rfl
  | cons c cs ih =>
      have hrest : ¬ [':', ':'] <:+: cs := fun hin => h (hin.trans (List.suffix_cons c cs).isInfix)
      rw [List.cons_append, Entity.beforeColons, ih hrest, List.cons_append]
      rintro others rfl hcolon
      cases cs with
      | nil => exact absurd (List.cons.inj hcolon).1 (by decide)
      | cons d cs =>
          obtain ⟨rfl, -⟩ := List.cons.inj hcolon
          exact h ⟨[], cs, rfl⟩

theorem beforeColons_prefix (cs : List Char) : Entity.beforeColons cs <+: cs := by
  fun_induction Entity.beforeColons cs with
  | case1 => exact List.prefix_rfl
  | case2 => exact List.nil_prefix
  | case3 c rest _ ih => exact (List.prefix_cons_inj c).mpr ih

/-- The path of the file in an id has the front of the id. -/
theorem IsFront.beforeColons_under (h : IsFront front) (id : String) :
    String.ofList (Entity.beforeColons (under front id).toList) =
      under front (String.ofList (Entity.beforeColons id.toList)) := by
  cases hid : isRooted id with
  | true =>
      rw [under_of_isRooted hid]
      obtain ⟨rest, rfl⟩ := exists_of_isRooted hid
      have hcut : Entity.beforeColons ('/' :: rest.toList) =
          '/' :: Entity.beforeColons rest.toList := rfl
      rw [String.toList_append, toList_slash_append, beforeColons_append_slash h.uncut, hcut,
        under_of_isRooted (by simp [isRooted])]
      apply String.toList_injective
      simp
  | false =>
      have hcut : isRooted (String.ofList (Entity.beforeColons id.toList)) = false := by
        rw [isRooted, String.toList_ofList]
        rw [isRooted] at hid
        obtain ⟨rest, hrest⟩ := beforeColons_prefix id.toList
        cases hcs : Entity.beforeColons id.toList with
        | nil => rfl
        | cons c cs =>
            rw [← hrest, hcs] at hid
            exact hid
      rw [under_of_not_isRooted hid, under_of_not_isRooted hcut]

end Path

/-! ## Order -/

theorem Import.sorted_map {σ : String → String} (hσ : StrictMono σ) (texts : List String) :
    sorted (texts.map σ) = (sorted texts).map σ := by
  have hinsert : ∀ s done, insertSorted (σ s) (List.map σ done) = (insertSorted s done).map σ := by
    intro s done
    induction done with
    | nil => rfl
    | cons t done ih =>
        simp only [List.map_cons, insertSorted, hσ.injective.eq_iff, hσ.lt_iff_lt, ih]
        split
        next => rfl
        next => split <;> rfl
  have hfold : ∀ done, (texts.map σ).foldl (fun done s => insertSorted s done) (List.map σ done) =
      (texts.foldl (fun done s => insertSorted s done) done).map σ := by
    induction texts with
    | nil => exact fun done => rfl
    | cons s texts ih =>
        intro done
        rw [List.map_cons, List.foldl_cons, List.foldl_cons, hinsert, ih]
  exact hfold []

end CodeAtlas
