import CodeAtlas.Exclusion
import CodeAtlas.Proofs.Glob
import CodeAtlas.Proofs.NormalPaths

/-!
# What is excluded

Where folders and endings are written without the signs of patterns, exclusions mean what they say:
a path is excluded if one of its parts is an excluded folder or if it ends with an excluded ending,
and otherwise it is not.
-/

namespace CodeAtlas

namespace Text

/-- A text without separators is a piece if it reaches from one separator, or the front, to another
one, or the end. -/
theorem mem_splitChars_iff {separator : Char} {piece cs : List Char} :
    piece ∈ splitChars separator cs ↔ separator ∉ piece ∧ ∃ before after,
      cs = before ++ piece ++ after ∧ (before = [] ∨ before.getLast? = some separator) ∧
        (after = [] ∨ after.head? = some separator) := by
  constructor
  · intro h
    refine ⟨separator_not_mem_of_mem_splitChars h, ?_⟩
    obtain ⟨front, back, hsplit⟩ := List.append_of_mem h
    have hjoin := joinChars_splitChars separator cs
    rw [hsplit] at hjoin
    have hend : ∃ after, joinChars [separator] (piece :: back) = piece ++ after ∧
        (after = [] ∨ after.head? = some separator) := by
      by_cases hback : back = []
      · exact ⟨[], by simp [hback, joinChars], Or.inl rfl⟩
      · exact ⟨_, by rw [joinChars_cons _ _ hback, List.append_assoc], Or.inr rfl⟩
    obtain ⟨after, hpiece, hafter⟩ := hend
    by_cases hfront : front = []
    · subst hfront
      exact ⟨[], after, (hjoin.symm.trans hpiece), Or.inl rfl, hafter⟩
    · rw [joinChars_append _ hfront (List.cons_ne_nil piece back), hpiece,
        ← List.append_assoc] at hjoin
      exact ⟨_, after, hjoin.symm, Or.inr (by simp), hafter⟩
  · rintro ⟨hpiece, before, after, rfl, hbefore, hafter⟩
    have hend : piece ∈ splitChars separator (piece ++ after) := by
      rcases hafter with rfl | hafter
      · rw [List.append_nil, splitChars_of_not_mem hpiece]
        exact List.mem_singleton_self piece
      · obtain ⟨tail, rfl⟩ := List.head?_eq_some_iff.mp hafter
        rw [splitChars_append_cons, splitChars_of_not_mem hpiece]
        exact List.mem_cons_self
    rcases hbefore with rfl | hbefore
    · exact hend
    · obtain ⟨front, rfl⟩ := List.getLast?_eq_some_iff.mp hbefore
      rw [List.append_assoc, List.append_assoc, List.singleton_append, splitChars_append_cons]
      exact List.mem_append_right _ hend

end Text

namespace Exclusion

open Glob (IsPlain Reading Token tokensMatch encode slash read? readFrom)

variable {name ending path : String}

/-! ## The patterns of a folder and of an ending -/

/-- The patterns of a folder: one for the folder and one for what is in it. -/
def folderGlobs (name : List Char) : List Glob :=
  [⟨style, .leading :: name.map .literal⟩, ⟨style, .leading :: (name.map .literal ++ [.trailing])⟩]

/-- The pattern of an ending. -/
def endingGlob (ending : List Char) : Glob := ⟨style, .leading :: .anyRun :: ending.map .literal⟩

/-- A pattern that starts with two stars and a slash goes on with what stands behind them. -/
theorem read?_leading {text : String} {cs : List Char} {fuel : Nat} {r : Reading}
    (h : readFrom style fuel (Reading.start.push .leading '/') cs = some r)
    (hfuel : fuel = cs.length + 3) (hr : r.groups = [])
    (htext : text.toList = '*' :: '*' :: '/' :: cs) :
    read? style text = some ⟨style, r.branch.reverse⟩ := by
  have hlength : text.length = fuel := by
    rw [← String.length_toList, htext, hfuel]
    rfl
  have hstars : readFrom style (text.length + 1) .start text.toList =
      readFrom style fuel (Reading.start.push .leading '/') cs := by
    rw [htext, hlength, readFrom]
    rfl
  rw [read?, hstars, h]
  simp [hr]

theorem readFrom_star {cs : List Char} (h : cs.head? ≠ some '*') (r : Reading) (fuel : Nat) :
    readFrom style (fuel + 1) r ('*' :: cs) = readFrom style fuel (r.push .anyRun '*') cs := by
  rw [readFrom]
  rintro more rfl
  exact h rfl

/-- Two stars behind a slash at the end of a pattern take the place of the slash. -/
theorem readFrom_trailing (r : Reading) (fuel : Nat) :
    readFrom style (fuel + 2) (r.push (.literal '/') '/') ['*', '*'] =
      some { r with branch := .trailing :: r.branch, previous := some '*' } := by
  rw [readFrom]
  rfl

theorem read?_folderTexts (h : IsPlain name.toList) :
    (folderTexts name).mapM (read? style) = some (folderGlobs name.toList) := by
  have hfolder : read? style ("**/" ++ name) =
      some ⟨style, .leading :: name.toList.map .literal⟩ := by
    have hread := Glob.readFrom_plain style h
      (show (Reading.start.push .leading '/').groups = [] from rfl) 3 []
    rw [List.append_nil, readFrom] at hread
    rw [read?_leading hread rfl (Reading.groups_pushPlain _ _) (by simp),
      Reading.branch_pushPlain]
    simp [Reading.push, Reading.start]
  have hinside : read? style ("**/" ++ name ++ "/**") =
      some ⟨style, .leading :: (name.toList.map .literal ++ [.trailing])⟩ := by
    have hslash : IsPlain (name.toList ++ ['/']) :=
      List.forall_mem_append.mpr ⟨h, List.forall_mem_singleton.mpr rfl⟩
    have hread := Glob.readFrom_plain style hslash
      (show (Reading.start.push .leading '/').groups = [] from rfl) 5 ['*', '*']
    rw [Reading.pushPlain_concat, readFrom_trailing] at hread
    rw [read?_leading hread (by simp) (Reading.groups_pushPlain _ _) (by simp)]
    simp [Reading.branch_pushPlain, Reading.push, Reading.start]
  simp [folderTexts, hfolder, hinside, folderGlobs]

theorem read?_endingText (h : IsPlain ending.toList) :
    read? style (endingText ending) = some (endingGlob ending.toList) := by
  have hstar : ending.toList.head? ≠ some '*' := by
    intro hhead
    exact absurd (h '*' (List.mem_of_head? hhead)) (by decide)
  have hread := Glob.readFrom_plain style h
    (show ((Reading.start.push .leading '/').push .anyRun '*').groups = [] from rfl) 3 []
  rw [List.append_nil, ← readFrom_star hstar, readFrom] at hread
  rw [endingText, read?_leading hread rfl (Reading.groups_pushPlain _ _) (by simp),
    Reading.branch_pushPlain]
  simp [Reading.push, Reading.start, endingGlob]

/-! ## What they match -/

theorem any_accepts_folderGlobs {name : List Char} (hname : name ≠ []) (hslash : '/' ∉ name)
    (path : String) :
    (folderGlobs name).any (·.accepts path) = true ↔ name ∈ Text.splitChars '/' path.toList := by
  obtain ⟨c, cs, rfl⟩ := List.exists_cons_of_ne_nil hname
  have hfolder : Glob.accepts ⟨style, .leading :: (c :: cs).map .literal⟩ path =
      tokensMatch style List.isEmpty (.leading :: ((c :: cs).map .literal ++ []))
        (encode path.toList) := by
    rw [List.append_nil]
    rfl
  have hinside : Glob.accepts ⟨style, .leading :: ((c :: cs).map .literal ++ [.trailing])⟩ path =
      tokensMatch style List.isEmpty (.leading :: ((c :: cs).map .literal ++ [.trailing]))
        (encode path.toList) := rfl
  have hend : ∀ after, tokensMatch style List.isEmpty [] (encode after) = true ↔ after = [] := by
    intro after
    rw [Glob.tokensMatch_nil, Glob.encode_eq_nil_iff]
  have hgoes : ∀ after, tokensMatch style List.isEmpty [.trailing] (encode after) = true ↔
      after.head? = some '/' := by
    intro after
    rw [Glob.tokensMatch_trailing, List.head?_eq_some_iff]
    constructor
    · rintro ⟨rest, h⟩
      obtain ⟨zs, rfl, -⟩ := Glob.exists_of_encode_eq_slash_cons h
      exact ⟨zs, rfl⟩
    · rintro ⟨zs, rfl⟩
      exact ⟨encode zs, rfl⟩
  simp only [folderGlobs, List.any_cons, List.any_nil, Bool.or_false, Bool.or_eq_true, hfolder,
    hinside, Glob.tokensMatch_leading_literals hname, hend, hgoes, Text.mem_splitChars_iff]
  constructor
  · rintro (⟨before, after, h, hbefore, hafter⟩ | ⟨before, after, h, hbefore, hafter⟩)
    · exact ⟨hslash, before, after, h, hbefore, Or.inl hafter⟩
    · exact ⟨hslash, before, after, h, hbefore, Or.inr hafter⟩
  · rintro ⟨-, before, after, h, hbefore, hafter | hafter⟩
    · exact Or.inl ⟨before, after, h, hbefore, hafter⟩
    · exact Or.inr ⟨before, after, h, hbefore, hafter⟩

theorem accepts_endingGlob (ending : List Char) (path : String) :
    (endingGlob ending).accepts path = true ↔ ending <:+ path.toList := by
  have haccepts : (endingGlob ending).accepts path =
      tokensMatch style List.isEmpty (.leading :: .anyRun :: (ending.map .literal ++ []))
        (encode path.toList) := by
    rw [List.append_nil]
    rfl
  rw [haccepts, ← Glob.encode_suffix_iff]
  simp only [Glob.tokensMatch_leading, Glob.tokensMatch_literals, Glob.tokensMatch_nil,
    Glob.tokensMatch_anyRun (show style.slashIsSpecial = false from rfl)]
  constructor
  · rintro ⟨folders, _, h, -, front, _, rfl, _, rfl, rfl⟩
    exact ⟨folders ++ front, by rw [h, List.append_nil, List.append_assoc]⟩
  · rintro ⟨front, h⟩
    exact ⟨[], _, rfl, Or.inl rfl, front, _, h.symm, [], (List.append_nil _).symm, rfl⟩

/-! ## Whole settings -/

/-- Neither the excluded folders nor the excluded endings have signs of patterns, and the folders
are names. -/
structure Literal (s : Settings) : Prop where
  folders : ∀ f ∈ s.excludedFolders, f ≠ "" ∧ '/' ∉ f.toList ∧ IsPlain f.toList
  endings : ∀ e ∈ s.excludedEndings, IsPlain e.toList

theorem mapM_eq_ok {α β : Type} {f : α → Except Error β} {g : α → β} {as : List α}
    (h : ∀ a ∈ as, f a = .ok (g a)) : as.mapM f = .ok (as.map g) := by
  induction as with
  | nil => rfl
  | cons a as ih =>
      rw [List.forall_mem_cons] at h
      rw [List.mapM_cons, h.1, ih h.2]
      rfl

theorem ofSettings_of_literal {s : Settings} (hs : Literal s) :
    ofSettings s = .ok ⟨(s.excludedFolders.map fun f => folderGlobs f.toList).flatten ++
      (s.excludedEndings.map fun e => [endingGlob e.toList]).flatten⟩ := by
  have hfolders : s.excludedFolders.mapM ofFolder =
      .ok (s.excludedFolders.map fun f => folderGlobs f.toList) := by
    refine mapM_eq_ok fun f hf => ?_
    rw [ofFolder, read?_folderTexts (hs.folders f hf).2.2]
  have hendings : s.excludedEndings.mapM ofEnding =
      .ok (s.excludedEndings.map fun e => [endingGlob e.toList]) := by
    refine mapM_eq_ok fun e he => ?_
    rw [ofEnding, read?_endingText (hs.endings e he)]
  rw [ofSettings, hfolders, hendings]
  rfl

/-- A path is excluded if a piece of it between slashes is an excluded folder or if it ends with an
excluded ending. -/
theorem excludes_iff_of_literal {s : Settings} (hs : Literal s) {x : Exclusion}
    (hx : ofSettings s = .ok x) (path : String) :
    x.excludes path = true ↔
      (∃ f ∈ s.excludedFolders, f.toList ∈ Text.splitChars '/' path.toList) ∨
        ∃ e ∈ s.excludedEndings, e.toList <:+ path.toList := by
  rw [ofSettings_of_literal hs, Except.ok.injEq] at hx
  subst hx
  rw [excludes, List.any_append, Bool.or_eq_true, List.any_flatten, List.any_flatten, List.any_map,
    List.any_map, List.any_eq_true, List.any_eq_true]
  refine or_congr (exists_congr fun f => and_congr_right fun hf => ?_)
    (exists_congr fun e => and_congr_right fun _ => ?_)
  · obtain ⟨hne, hslash, -⟩ := hs.folders f hf
    exact any_accepts_folderGlobs (by simpa using hne) hslash path
  · rw [Function.comp_apply, List.any_cons, List.any_nil, Bool.or_false]
    exact accepts_endingGlob e.toList path

/-- Exclusions mean what they say: settings without signs of patterns can always be read, and they
exclude a path exactly when one of its parts is an excluded folder or it ends with an excluded
ending. -/
theorem excludes_iff {s : Settings} (hs : Literal s) :
    ∃ x, ofSettings s = .ok x ∧
      ∀ parts : List String, (∀ p ∈ parts, Path.IsSegment p.toList) →
        (x.excludes (Text.join "/" parts) = true ↔
          (∃ p ∈ parts, p ∈ s.excludedFolders) ∨
            ∃ e ∈ s.excludedEndings, e.toList <:+ (Text.join "/" parts).toList) := by
  refine ⟨_, ofSettings_of_literal hs, fun parts hparts => ?_⟩
  rw [excludes_iff_of_literal hs (ofSettings_of_literal hs)]
  refine or_congr_left ?_
  have hpieces : Text.splitChars '/' (Text.join "/" parts).toList =
      if parts = [] then [[]] else parts.map String.toList := by
    rw [Text.join, String.toList_ofList, show "/".toList = ['/'] from rfl]
    split
    next h =>
      rw [h]
      rfl
    next h =>
      refine Text.splitChars_joinChars (by simpa using h) fun piece hpiece => ?_
      obtain ⟨p, hp, rfl⟩ := List.mem_map.mp hpiece
      exact (hparts p hp).slashless
  rw [hpieces]
  constructor
  · rintro ⟨f, hf, hmem⟩
    split at hmem
    next =>
      -- the empty path has one piece, which is no folder
      have hempty : f = "" := by simpa using hmem
      exact absurd hempty (hs.folders f hf).1
    next =>
      obtain ⟨p, hp, hpf⟩ := List.mem_map.mp hmem
      rw [String.toList_inj] at hpf
      exact ⟨p, hp, hpf ▸ hf⟩
  · rintro ⟨p, hp, hf⟩
    rw [if_neg (List.ne_nil_of_mem hp)]
    exact ⟨p, hf, List.mem_map_of_mem hp⟩

/-- The standard settings exclude a folder at any depth and an ending of a file, and not a file
whose name only starts like a folder. -/
theorem excludes_iff_standard :
    ∃ x, ofSettings .standard = .ok x ∧
      x.excludes (Text.join "/" ["web", "node_modules", "index.js"]) = true ∧
      x.excludes (Text.join "/" ["types", "index.d.ts"]) = true ∧
      x.excludes (Text.join "/" ["src", "distance.py"]) = false := by
  obtain ⟨x, hx, hexcludes⟩ := excludes_iff (s := .standard) ⟨by decide, by decide⟩
  refine ⟨x, hx, ?_, ?_, ?_⟩
  · rw [hexcludes _ (by decide)]
    exact Or.inl ⟨"node_modules", by decide, by decide⟩
  · rw [hexcludes _ (by decide)]
    exact Or.inr ⟨".d.ts", by decide, by decide +kernel⟩
  · rw [← Bool.not_eq_true, hexcludes _ (by decide)]
    decide +kernel

end Exclusion
end CodeAtlas
