import CodeAtlas.Proofs.Extraction.Tree

/-!
# Ids and files

An id starts with the path of its file, and a double colon ends that path.  The path can be read
off an id when it holds no double colon itself: a path with a known extension does not end in a
colon, so that the first double colon of an id is the one behind its path.  Hence the ids of
different files are different.
-/

namespace CodeAtlas

/-! ## Paths with a known extension -/

namespace Text

/-- The last piece of a text ends like the text. -/
theorem splitChars_concat (separator c : Char) (hc : c ≠ separator) (cs : List Char) :
    ∃ pieces piece, splitChars separator (cs ++ [c]) = pieces ++ [piece ++ [c]] := by
  induction cs with
  | nil => exact ⟨[], [], by simp [splitChars, hc]⟩
  | cons x cs ih =>
      obtain ⟨pieces, piece, hsplit⟩ := ih
      rw [List.cons_append, splitChars, hsplit]
      by_cases hx : x = separator
      · exact ⟨[] :: pieces, piece, by rw [if_pos hx]; rfl⟩
      · rw [if_neg hx]
        cases pieces with
        | nil => exact ⟨[], x :: piece, rfl⟩
        | cons first pieces => exact ⟨(x :: first) :: pieces, piece, rfl⟩

end Text

namespace Path

/-- The last segment of a path is the name of a file, unless it names nothing or goes up. -/
theorem fileName?_of_rawSegments {p : String} {before : List (List Char)} {segment : List Char}
    (hraw : rawSegments p = before ++ [segment]) (hnames : names segment = true)
    (hup : segment ≠ ['.', '.']) (hroot : segment ≠ ['/']) :
    fileName? p = some (String.ofList segment) := by
  have hdot : segment ≠ ['.'] := by
    rintro rfl
    exact absurd hnames (by decide)
  have hfilter : ∀ before, ((before ++ [segment]).filter names).getLast? = some segment := by
    intro before
    rw [List.filter_append, List.filter_singleton, hnames, cond_true, List.getLast?_concat]
  have hlast : (components p).getLast? = some segment := by
    rw [components, hraw]
    split
    · rw [List.getLast?_cons, hfilter]
      rfl
    · split
      next rest hopen =>
        cases before with
        | nil => exact absurd (List.cons.inj hopen).1 hdot
        | cons first before =>
            obtain rfl : before ++ [segment] = rest := (List.cons.inj hopen).2
            rw [List.getLast?_cons, hfilter]
            rfl
      next => exact hfilter before
  have hnot : (segment == ['/'] || segment == ['.'] || segment == ['.', '.']) = false := by
    simp only [Bool.or_eq_false_iff, beq_eq_false_iff_ne]
    exact ⟨⟨hroot, hdot⟩, hup⟩
  simp only [fileName?, hlast, hnot]
  rfl

theorem concat_colon_ne (cs : List Char) {ds : List Char} (h : ds.getLast? ≠ some ':') :
    cs ++ [':'] ≠ ds := by
  rintro rfl
  exact h List.getLast?_concat

theorem names_concat_colon (segment : List Char) : names (segment ++ [':']) = true := by
  simp [names, show segment ++ [':'] ≠ ['.'] from concat_colon_ne segment (by decide)]

/-- The last segment of a path that ends in a colon ends in a colon. -/
theorem fileName?_concat_colon {p : String} {cs : List Char} (hp : p.toList = cs ++ [':']) :
    ∃ segment, fileName? p = some (String.ofList (segment ++ [':'])) := by
  obtain ⟨segments, segment, hsplit⟩ := Text.splitChars_concat '/' ':' (by decide) cs
  have hraw : rawSegments p = segments ++ [segment ++ [':']] := by rw [rawSegments, hp, hsplit]
  exact ⟨segment, fileName?_of_rawSegments hraw (names_concat_colon segment)
    (concat_colon_ne segment (by decide)) (concat_colon_ne segment (by decide))⟩

theorem cutExtension_concat_colon {segment : List Char} {extension : String}
    (h : (cutExtension (String.ofList (segment ++ [':']))).2 = some extension) :
    extension.toList.getLast? = some ':' := by
  obtain ⟨pieces, piece, hsplit⟩ := Text.splitChars_concat '.' ':' (by decide) segment
  have hpieces : Text.split '.' (String.ofList (segment ++ [':'])) =
      pieces.map String.ofList ++ [String.ofList (piece ++ [':'])] := by
    rw [Text.split, String.toList_ofList, hsplit, List.map_append]
    rfl
  rw [cutExtension, hpieces, List.dropLast_concat, List.getLast?_concat] at h
  split at h
  case h_3 after hafter _ _ =>
    obtain rfl := Option.some.inj h
    obtain rfl := Option.some.inj hafter
    simp
  all_goals exact absurd h (by simp)

end Path

namespace Language

theorem mem_extensions_of_ofExtension? {extension : String} {l : Language}
    (h : ofExtension? extension = some l) : extension ∈ l.extensions := by
  simpa using List.find?_some h

/-- A file of a known language has a path that does not end in a colon. -/
theorem getLast?_ne_colon_of_ofPath? {path : String} {l : Language} (h : ofPath? path = some l) :
    path.toList.getLast? ≠ some ':' := by
  intro hlast
  obtain ⟨cs, hcs⟩ := List.getLast?_eq_some_iff.mp hlast
  obtain ⟨segment, hname⟩ := Path.fileName?_concat_colon hcs
  have hmem := mem_extensions_of_ofExtension? h
  rw [Path.extension?, hname, Option.bind_some] at hmem
  cases hcut : (Path.cutExtension (String.ofList (segment ++ [':']))).2 with
  | none =>
      rw [hcut, Option.getD_none] at hmem
      cases l <;> exact absurd hmem (by decide)
  | some extension =>
      rw [hcut, Option.getD_some] at hmem
      have hcolon := Path.cutExtension_concat_colon hcut
      have hnone : ∀ e ∈ l.extensions, e.toList.getLast? ≠ some ':' := by cases l <;> decide
      exact hnone extension hmem hcolon

end Language

/-! ## The path in an id -/

/-- A text that is not cut by a double colon. -/
def colonFree (path : String) : Prop := ¬ [':', ':'] <:+: path.toList

instance (path : String) : Decidable (colonFree path) :=
  inferInstanceAs (Decidable (¬ [':', ':'] <:+: path.toList))

namespace Entity

/-- The first double colon ends the path. -/
theorem beforeColons_append {cs : List Char} (hfree : ¬ [':', ':'] <:+: cs)
    (hlast : cs.getLast? ≠ some ':') (rest : List Char) :
    beforeColons (cs ++ ':' :: ':' :: rest) = cs := by
  induction cs with
  | nil => rfl
  | cons c cs ih =>
      have hfree' : ¬ [':', ':'] <:+: cs := fun h => hfree (h.trans (List.suffix_cons c cs).isInfix)
      cases cs with
      | nil =>
          have hc : c ≠ ':' := by simpa using hlast
          rw [List.cons_append, beforeColons, ih hfree' (by simp)]
          intro _ h
          exact absurd h hc
      | cons d cs =>
          rw [List.cons_append, beforeColons, ih hfree' (by simpa using hlast)]
          rintro _ rfl h
          obtain ⟨rfl, -⟩ := List.cons.inj h
          exact hfree ⟨[], cs, rfl⟩

theorem beforeColons_eq_self {cs : List Char} (hfree : ¬ [':', ':'] <:+: cs) :
    beforeColons cs = cs := by
  induction cs with
  | nil => rfl
  | cons c cs ih =>
      have hfree' : ¬ [':', ':'] <:+: cs := fun h => hfree (h.trans (List.suffix_cons c cs).isInfix)
      rw [beforeColons, ih hfree']
      rintro rest rfl rfl
      exact hfree ⟨[], rest, rfl⟩

end Entity

/-- The id is that of a file, or that of something in the file. -/
def idIn (path id : String) : Prop := id = path ∨ ∃ rest, id = path ++ "::" ++ rest

theorem filePath_of_idIn {path : String} {l : Language} (hl : Language.ofPath? path = some l)
    (hfree : colonFree path) {e : Entity} (h : idIn path e.id) : e.filePath = path := by
  rcases h with h | ⟨rest, h⟩
  · rw [Entity.filePath, h, Entity.beforeColons_eq_self hfree, String.ofList_toList]
  · have hid : e.id.toList = path.toList ++ ':' :: ':' :: rest.toList := by
      rw [h, String.toList_append, String.toList_append, List.append_assoc]
      rfl
    rw [Entity.filePath, hid,
      Entity.beforeColons_append hfree (Language.getLast?_ne_colon_of_ofPath? hl),
      String.ofList_toList]

namespace Forest

/-- A numbered id keeps its beginning. -/
theorem exists_candidateId_eq (base : String) (line n : Nat) :
    ∃ tail, candidateId base line n = base ++ tail := by
  match n with
  | 0 => exact ⟨"", by rw [candidateId, String.append_empty]⟩
  | 1 => exact ⟨"@" ++ toString line, by rw [candidateId, String.append_assoc]⟩
  | n + 2 =>
      exact ⟨"@" ++ toString line ++ "." ++ toString (n + 2), by
        simp only [candidateId, String.append_assoc]⟩

end Forest

namespace Extraction

open Survey (Definition)

variable {language : Language} {path content : String} {d : Definition} {e : Entity}

/-- The id of the entity of a named definition starts with the path of its file. -/
theorem id_of_finishes (hl : Language.ofPath? path = some language) (hfree : colonFree path)
    (hname : d.name content ≠ "") (h : (entity language path content d).Finishes e) :
    ∃ rest, e.id = path ++ "::" ++ rest := by
  obtain ⟨id, n, hbecomes, hid⟩ := h
  have hentity := (entity_name_id language path content hname).2
  obtain ⟨rest, hrest⟩ : ∃ rest, id = path ++ "::" ++ rest := by
    rcases hbecomes.named with ⟨-, -, hsame⟩ | ⟨-, -, owner, hnamed, hmethod⟩
    · exact ⟨_, hsame.trans hentity⟩
    · rw [filePath_of_idIn hl hfree (Or.inr ⟨_, hentity⟩)] at hmethod
      exact ⟨_, hmethod⟩
  obtain ⟨tail, htail⟩ := Forest.exists_candidateId_eq id (e.span.start.row + 1) n
  exact ⟨rest ++ tail, by rw [hid, htail, hrest, String.append_assoc]⟩

end Extraction

end CodeAtlas
