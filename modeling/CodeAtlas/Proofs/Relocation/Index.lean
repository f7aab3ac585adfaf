import CodeAtlas.Proofs.Index.Isolation
import CodeAtlas.Proofs.Relocation.Scope

/-!
# Indexing below a front

Adding files to an index commutes with a front: extracting their entities does, and so do looking
for uses and recording them.  Hence the records and the links of an index with a front are those of
the index without it, with the front before every id.  The import statements are the exception, as
where they lead is looked for in normal forms of paths; they are resolved elsewhere.
-/

namespace CodeAtlas

variable {front root : String}

/-! ## Texts -/

namespace Entity

variable (e : Entity)

theorem map_textual_under (es : List Entity) :
    (es.map (Entity.under front)).map textual = es.map textual := by
  rw [List.map_map]
  rfl

theorem codeWithoutBody_under (children : List Entity) :
    (e.under front).codeWithoutBody (children.map (Entity.under front)) =
      e.codeWithoutBody children := by
  rw [← codeWithoutBody_textual, map_textual_under, ← e.codeWithoutBody_textual]
  rfl

end Entity

/-! ## Uses -/

/-- The scope with a front before all ids and paths. -/
def Scope.under (front : String) (s : Scope) : Scope :=
  ⟨s.language, s.names.under front, s.imports.map (Import.Statement.under front)⟩

namespace Uses

theorem prepare_under (s : Scope) (e : Entity) (children : List Entity) (parent : Option Entity) :
    prepare (s.under front) (e.under front) (children.map (Entity.under front))
      (parent.map (Entity.under front)) = prepare s e children parent := by
  have haliases : ∀ text, replaceAliases (s.under front).imports text =
      replaceAliases s.imports text := by
    intro text
    simp only [replaceAliases, Scope.under, List.flatMap_map, Import.Statement.renamings_under]
  have hscope : ∀ d ds o, prepare (s.under front) d ds o = prepare s d ds o := by
    intro d ds o
    rw [prepare, prepare, haliases]
    rfl
  rw [hscope, prepare_of_textual (v := Entity.under front) fun _ => rfl]

variable (h : Path.IsFront front)

include h

theorem addLine_under (t : Table (List Nat)) (target : String) (line : Nat) :
    addLine (t.rekey (Path.under front) id) (Path.under front target) line =
      (addLine t target line).rekey (Path.under front) id := by
  rw [addLine, addLine, Table.find?_rekey h.strictMono_under, Option.map_id_fun]
  exact Table.insert_rekey h.strictMono_under id t target _

theorem addToken_under (s : Scope) (e : Entity) (line : Nat) (t : Table (List Nat))
    (token : String) :
    addToken (s.under front) (e.under front) line (t.rekey (Path.under front) id) token =
      (addToken s e line t token).rekey (Path.under front) id := by
  have hresolve : (s.under front).names.resolve? token =
      (s.names.resolve? token).map (Path.under front) := s.names.resolve?_under token
  rw [addToken, addToken, hresolve]
  cases s.names.resolve? token with
  | none => rfl
  | some target =>
      simp only [Option.map_some, Entity.id_under, beq_iff_eq, h.under_injective.eq_iff,
        addLine_under h]
      split <;> rfl

theorem find_under (s : Scope) (e : Entity) (children : List Entity) (parent : Option Entity) :
    find (s.under front) (e.under front) (children.map (Entity.under front))
      (parent.map (Entity.under front)) =
        (find s e children parent).rekey (Path.under front) id := by
  have hcapture : ∀ t c, addCapture (s.under front) (e.under front)
      (t.rekey (Path.under front) id) c = (addCapture s e t c).rekey (Path.under front) id :=
    fun t c => List.foldl_hom (Table.rekey (Path.under front) id) fun t token =>
      addToken_under h s e _ t token
  have htext : analysed (s.under front) (e.under front) (children.map (Entity.under front))
      (parent.map (Entity.under front)) = analysed s e children parent := by
    simp only [analysed, prepare_under]
    rfl
  have hempty : (Table.empty : Table (List Nat)) = Table.empty.rekey (Path.under front) id := rfl
  rw [find, find, htext, ofCaptures, ofCaptures]
  conv_lhs => rw [hempty]
  exact List.foldl_hom (Table.rekey (Path.under front) id) hcapture

end Uses

/-! ## Recording uses -/

namespace Index

/-- Uses that were found, with a front before all ids. -/
def usesUnder (front : String) (found : List (String × Table (List Nat))) :
    List (String × Table (List Nat)) :=
  found.map (Prod.map (Path.under front) (Table.rekey (Path.under front) id))

variable (h : Path.IsFront front) {x : Index}

include h

theorem HasFiles.usesInFile_under (hx : x.HasFiles) {file : String} (hfile : file ∈ x.files) :
    (x.under root front).usesInFile (Path.under front file) =
      usesUnder front (x.usesInFile file) := by
  rw [usesInFile, usesInFile, x.find?_under h]
  cases x.find? file with
  | none => rfl
  | some e =>
      have hscope : (⟨(e.under front).language, (x.under root front).namesIn (Path.under front file),
          (e.under front).imports⟩ : Scope) =
            Scope.under front ⟨e.language, x.namesIn file, e.imports⟩ := by
        rw [hx.namesIn_under h (hx file hfile)]
        rfl
      have hparent : ∀ d : Entity, (d.under front).parent.bind (x.under root front).find? =
          (d.parent.bind x.find?).map (Entity.under front) := by
        intro d
        rw [Entity.parent_under, Option.bind_map, Option.map_bind]
        congr 1
        funext p
        exact x.find?_under h p
      simp only [Option.map_some, hscope, x.descendants_under h, ← List.map_cons, List.map_map,
        usesUnder, Function.comp_def, x.childrenOf_under h, hparent, Uses.find_under h]
      simp only [List.filter_map, List.map_map, Function.comp_def, Table.isEmpty_rekey]
      rfl

theorem link_under (x : Index) (source target : String) (lines : List Nat) :
    (x.under root front).link (Path.under front source) (Path.under front target) lines =
      ((x.link source target lines).1.under root front, (x.link source target lines).2) := by
  have hσ := h.strictMono_under
  have hknown : ((x.under root front).usesOf? (Path.under front source)).getD .empty =
      ((x.usesOf? source).getD .empty).rekey (Path.under front) id := by
    have hfind : (x.under root front).usesOf? (Path.under front source) =
        (x.usesOf? source).map (Table.rekey (Path.under front) id) :=
      Table.find?_rekey hσ _ x.uses source
    rw [hfind]
    cases x.usesOf? source <;> rfl
  have huses : ∀ known : Table (List Nat), (x.under root front).uses.insert (Path.under front source)
      ((known.rekey (Path.under front) id).insert (Path.under front target) lines) =
        (x.uses.insert source (known.insert target lines)).rekey (Path.under front)
          (Table.rekey (Path.under front) id) := by
    intro known
    have hinner : (known.rekey (Path.under front) id).insert (Path.under front target) lines =
        (known.insert target lines).rekey (Path.under front) id :=
      Table.insert_rekey hσ id known target lines
    rw [hinner]
    exact Table.insert_rekey hσ _ x.uses source _
  have hmodify : ∀ (t : Table Entity) (k : String) {g : Entity → Entity},
      (∀ e : Entity, g (e.under front) = (g e).under front) →
        (t.rekey (Path.under front) (Entity.under front)).modify (Path.under front k) g =
          (t.modify k g).rekey (Path.under front) (Entity.under front) :=
    fun t k _ hg => Table.modify_rekey hσ _ t hg k
  simp only [link, hknown, huses, Table.contains_rekey hσ]
  split
  next => rfl
  next =>
    dsimp only [under]
    rw [hmodify, hmodify] <;> exact fun _ => rfl

theorem addUse_under (source : String) (y : Index × Nat) (use : String × List Nat) :
    addUse (Path.under front source) (y.1.under root front, y.2) (Path.under front use.1, use.2) =
      ((addUse source y use).1.under root front, (addUse source y use).2) := by
  have hcontains : (y.1.under root front).entities.contains (Path.under front use.1) =
      y.1.entities.contains use.1 :=
    Table.contains_rekey h.strictMono_under (Entity.under front) y.1.entities use.1
  have hsame : (Path.under front use.1 == Path.under front source) = (use.1 == source) := by
    rw [Bool.eq_iff_iff, beq_iff_eq, beq_iff_eq, h.under_injective.eq_iff]
  simp only [addUse, hcontains, hsame, link_under h]
  split <;> rfl

theorem addUses_under (x : Index) (found : List (String × Table (List Nat))) :
    (x.under root front).addUses (usesUnder front found) =
      ((x.addUses found).1.under root front, (x.addUses found).2) := by
  have huses : ∀ (source : String) (uses : List (String × List Nat)) (y : Index × Nat),
      (uses.map (Prod.map (Path.under front) id)).foldl (addUse (Path.under front source))
        (Prod.map (under root front) id y) =
          Prod.map (under root front) id (uses.foldl (addUse source) y) := by
    intro source uses y
    rw [List.foldl_map]
    exact List.foldl_hom (Prod.map (under root front) id) fun y use => addUse_under h source y use
  have hfound : ∀ y : Index × Nat, (usesUnder front found).foldl
      (fun y f => f.2.entries.foldl (addUse f.1) y) (Prod.map (under root front) id y) =
        Prod.map (under root front) id
          (found.foldl (fun y f => f.2.entries.foldl (addUse f.1) y) y) := by
    intro y
    rw [usesUnder, List.foldl_map]
    exact List.foldl_hom (Prod.map (under root front) id) fun y f => huses f.1 f.2.entries y
  exact hfound (x, 0)

theorem HasFiles.foundUses_under (hx : x.HasFiles) :
    (x.under root front).foundUses = usesUnder front x.foundUses := by
  rw [foundUses, foundUses, files_under, List.flatMap_map, usesUnder, List.map_flatMap]
  exact List.flatMap_congr fun f hf => hx.usesInFile_under h hf

/-! ## Storing entities -/

theorem addEntity_under (x : Index) (e : Entity) :
    (x.under root front).addEntity (e.under front) = (x.addEntity e).under root front := by
  have hentities : (x.under root front).entities.insert (Path.under front e.id) (e.under front) =
      (x.entities.insert e.id e).rekey (Path.under front) (Entity.under front) :=
    Table.insert_rekey h.strictMono_under (Entity.under front) x.entities e.id e
  rw [addEntity, Entity.id_under, hentities]
  rfl

theorem addFile_under (x : Index) (es : List Entity) :
    (x.under root front).addFile (es.map (Entity.under front)) =
      (x.addFile es).under root front := by
  have hfold : ∀ y : Index, (es.map (Entity.under front)).foldl addEntity (y.under root front) =
      (es.foldl addEntity y).under root front := by
    intro y
    rw [List.foldl_map]
    exact List.foldl_hom (under root front) fun y e => addEntity_under h y e
  rw [addFile, addFile, List.head?_map, ← hfold]
  cases es.head? with
  | none => rfl
  | some file =>
      simp only [Option.map_some, under, List.map_append]
      rfl

/-- Storing the entities of files commutes with a front. -/
theorem addFiles_under {files : List SourceFile} (hfiles : ∀ f ∈ files, Path.IsFile f.path)
    (x : Index) (parsed skipped : Nat) :
    addFiles (files.map fun f => ⟨Path.under front f.path, f.content⟩) (x.under root front) parsed
        skipped =
      ((addFiles files x parsed skipped).1.under root front,
        (addFiles files x parsed skipped).2) := by
  induction files generalizing x parsed skipped with
  | nil => rfl
  | cons f files ih =>
      rw [List.forall_mem_cons] at hfiles
      rw [List.map_cons, addFiles_cons, addFiles_cons, extract?_under h hfiles.1]
      cases extract? f.path f.content with
      | none =>
          dsimp only [Option.map_none]
          exact ih hfiles.2 x parsed (skipped + 1)
      | some es =>
          dsimp only [Option.map_some]
          rw [addFile_under h]
          exact ih hfiles.2 (x.addFile es) (parsed + 1) skipped

omit h in
theorem HasFiles.addFiles (hx : x.HasFiles) {files : List SourceFile}
    (hfiles : ∀ f ∈ files, Path.IsFile f.path) (parsed skipped : Nat) :
    (Index.addFiles files x parsed skipped).1.HasFiles := by
  induction files generalizing x parsed skipped with
  | nil => exact hx
  | cons f files ih =>
      rw [List.forall_mem_cons] at hfiles
      have hhead := head?_extract? f
      rw [addFiles_cons, ← SourceFile.extract?]
      cases hes : f.extract? with
      | none => exact ih hx hfiles.2 parsed (skipped + 1)
      | some es =>
          refine ih ?_ hfiles.2 (parsed + 1) skipped
          obtain ⟨l, hl⟩ := Option.isSome_iff_exists.mp hfiles.1.known
          rw [hes, hl, Option.bind_some, Option.map_some, Option.map_eq_some_iff] at hhead
          obtain ⟨file, hfile, hid⟩ := hhead
          rw [HasFiles, addFile, hfile, (foldl_addEntity_others _ es).1]
          intro p hp
          rcases List.mem_append.mp hp with hp | hp
          · exact hx p hp
          · obtain rfl := List.mem_singleton.mp hp
            exact hid ▸ hfiles.1

end Index

/-! ## Records and links -/

/-- The record with a front before all paths and ids. -/
def EntityRecord.under (front : String) (r : EntityRecord) : EntityRecord :=
  { r with
    id := Path.under front r.id
    parent := r.parent.map (Path.under front)
    children := r.children.map (Path.under front)
    originFile := Path.under front r.originFile
    imports := r.imports.map (Import.Statement.under front) }

/-- The link with a front before its ends. -/
def Link.under (front : String) (l : Link) : Link :=
  { l with source := Path.under front l.source, target := Path.under front l.target }

theorem EntityRecord.ofEntity_under (h : Path.IsFront front) (e : Entity) (children : List Entity) :
    ofEntity (e.under front) (children.map (Entity.under front)) =
      (ofEntity e children).under front := by
  rw [ofEntity, e.codeWithoutBody_under, e.filePath_under h]
  rfl

namespace Index

theorem records_under (h : Path.IsFront front) (x : Index) :
    (x.under root front).records = x.records.map (EntityRecord.under front) := by
  rw [records, records, x.ordered_under h, List.map_map, List.map_map]
  refine List.map_congr_left fun e _ => ?_
  rw [Function.comp_apply, x.childrenOf_under h, EntityRecord.ofEntity_under h]
  rfl

theorem definesLinks_under (h : Path.IsFront front) (x : Index) :
    (x.under root front).definesLinks = x.definesLinks.map (Link.under front) := by
  rw [definesLinks, definesLinks, x.ordered_under h, List.filterMap_map, List.map_filterMap]
  refine List.filterMap_congr fun e _ => ?_
  rw [Function.comp_apply, Entity.parent_under, Option.map_map, Option.map_map]
  rfl

theorem links_under (h : Path.IsFront front) (x : Index) :
    (x.under root front).links = x.links.map (Link.under front) := by
  have hcalls : (x.under root front).callsLinks = x.callsLinks.map (Link.under front) := by
    simp only [callsLinks, under, Table.rekey, List.flatMap_map, List.map_flatMap, List.map_map]
    rfl
  rw [links, links, x.definesLinks_under h, hcalls, List.map_append]

end Index

end CodeAtlas
