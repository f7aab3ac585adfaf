import CodeAtlas.Command
import CodeAtlas.Proofs.Record

/-!
# Settings survive saving

A file that does not hold settings stands for the default ones and no error is reported, so a
mistake in the text of a file would go unnoticed.  There is none: the text of settings is always
read, and it is read as the settings that it was written for, whatever their texts hold.
-/

namespace CodeAtlas

open Json (Natural text? truth? list? orElse)

namespace Settings

theorem natural_textsJson (texts : List String) : Natural (textsJson texts) := by
  refine .array _ fun v hv => ?_
  obtain ⟨t, -, rfl⟩ := List.mem_map.mp hv
  exact .string t

theorem natural_toJson (s : Settings) : Natural s.toJson := by
  apply Natural.object
  simp only [memberNames, memberValues, List.zip_cons_cons, List.zip_nil_left, List.forall_mem_cons]
  exact ⟨natural_textsJson _, natural_textsJson _, .bool _, .bool _, .bool _, .string _, .string _,
    nofun⟩

theorem list?_textsJson (texts : List String) : list? text? (textsJson texts) = some texts :=
  Json.list?_map fun _ _ => rfl

/-- Every member is written under the name under which it is looked for, and once. -/
theorem ofJson?_toJson (s : Settings) : ofJson? s.toJson = some s := by
  have hnames : (memberNames.zip s.memberValues).map Prod.fst = memberNames :=
    List.map_fst_zip (Nat.le_refl 7)
  rw [toJson, ofJson?, Json.members?_object memberNames (by decide)
    (hnames ▸ List.Sublist.refl _), Option.bind_some, ofMembers?]
  simp only [memberNames, memberValues, List.zip_cons_cons, List.lookup_cons, String.reduceBEq,
    orElse, list?_textsJson, truth?, text?, Json.some_bind]

theorem read?_text (s : Settings) : read? s.text = some s := by
  rw [read?, text, Json.read?_pretty s.natural_toJson, Option.bind_some, ofJson?_toJson]

/-- Settings survive saving: their text is read as the same settings, so that they never give way
to the default ones, and the file that holds the bytes of the text is loaded from every disk. -/
theorem load_text (s : Settings) :
    read? s.text = some s ∧ load (some s.text) = s ∧
      ∀ (disk : Disk) (here path : String),
        disk.locate? (Path.append here path) = some (.file s.text.toUTF8) →
          Command.loadSettings disk here path = .ok s := by
  have hload : load (some s.text) = s := by
    rw [load, Option.bind_some, read?_text, Option.getD_some]
  refine ⟨s.read?_text, hload, fun disk here path hfile => ?_⟩
  have hbytes : String.fromUTF8? s.text.toUTF8 = some s.text := by
    rw [String.fromUTF8?, String.toUTF8_eq_toByteArray, dif_pos s.text.isValidUTF8]
    rfl
  simp only [Command.loadSettings, hfile, hbytes, hload]

/-- Settings whose texts need escapes. -/
def quoted : Settings :=
  { standard with excludedFolders := ["größe", "a\"b\\"], recordsOutput := "nodes\n\x01.json" }

theorem load_text_quoted :
    Command.loadSettings ⟨[.file "codegraph.json" quoted.text.toUTF8]⟩ "/" "codegraph.json" =
      .ok quoted := by
  have hfile : ∀ content, Disk.locate? ⟨[.file "codegraph.json" content]⟩
      (Path.append "/" "codegraph.json") = some (.file content) := by
    intro content
    rfl
  exact (load_text quoted).2.2 _ _ _ (hfile _)

end Settings
end CodeAtlas
