import CodeAtlas.Proofs.Json
import CodeAtlas.Record.Reader
import Mathlib.Data.List.Nodup

/-!
# Records are read back

The text of a list of records or links holds all that there is to know about them: reading it gives
the list again.  Rows, columns, degrees and lines are unbounded here while the reader takes words of
64 bits only, so the lists that come back are those whose numbers fit.
-/

namespace CodeAtlas

open Json (Natural text? truth? word? list? nullable? named? orElse)

/-! ## Values -/

namespace Json

variable {α : Type} {read : Json → Option α} {write : α → Json} {v : Json}

/-- A step of a reader that succeeds. -/
theorem some_bind {β : Type} (a : α) (f : α → Option β) : (some a >>= f) = f a := rfl

theorem bind_eq_some {β : Type} {x : Option α} {f : α → Option β} {b : β} :
    (x >>= f) = some b ↔ ∃ a, x = some a ∧ f a = some b := Option.bind_eq_some_iff

theorem word?_ofNat {n : Nat} (h : n < UInt64.size) : word? (ofNat n) = some n := by
  have hdigits : (Nat.toDigits 10 n).all Char.isDigit = true := by
    rw [List.all_eq_true]
    intro c hc
    exact isDigit_of_mem_toDigits hc
  simp only [ofNat, word?, hdigits, Nat.ofDigitChars_ten_toDigits, Bool.true_and, decide_eq_true_eq,
    if_pos h]

theorem lt_of_word? {n : Nat} (h : word? v = some n) : n < UInt64.size := by
  cases v with
  | number literal =>
      simp only [word?] at h
      split at h
      · next hword =>
          rw [← Option.some.inj h]
          exact of_decide_eq_true (Bool.and_eq_true_iff.mp hword).2
      · exact absurd h nofun
  | _ => exact absurd h nofun

theorem read_of_nullable? {a : α} (h : nullable? read v = some (some a)) : read v = some a := by
  have hmap : (read v).map some = some (some a) := by
    cases v with
    | null => exact absurd h nofun
    | _ => exact h
  obtain ⟨b, hb, hba⟩ := Option.map_eq_some_iff.mp hmap
  rw [hb, hba]

/-- A list is read item by item. -/
theorem list?_map {as : List α} (h : ∀ a ∈ as, read (write a) = some a) :
    list? read (array (as.map write)) = some as := by
  change (as.map write).mapM read = some as
  induction as with
  | nil => rfl
  | cons a as ih =>
      rw [List.map_cons, List.mapM_cons, h a List.mem_cons_self,
        ih fun b hb => h b (List.mem_cons_of_mem a hb)]
      rfl

/-- What holds of everything that is read holds of the items of a list that is read. -/
theorem forall_of_list? {P : α → Prop} (hread : ∀ v a, read v = some a → P a) {as : List α}
    (h : list? read v = some as) : ∀ a ∈ as, P a := by
  cases v with
  | array items =>
      change items.mapM read = some as at h
      induction items generalizing as with
      | nil =>
          cases h
          exact nofun
      | cons v vs ih =>
          rw [List.mapM_cons] at h
          obtain ⟨a, ha, h⟩ := Option.bind_eq_some_iff.mp h
          obtain ⟨bs, hbs, h⟩ := Option.bind_eq_some_iff.mp h
          cases h
          intro b hb
          rcases List.mem_cons.mp hb with rfl | hb
          · exact hread v b ha
          · exact ih hbs b hb
  | _ => exact absurd h nofun

/-- A record gives its members under their names, if it has each of them at most once. -/
theorem members?_object (names : List String) {members : List (String × Json)}
    (hnames : names.Nodup) (h : (members.map Prod.fst).Sublist names) :
    members? names (object members) = some fun n => members.lookup n := by
  have hkeys : (members.map Prod.fst).Nodup := hnames.sublist h
  have hone : unambiguous names members = true := by
    rw [unambiguous, List.all_eq_true]
    intro n _
    have hcount : (members.filter (·.1 == n)).length = (members.map Prod.fst).count n := by
      rw [← List.countP_eq_length_filter, List.count, List.countP_map]
      rfl
    rw [decide_eq_true_eq, hcount]
    exact List.nodup_iff_count_le_one.mp hkeys n
  rw [members?, if_pos hone]

end Json

/-! ## Positions, imports and links -/

theorem Position.natural_toJson (p : Position) : Natural p.toJson := by
  apply Natural.object
  simp only [List.forall_mem_cons]
  exact ⟨.ofNat _, .ofNat _, nofun⟩

/-- The numbers of the position fit into words. -/
def Position.Fits (p : Position) : Prop := p.row < UInt64.size ∧ p.column < UInt64.size

theorem Position.ofJson?_toJson {p : Position} (h : p.Fits) : ofJson? p.toJson = some p := by
  rw [toJson, ofJson?, Json.members?_object]
  · simp only [Json.some_bind, List.lookup_cons, String.reduceBEq, Json.word?_ofNat h.1,
      Json.word?_ofNat h.2]
  · decide
  · exact List.Sublist.refl _

theorem Position.fits_of_ofJson? {v : Json} {p : Position} (h : ofJson? v = some p) : p.Fits := by
  simp only [ofJson?, Json.bind_eq_some] at h
  obtain ⟨member, -, row, ⟨_, -, hrow⟩, column, ⟨_, -, hcolumn⟩, h⟩ := h
  cases h
  exact ⟨Json.lt_of_word? hrow, Json.lt_of_word? hcolumn⟩

namespace Import

theorem Name.natural_toJson (n : Name) : Natural n.toJson := by
  apply Natural.object
  simp only [List.forall_mem_cons]
  exact ⟨.string _, .string _, .string _, nofun⟩

theorem Name.ofJson?_toJson (n : Name) : ofJson? n.toJson = some n := by
  rw [toJson, ofJson?, Json.members?_object]
  · simp only [Json.some_bind, List.lookup_cons, String.reduceBEq, text?]
  · decide
  · exact List.Sublist.refl _

theorem Statement.natural_toJson (s : Statement) : Natural s.toJson := by
  have hnames : ∀ v ∈ s.names.map Name.toJson, Natural v := by
    intro v hv
    obtain ⟨n, -, rfl⟩ := List.mem_map.mp hv
    exact n.natural_toJson
  apply Natural.object
  simp only [List.forall_mem_cons]
  exact ⟨.string _, .string _, .array _ hnames, .string _, .string _, s.start.natural_toJson,
    s.stop.natural_toJson, .bool _, nofun⟩

/-- The numbers of the statement fit into words. -/
def Statement.Fits (s : Statement) : Prop := s.start.Fits ∧ s.stop.Fits

theorem Statement.ofJson?_toJson {s : Statement} (h : s.Fits) : ofJson? s.toJson = some s := by
  have hnames : list? Name.ofJson? (.array (s.names.map Name.toJson)) = some s.names :=
    Json.list?_map fun n _ => n.ofJson?_toJson
  rw [toJson, ofJson?, Json.members?_object]
  · simp only [Json.some_bind, List.lookup_cons, String.reduceBEq, text?, truth?, orElse, hnames,
      Position.ofJson?_toJson h.1, Position.ofJson?_toJson h.2]
  · decide
  · exact List.Sublist.refl _

theorem Statement.fits_of_ofJson? {v : Json} {s : Statement} (h : ofJson? v = some s) :
    s.Fits := by
  simp only [ofJson?, Json.bind_eq_some] at h
  obtain ⟨member, -, module, -, moduleAlias, -, names, -, path, -, code, -, start, ⟨_, -, hstart⟩,
    stop, ⟨_, -, hstop⟩, wildcard, -, h⟩ := h
  cases h
  exact ⟨Position.fits_of_ofJson? hstart, Position.fits_of_ofJson? hstop⟩

end Import

namespace Link

theorem natural_toJson (l : Link) : Natural l.toJson := by
  apply Natural.object
  refine List.forall_mem_append.mpr ⟨?_, fun m hm => ?_⟩
  · simp only [List.forall_mem_cons]
    exact ⟨.string _, .string _, .string _, nofun⟩
  · obtain ⟨n, -, rfl⟩ := Option.map_eq_some_iff.mp (Option.mem_toList.mp hm)
    exact .ofNat n

/-- The line of the link fits into a word. -/
def Fits (l : Link) : Prop := ∀ n ∈ l.line, n < UInt64.size

theorem ofJson?_toJson {l : Link} (h : l.Fits) : ofJson? l.toJson = some l := by
  have hlabel : LinkLabel.ofName? l.label.name = some l.label := by cases l.label <;> rfl
  obtain ⟨source, target, label, line⟩ := l
  rw [toJson, ofJson?, Json.members?_object]
  · cases line with
    | none =>
        simp only [Option.map_none, Option.toList_none, List.append_nil, Json.some_bind,
          List.lookup_cons, List.lookup_nil, String.reduceBEq, text?, named?, orElse, hlabel]
    | some n =>
        have hline : nullable? word? (.ofNat n) = some (some n) := by
          change (word? (.ofNat n)).map some = _
          rw [Json.word?_ofNat (h n rfl)]
          rfl
        simp only [Option.map_some, Option.toList_some, List.cons_append, List.nil_append,
          Json.some_bind, List.lookup_cons, String.reduceBEq, text?, named?, orElse, hlabel, hline]
  · decide
  · cases line with
    | none => exact List.sublist_append_left ["source", "target", "label"] ["line"]
    | some n => exact List.Sublist.refl _

theorem fits_of_ofJson? {v : Json} {l : Link} (h : ofJson? v = some l) : l.Fits := by
  simp only [ofJson?, Json.bind_eq_some] at h
  obtain ⟨member, -, source, -, target, -, label, -, line, hline, h⟩ := h
  cases h
  intro n hn
  cases hn
  cases hv : member "line" with
  | none =>
      rw [hv] at hline
      exact absurd hline nofun
  | some v =>
      rw [hv, orElse] at hline
      exact Json.lt_of_word? (Json.read_of_nullable? hline)

end Link

/-! ## Entities -/

namespace EntityRecord

theorem natural_toJson (r : EntityRecord) : Natural r.toJson := by
  have hparent : Natural ((r.parent.map Json.string).getD .null) := by
    cases r.parent with
    | none => exact .null
    | some p => exact .string p
  have hchildren : ∀ v ∈ r.children.map Json.string, Natural v := by
    intro v hv
    obtain ⟨c, -, rfl⟩ := List.mem_map.mp hv
    exact .string c
  have himports : ∀ v ∈ r.imports.map Import.Statement.toJson, Natural v := by
    intro v hv
    obtain ⟨s, -, rfl⟩ := List.mem_map.mp hv
    exact s.natural_toJson
  apply Natural.object
  refine List.forall_mem_append.mpr ⟨?_, fun m hm => ?_⟩
  · simp only [List.forall_mem_cons]
    exact ⟨.string _, .string _, .string _, .string _, .string _, .string _, .string _, .string _,
      .string _, .string _, .bool _, r.start.natural_toJson, r.stop.natural_toJson, .ofNat _,
      .ofNat _, hparent, .array _ hchildren, .string _, nofun⟩
  · split at hm
    · exact absurd hm List.not_mem_nil
    · rw [List.mem_singleton.mp hm]
      exact .array _ himports

/-- The numbers of the record fit into words. -/
structure Fits (r : EntityRecord) : Prop where
  start : r.start.Fits
  stop : r.stop.Fits
  inDegree : r.inDegree < UInt64.size
  outDegree : r.outDegree < UInt64.size
  imports : ∀ s ∈ r.imports, s.Fits

theorem nodup_memberNames : memberNames.Nodup := by decide

theorem ofJson?_toJson {r : EntityRecord} (h : r.Fits) : ofJson? r.toJson = some r := by
  have hkind : EntityKind.ofName? r.kind.name = some r.kind := by cases r.kind <;> decide
  have hlanguage : Language.ofName? r.language.name = some r.language := by
    cases r.language <;> decide
  have hparent : nullable? text? ((r.parent.map Json.string).getD .null) = some r.parent := by
    cases r.parent <;> rfl
  have hchildren : list? text? (.array (r.children.map Json.string)) = some r.children :=
    Json.list?_map fun _ _ => rfl
  have himports : list? Import.Statement.ofJson? (.array (r.imports.map Import.Statement.toJson)) =
      some r.imports :=
    Json.list?_map fun s hs => Import.Statement.ofJson?_toJson (h.imports s hs)
  obtain ⟨hstart, hstop, hin, hout, -⟩ := h
  cases r with
  | mk id kind name otherName label language documentation code body codeNoBody exportable start stop
      inDegree outDegree parent children originFile imports =>
    rw [toJson, ofJson?, Json.members?_object memberNames nodup_memberNames]
    · cases imports with
      | nil =>
          simp only [List.isEmpty_nil, if_true, List.append_nil, Json.some_bind, List.lookup_cons,
            List.lookup_nil, String.reduceBEq, text?, named?, truth?, orElse, hkind, hlanguage, hparent,
            hchildren, Position.ofJson?_toJson hstart, Position.ofJson?_toJson hstop,
            Json.word?_ofNat hin, Json.word?_ofNat hout]
      | cons s ss =>
          simp only [List.isEmpty_cons, Bool.false_eq_true, if_false, List.cons_append,
            List.nil_append, Json.some_bind, List.lookup_cons, String.reduceBEq, text?, named?, truth?,
            orElse, hkind, hlanguage, hparent, hchildren, himports, Position.ofJson?_toJson hstart,
            Position.ofJson?_toJson hstop, Json.word?_ofNat hin, Json.word?_ofNat hout]
    -- the imports are the last member, and the only one that may be missing
    · cases imports with
      | nil => exact List.sublist_append_left memberNames.dropLast ["importStatements"]
      | cons s ss => exact List.Sublist.refl _

theorem fits_of_ofJson? {v : Json} {r : EntityRecord} (h : ofJson? v = some r) : r.Fits := by
  simp only [ofJson?, Json.bind_eq_some] at h
  obtain ⟨member, -, id, -, kind, -, name, -, otherName, -, label, -, language, -, documentation, -,
    code, -, body, -, codeNoBody, -, exportable, -, start, ⟨_, -, hstart⟩, stop, ⟨_, -, hstop⟩,
    inDegree, ⟨_, -, hin⟩, outDegree, ⟨_, -, hout⟩, parent, -, children, -, originFile, -, imports,
    himports, h⟩ := h
  cases h
  refine ⟨Position.fits_of_ofJson? hstart, Position.fits_of_ofJson? hstop, Json.lt_of_word? hin,
    Json.lt_of_word? hout, ?_⟩
  cases hv : member "importStatements" with
  | none =>
      rw [hv] at himports
      cases himports
      exact nofun
  | some v =>
      rw [hv] at himports
      exact Json.forall_of_list? (fun _ _ => Import.Statement.fits_of_ofJson?) himports

end EntityRecord

/-! ## Lists -/

section Lists

variable {α : Type} {write : α → Json} {read : Json → Option α} {P : α → Prop}

/-- A list comes back from its text exactly when each of its items is one that can be read. -/
theorem Json.read?_pretty_array_iff (hnatural : ∀ a, Natural (write a))
    (hwrite : ∀ a, P a → read (write a) = some a) (hread : ∀ v a, read v = some a → P a)
    (as : List α) :
    (read? (array (as.map write)).pretty).bind (list? read) = some as ↔ ∀ a ∈ as, P a := by
  have hitems : ∀ v ∈ as.map write, Natural v := by
    intro v hv
    obtain ⟨a, -, rfl⟩ := List.mem_map.mp hv
    exact hnatural a
  rw [read?_pretty (.array _ hitems), Option.bind_some]
  constructor
  · exact forall_of_list? hread
  · intro h
    exact list?_map fun a ha => hwrite a (h a ha)

end Lists

/-- The text of a list of records is read as that list, and so is the text of a list of links, if
and only if all numbers in them fit into words. -/
theorem readAll?_writeAll_eq_iff (rs : List EntityRecord) (ls : List Link) :
    (EntityRecord.readAll? (EntityRecord.writeAll rs) = some rs ↔ ∀ r ∈ rs, r.Fits) ∧
      (Link.readAll? (Link.writeAll ls) = some ls ↔ ∀ l ∈ ls, l.Fits) := by
  constructor
  · exact Json.read?_pretty_array_iff EntityRecord.natural_toJson
      (fun _ => EntityRecord.ofJson?_toJson) (fun _ _ => EntityRecord.fits_of_ofJson?) rs
  · exact Json.read?_pretty_array_iff Link.natural_toJson (fun _ => Link.ofJson?_toJson)
      (fun _ _ => Link.fits_of_ofJson?) ls

end CodeAtlas
