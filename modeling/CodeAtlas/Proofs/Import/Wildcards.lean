import CodeAtlas.Import.Resolver
import CodeAtlas.Proofs.Pattern
import CodeAtlas.Survey

/-!
# Wildcards take no names

An import statement takes everything from a module or it lists names, never both: no pattern of the
catalogue captures a wildcard together with a name, and of the parts of one statement only the
wildcards count where there is one.
-/

namespace CodeAtlas
namespace Import

/-- A statement that takes everything lists no names. -/
def Statement.WildcardAlone (s : Statement) : Prop := s.wildcard = true → s.names = []

/-! ## Parts -/

variable {captures : List Capture} {language : Language}

/-- What no capture changes stays as it is while the captures of a match are read. -/
theorem foldl_read_keeps {α : Type} (view : Part → α)
    (h : ∀ c ∈ captures, ∀ p : Part, view (p.read c) = view p) (p : Part) :
    view (captures.foldl Part.read p) = view p :=
  List.foldlRecOn (motive := fun q => view q = view p) captures _ rfl
    fun q hq c hc => (h c hc q).trans hq

theorem name_foldl_read (h : ∀ c ∈ captures, c.label ≠ "name") (p : Part) :
    (captures.foldl Part.read p).name = p.name := by
  refine foldl_read_keeps (·.name) ?_ p
  intro c hc p
  rw [Part.read]
  split
  next hname => exact absurd hname (h c hc)
  all_goals rfl

theorem wildcard_foldl_read (h : ∀ c ∈ captures, c.label ≠ "wildcard") (p : Part) :
    (captures.foldl Part.read p).wildcard = p.wildcard := by
  refine foldl_read_keeps (·.wildcard) ?_ p
  intro c hc p
  rw [Part.read]
  split
  case h_3 hwildcard => exact absurd hwildcard (h c hc)
  all_goals rfl

theorem wildcard_splitQualified (p : Part) (statement : String) :
    (p.splitQualified statement).wildcard = p.wildcard := by
  rw [Part.splitQualified]
  split
  · rfl
  · dsimp only
    split <;> rfl

/-- No pattern for imports captures a wildcard together with a name, and the language whose parts
are split after the match has no wildcards. -/
theorem name_not_mem_labels (language : Language) :
    ∀ q ∈ (Catalogue.queries language .imports).flatten, "wildcard" ∈ q.pattern.labels →
      "name" ∉ q.pattern.labels ∧ language ≠ .php := by
  rw [Catalogue.queries_eq_readChars?]
  -- the characters of the patterns are laid open first, which keeps the evaluation short
  cases language <;>
    simp only [Catalogue.groups, Catalogue.python, Catalogue.script, Catalogue.typedScript,
      Catalogue.java, Catalogue.c, Catalogue.php, Catalogue.Python.imports,
      Catalogue.Script.imports, Catalogue.Java.imports, Catalogue.C.imports,
      Catalogue.Php.imports, List.append_nil, List.map_cons, List.map_nil] <;>
    repeat rw [String.toList_ofList]
  all_goals decide +kernel

theorem name_eq_none_of_wildcard {statement : Capture} {part : Part}
    {q : Pattern.Query} (hq : q ∈ (Catalogue.queries language .imports).flatten)
    (hlabels : ∀ c ∈ captures, c.label ∈ q.pattern.labels)
    (h : partOf? language captures = some (statement, part)) (hwildcard : part.wildcard = true) :
    part.name = none := by
  simp only [partOf?, Option.bind_eq_bind, Option.bind_eq_some_iff, Option.some.injEq,
    Prod.mk.injEq] at h
  obtain ⟨st, -, module, -, -, hpart⟩ := h
  by_cases hmem : "wildcard" ∈ q.pattern.labels
  · obtain ⟨hname, hphp⟩ := name_not_mem_labels language q hq hmem
    rw [beq_eq_false_iff_ne.mpr hphp] at hpart
    rw [← hpart]
    refine name_foldl_read (fun c hc heq => ?_) _
    exact hname (heq ▸ hlabels c hc)
  · have hfalse : ∀ opened : Part, (captures.foldl Part.read opened).wildcard = opened.wildcard :=
      wildcard_foldl_read fun c hc heq => hmem (heq ▸ hlabels c hc)
    rw [← hpart] at hwildcard
    split at hwildcard
    · rw [wildcard_splitQualified, hfalse] at hwildcard
      exact absurd hwildcard (by simp)
    · rw [hfalse] at hwildcard
      exact absurd hwildcard (by simp)

/-! ## Statements -/

theorem forall_parts_addDraft {P : Part → Prop} {statement : Capture} {part : Part}
    {ds : List Draft} (hpart : P part) (h : ∀ d ∈ ds, ∀ p ∈ d.parts, P p) :
    ∀ d ∈ addDraft statement part ds, ∀ p ∈ d.parts, P p := by
  have hnew : ∀ p ∈ [part], P p := by simpa using hpart
  induction ds with
  | nil => simpa [addDraft] using hpart
  | cons d ds ih =>
      rw [List.forall_mem_cons] at h
      simp only [addDraft]
      split
      · exact List.forall_mem_cons.mpr ⟨List.forall_mem_append.mpr ⟨h.1, hnew⟩, h.2⟩
      · split
        · exact List.forall_mem_cons.mpr ⟨hnew, List.forall_mem_cons.mpr h⟩
        · exact List.forall_mem_cons.mpr ⟨h.1, ih h.2⟩

theorem forall_parts_drafts {P : Part → Prop} {found : List (List Capture)}
    (h : ∀ captures ∈ found, ∀ statement part,
      partOf? language captures = some (statement, part) → P part) :
    ∀ d ∈ drafts language found, ∀ p ∈ d.parts, P p := by
  refine List.foldlRecOn (motive := fun ds : List Draft => ∀ d ∈ ds, ∀ p ∈ d.parts, P p) _ _
    (by simp) ?_
  intro ds hds sp hsp
  obtain ⟨captures, hcaptures, hsome⟩ := List.mem_filterMap.mp hsp
  exact forall_parts_addDraft (h captures hcaptures sp.1 sp.2 hsome) hds

/-- What holds of an empty statement and is kept by every part that counts holds of the statements
of a draft. -/
theorem forall_statements {P : Statement → Prop} {d : Draft} (hblank : ∀ m, P (d.blank m))
    (hadd : ∀ p ∈ d.counted, ∀ s, P s → P (s.add p)) (hnamed : ∀ s, P s → P (Draft.named s)) :
    ∀ s ∈ d.statements, P s := by
  have hpart : ∀ p ∈ d.counted, ∀ done : List Statement, (∀ s ∈ done, P s) →
      ∀ s ∈ d.addPart p done, P s := by
    intro p hp done hdone
    induction done with
    | nil => simpa [Draft.addPart] using hadd p hp _ (hblank p.module)
    | cons s done ih =>
        rw [List.forall_mem_cons] at hdone
        rw [Draft.addPart]
        split
        · exact List.forall_mem_cons.mpr ⟨hadd p hp s hdone.1, hdone.2⟩
        · exact List.forall_mem_cons.mpr ⟨hdone.1, ih hdone.2⟩
  have hall : ∀ s ∈ d.counted.foldl (fun done p => d.addPart p done) [], P s :=
    List.foldlRecOn (motive := fun done : List Statement => ∀ s ∈ done, P s) _ _ (by simp)
      fun done hdone p hp => hpart p hp done hdone
  intro s hs
  obtain ⟨s', hs', rfl⟩ := List.mem_map.mp hs
  exact hnamed s' (hall s' hs')

theorem wildcard_add (s : Statement) (p : Part) :
    (s.add p).wildcard = (s.wildcard || p.wildcard) := by
  rw [Statement.add]
  dsimp only
  split <;> rfl

theorem names_add_of_none (s : Statement) {p : Part} (h : p.name = none) :
    (s.add p).names = s.names := by
  rw [Statement.add, h]
  dsimp only
  split <;> simp_all

theorem named_names_wildcard (s : Statement) :
    (Draft.named s).names = s.names ∧ (Draft.named s).wildcard = s.wildcard := by
  rw [Draft.named]
  split <;> exact ⟨rfl, rfl⟩

theorem wildcardAlone_draft {d : Draft} (h : ∀ p ∈ d.parts, p.wildcard = true → p.name = none) :
    ∀ s ∈ d.statements, s.WildcardAlone := by
  by_cases hany : d.parts.any (·.wildcard) = true
  · have hcounted : ∀ p ∈ d.counted, p.name = none := by
      intro p hp
      rw [Draft.counted, hany, if_pos rfl, List.mem_mergeSort, List.mem_filter] at hp
      exact h p hp.1 hp.2
    have hnames : ∀ s ∈ d.statements, s.names = [] := by
      refine forall_statements (fun m => rfl) ?_ ?_
      · intro p hp s hs
        rw [names_add_of_none s (hcounted p hp), hs]
      · intro s hs
        rw [(named_names_wildcard s).1, hs]
    exact fun s hs _ => hnames s hs
  · have hcounted : ∀ p ∈ d.counted, p.wildcard = false := by
      intro p hp
      rw [Draft.counted, if_neg hany, List.mem_mergeSort] at hp
      rw [Bool.not_eq_true, List.any_eq_false] at hany
      exact Bool.not_eq_true _ ▸ hany p hp
    have hwildcard : ∀ s ∈ d.statements, s.wildcard = false := by
      refine forall_statements (fun m => rfl) ?_ ?_
      · intro p hp s hs
        rw [wildcard_add, hs, hcounted p hp, Bool.or_false]
      · intro s hs
        rw [(named_names_wildcard s).2, hs]
    intro s hs htrue
    rw [hwildcard s hs] at htrue
    exact absurd htrue (by simp)

/-- No import statement of a text takes everything and lists names. -/
theorem wildcardAlone_statements (language : Language) (content : String) :
    ∀ s ∈ (Survey.of language content).imports, s.WildcardAlone := by
  intro s hs
  obtain ⟨d, hd, hs⟩ := List.mem_flatMap.mp hs
  have hparts : ∀ p ∈ d.parts, p.wildcard = true → p.name = none := by
    refine forall_parts_drafts (fun captures hcaptures statement part hpart hwildcard => ?_) d hd
    obtain ⟨q, hq, hlabels⟩ := Capture.exists_query_of_mem_all hcaptures
    exact name_eq_none_of_wildcard hq hlabels hpart hwildcard
  exact wildcardAlone_draft hparts s hs

/-! ## Resolving keeps them apart -/

theorem withSubpaths_eq_nil {find : String → Option String} {names : List Name} (path : String)
    (h : names = []) : (Resolver.withSubpaths find names path).1 = [] := by
  rw [h, Resolver.withSubpaths]

theorem Resolver.names_resolve_eq_nil {s : Statement} (h : s.names = []) (r : Resolver)
    (importer : String) (language : Language) : (r.resolve importer language s).names = [] := by
  rw [Resolver.resolve]
  split
  next => exact h
  next => exact withSubpaths_eq_nil _ h

theorem Statement.WildcardAlone.resolve {s : Statement} (h : s.WildcardAlone) (r : Resolver)
    (importer : String) (language : Language) : (r.resolve importer language s).WildcardAlone := by
  rw [Resolver.resolve]
  split
  next => exact h
  next => exact fun hwildcard => withSubpaths_eq_nil _ (h hwildcard)

end Import
end CodeAtlas
