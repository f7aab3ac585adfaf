import CodeAtlas.Proofs.Extraction.Bodies
import CodeAtlas.Proofs.Extraction.Methods

/-!
# Headers in the code

The code of a definition that stands in another one starts with the header of that one.  A definition
is placed after everything that can hold it, so that the header is the one of the listed parent and
not of some earlier stage of it.  The header of a definition is its code up to its body, and that
code starts with the header of its own parent; so headers add up from the outside to the inside, as
long as every definition on the way has a body that is found in its place.  The header of a
definition without a body is the first row of its code, and that row belongs to what is around it.
-/

namespace CodeAtlas

open Survey (Definition)

/-! ## Trimmed texts -/

namespace Text

variable {t cs : List Char} {p : Char → Bool}

/-- The text has no blanks at its two ends. -/
structure Trimmed (t : List Char) : Prop where
  head : ∀ c ∈ t.head?, isBlank c = false
  last : ∀ c ∈ t.getLast?, isBlank c = false

theorem trimChars_prefix_start (cs : List Char) : trimChars cs <+: trimStartChars cs := by
  have hsuffix := List.dropWhile_suffix isBlank (l := (trimStartChars cs).reverse)
  simpa [trimChars, trimEndChars] using List.reverse_prefix.mpr hsuffix

theorem trimChars_infix (cs : List Char) : trimChars cs <:+: cs :=
  (trimChars_prefix_start cs).isInfix.trans (List.dropWhile_suffix isBlank).isInfix

theorem trimmed_trimChars (cs : List Char) : Trimmed (trimChars cs) := by
  constructor
  · intro c hc
    obtain ⟨more, hmore⟩ := trimChars_prefix_start cs
    have hhead : (trimStartChars cs).head? = some c := by
      rw [← hmore, List.head?_append, hc]
      rfl
    have hnot := List.head?_dropWhile_not isBlank cs
    rw [← trimStartChars, hhead] at hnot
    simpa using hnot
  · intro c hc
    have hnot := List.head?_dropWhile_not isBlank (trimStartChars cs).reverse
    rw [trimChars, trimEndChars, List.getLast?_reverse] at hc
    rw [hc] at hnot
    simpa using hnot

theorem infix_dropWhile (hhead : ∀ c ∈ t.head?, p c = false) (h : t <:+: cs) :
    t <:+: cs.dropWhile p := by
  obtain ⟨before, after, rfl⟩ := h
  induction before with
  | nil =>
      cases t with
      | nil => exact List.nil_infix
      | cons c t =>
          have hc : p c = false := hhead c rfl
          refine ⟨[], after, ?_⟩
          simp [hc]
  | cons b before ih =>
      rw [List.cons_append, List.cons_append, List.dropWhile_cons]
      split
      · exact ih
      · exact ⟨b :: before, after, rfl⟩

/-- Trimming a text leaves its trimmed parts alone. -/
theorem infix_trimChars (ht : Trimmed t) (h : t <:+: cs) : t <:+: trimChars cs := by
  have hstart : t <:+: trimStartChars cs := infix_dropWhile ht.head h
  have hreverse : t.reverse <:+: (trimStartChars cs).reverse.dropWhile isBlank := by
    refine infix_dropWhile ?_ (List.reverse_infix.mpr hstart)
    intro c hc
    rw [List.head?_reverse] at hc
    exact ht.last c hc
  rw [trimChars, trimEndChars, ← List.reverse_infix, List.reverse_reverse]
  exact hreverse

end Text

/-! ## Signatures -/

namespace Entity

variable {e e' owner : Entity} {header own : String}

theorem signature_congr (hcode : e'.code = e.code) (hdocumentation : e'.documentation = e.documentation)
    (hbody : e'.body = e.body) (hbodyStart : e'.bodyStart = e.bodyStart) (hspan : e'.span = e.span)
    (hsource : e'.source = e.source) : e'.signature = e.signature := by
  simp only [signature, visibleBody?, locate?, expectedOffset?, hcode, hdocumentation, hbody,
    hbodyStart, hspan, hsource]

theorem Recounts.signature_eq (h : e.Recounts e') : e'.signature = e.signature := by
  obtain ⟨_, _, rfl⟩ := h
  exact signature_congr rfl rfl rfl rfl rfl rfl

theorem Listed.signature_eq (h : e.Listed e') : e'.signature = e.signature := by
  obtain ⟨_, _, _, _, _, rfl⟩ := h
  exact signature_congr rfl rfl rfl rfl rfl rfl

/-- A text in front of the own code moves the body by its size. -/
theorem expectedOffset?_add {target : String} {n offset : Nat}
    (h : e.expectedOffset? owner target n = some offset) (size : Nat) :
    e.expectedOffset? owner target (size + n) = some (size + offset) := by
  simp only [expectedOffset?, Option.ite_none_left_eq_some, Option.ite_none_right_eq_some,
    Option.some.injEq] at h ⊢
  obtain ⟨hstart, hsource, hoffset⟩ := h
  exact ⟨hstart, by omega, by omega⟩

theorem locate?_of_showsBody (header : String) {target : String} {before after : List Char}
    (hown : own.toList = before ++ (target.toList ++ after))
    (hoffset : e.expectedOffset? e target (Text.size own) = some (Text.byteLength before)) :
    e.locate? e target [] (header.toList ++ own.toList) = some (header.toList ++ before, after) := by
  refine locate?_of_expectedOffset? (by rw [hown, List.append_assoc]) ?_
  rw [Text.byteLength_append, Text.byteLength_append, Text.byteLength, Nat.zero_add, Nat.zero_add]
  exact expectedOffset?_add hoffset _

/-- The signature of an entity whose body is found in its place starts with what stands in front of
its own code. -/
theorem exists_signature_eq (hcode : e.code = header ++ own) (h : e.ShowsBody own) :
    ∃ rest, e.signature.toList = Text.trimChars (header.toList ++ rest) := by
  obtain ⟨target, before, after, hbody, hown, hoffset⟩ := h
  have hlocate := locate?_of_showsBody header hown hoffset
  rw [← String.toList_append, ← hcode] at hlocate
  refine ⟨before ++ after, ?_⟩
  simp only [signature, hbody, Option.bind_some, hlocate, String.toList_ofList, List.append_assoc]

theorem Claimed.code_eq (h : e.Claimed owner e') :
    e'.code = owner.signature ++ "\n" ++ Text.spaces e.span.start.column ++ "...\n" ++
      Text.spaces e.span.start.column ++ e.code := by
  obtain ⟨m, ⟨_, _, _, _, rfl⟩, _, _, rfl⟩ := h
  rw [Forest.claimedBy]
  split <;> simp only [spliceHeader]

end Entity

/-! ## The code of a listed definition -/

namespace Extraction

variable {language : Language} {path content : String} {s : Survey} {j : Nat}

/-- `e` is listed for a definition.  Under the file it has the code of the definition, and under
another definition the header of that one stands in front. -/
structure Headed (language : Language) (path content : String) (es : List Entity) (d : Definition)
    (e : Entity) : Prop where
  finishes : (entity language path content d).Finishes e
  parent : ∃ p ∈ es, e.parent = some p.id
  top : e.parent = some path → e.code = (entity language path content d).code
  held : ∀ p ∈ es, p.kind ≠ .file → e.parent = some p.id →
    e.code = p.signature ++ "\n" ++ Text.spaces e.span.start.column ++ "...\n" ++
      Text.spaces e.span.start.column ++ (entity language path content d).code

theorem Headed.signature_infix_code {es : List Entity} {d : Definition} {e p : Entity}
    (h : Headed language path content es d e) (hp : p ∈ es) (hfile : p.kind ≠ .file)
    (hparent : e.parent = some p.id) : p.signature.toList <:+: e.code.toList := by
  rw [h.held p hp hfile hparent]
  simp only [String.toList_append, List.append_assoc]
  exact (List.prefix_append p.signature.toList _).isInfix

theorem headed_named (hs : ∀ d ∈ s.definitions, d.kind ≠ .file)
    (harranged : Arranged content (order language path content s))
    (hj : j ∈ (forest language path content s).descendants 0) :
    Headed language path content (entities language path content s) (definitionAt s j)
      ((numberedForest language path content s).named j) := by
  have hfinishes := finishes_named (mem_order_of_mem_descendants hs hj) hj
  have hparents : ∀ {k}, k ∈ 0 :: (forest language path content s).descendants 0 →
      ((numberedForest language path content s).named j).parent =
        some ((numberedForest language path content s).named k).id →
      ∀ p ∈ entities language path content s,
        ((numberedForest language path content s).named j).parent = some p.id →
          p = (numberedForest language path content s).named k := by
    intro k hk hparent p hp hid
    exact eq_of_id_eq hs hp (named_mem hk) (Option.some.inj (hid.symm.trans hparent))
  cases standing hs hj with
  | top e hparent hmarked hlisted =>
      refine ⟨hfinishes, ⟨_, named_mem List.mem_cons_self, hparent⟩, ?_, ?_⟩
      · intro _
        obtain ⟨_, _, _, _, _, hnamed⟩ := hlisted
        obtain ⟨_, _, _, _, rfl⟩ := hmarked
        rw [hnamed]
      · intro p hp hfile hid
        rw [hparents List.mem_cons_self hparent p hp hid] at hfile
        exact absurd (named_zero hs).2 hfile
  | held before after c owner e horder hoffered hcmem hparent howner hclaimed hlisted _ hlast =>
      have hlistedParent := hparents (List.mem_cons_of_mem 0 hcmem) hparent
      refine ⟨hfinishes, ⟨_, named_mem (List.mem_cons_of_mem 0 hcmem), hparent⟩, ?_, ?_⟩
      · intro hid
        have hfile :=
          hlistedParent _ (named_mem List.mem_cons_self) (by rw [hid, (named_zero hs).1])
        refine absurd ?_ (kind_named_ne_file hs hcmem)
        rw [← hfile]
        exact (named_zero hs).2
      · intro p hp _ hid
        -- the owner was placed before, so that its header is the listed one
        obtain ⟨last, hrecounts, hlast⟩ :=
          hlast (harranged.mem_before_of_mem_offered horder hoffered)
        have hsignature : ((numberedForest language path content s).named c.2).signature =
            owner.signature := hlast.signature_eq.trans hrecounts.signature_eq
        have hspan : ((numberedForest language path content s).named j).span =
            (entity language path content (definitionAt s j)).span := by
          obtain ⟨id, n, hbecomes, -⟩ := hfinishes
          exact hbecomes.span
        obtain ⟨_, _, _, _, _, hnamed⟩ := hlisted
        rw [hlistedParent p hp hid, hsignature, hspan, hnamed]
        exact hclaimed.code_eq

/-- The header of `a` is on its way into the code of `n`: `a` is the parent of `n`, or the header is
on its way into the code of the parent, which has a body that is found in its place. -/
inductive Shows (language : Language) (path content : String) (es : List Entity) (a : Entity) :
    Entity → Prop
  | parent {n : Entity} (ha : a ∈ es) (hfile : a.kind ≠ .file) (hparent : n.parent = some a.id) :
      Shows language path content es a n
  | through {n m : Entity} {d : Definition} (hm : m ∈ es) (hfile : m.kind ≠ .file)
      (hparent : n.parent = some m.id) (hd : Headed language path content es d m)
      (hbody : m.ShowsBody (entity language path content d).code)
      (hshows : Shows language path content es a m) : Shows language path content es a n

/-- What is on its way into the code of a definition stands in the header of its parent. -/
theorem Shows.infix_signature {es : List Entity} {a n : Entity}
    (h : Shows language path content es a n) :
    ∃ p ∈ es, p.kind ≠ .file ∧ n.parent = some p.id ∧
      Text.trimChars a.signature.toList <:+: p.signature.toList := by
  induction h with
  | parent ha hfile hparent => exact ⟨a, ha, hfile, hparent, Text.trimChars_infix _⟩
  | @through n m d hm hfile hparent hd hbody hshows ih =>
      refine ⟨m, hm, hfile, hparent, ?_⟩
      obtain ⟨p, hp, hpfile, hpparent, hinfix⟩ := ih
      obtain ⟨rest, hsignature⟩ :=
        Entity.exists_signature_eq (hd.held p hp hpfile hpparent) hbody
      rw [hsignature]
      apply Text.infix_trimChars (Text.trimmed_trimChars _)
      refine hinfix.trans ?_
      simp only [String.toList_append, List.append_assoc]
      exact (List.prefix_append p.signature.toList _).isInfix

/-- In the list of a file, the code of a definition under another one is the header of the listed
parent in front of its own code.  So it holds the header of every definition around it that all
definitions in between pass on, and a definition with a visible body does so if it holds that body
and no documentation is cut out of it. -/
theorem extract?_headers {path : String} {language : Language}
    (hlanguage : Language.ofPath? path = some language) {content : String}
    (hsize : Text.size content < UInt64.size) :
    ∃ es ds, extract? path content = some es ∧
      ds.Perm ((Survey.of language content).definitions.filter (·.kind != .export)) ∧
      List.Forall₂ (Headed language path content es) ds es.tail ∧
      (∀ d ∈ ds, d.HoldsBody language → ∀ m, Headed language path content es d m →
        m.visibleBody?.isSome → m.ShowsBody (entity language path content d).code) ∧
      ∀ a, ∀ n ∈ es.tail, Shows language path content es a n →
        (Text.trim a.signature).toList <:+: n.code.toList := by
  have hs : ∀ d ∈ (Survey.of language content).definitions, d.kind ≠ .file :=
    fun d hd => Survey.kind_ne_file_of_mem hd
  have hspans : ∀ d ∈ (Survey.of language content).definitions, d.ownSpan.StretchOf content :=
    fun d hd => Survey.stretchOf_of_mem rfl hd
  have harranged := arranged_order language path hsize hspans
  have hheaded : List.Forall₂ (Headed language path content
      (entities language path content (Survey.of language content)))
      (definitionsBelow language path content (Survey.of language content))
      (entities language path content (Survey.of language content)).tail := by
    nth_rewrite 2 [entities_eq]
    rw [List.map_cons, List.tail_cons, definitionsBelow, List.forall₂_map_left_iff,
      List.forall₂_map_right_iff, List.forall₂_same]
    exact fun j hj => headed_named hs harranged hj
  have hperm := definitionsBelow_perm language path content (Survey.of language content)
  refine ⟨_, _, by rw [extract?, hlanguage, Option.map_some], hperm, hheaded, ?_, ?_⟩
  · intro d hd hholds m hm hvisible
    have hmem := (List.mem_filter.mp (hperm.mem_iff.mp hd)).1
    exact showsBody_of_holdsBody hholds (hspans d hmem) hm.finishes hvisible
  · intro a n hn hshows
    obtain ⟨p, hp, hfile, hparent, hinfix⟩ := hshows.infix_signature
    obtain ⟨d, -, hd⟩ := Related.exists_of_mem hheaded hn
    rw [Text.trim, String.toList_ofList]
    exact hinfix.trans (hd.signature_infix_code hp hfile hparent)

/-- The interface of a function two levels up is cut off behind its first row. -/
theorem exists_cutOff :
    ∃ a ∈ entities .typescript "/a.ts" bodies bodiesSurvey,
      ∃ m ∈ entities .typescript "/a.ts" bodies bodiesSurvey,
        ∃ n ∈ entities .typescript "/a.ts" bodies bodiesSurvey, a.kind ≠ .file ∧
          m.parent = some a.id ∧ n.parent = some m.id ∧
          ¬ a.signature.toList <:+: n.code.toList := by
  simp only [entities, forest, Forest.finish, Forest.idOrder_eq_insertionSort, placement_bodies]
  simp only [bodiesSurvey, List.map_cons, List.map_nil, List.zipIdx_cons, List.zipIdx_nil, place,
    candidates, Sorting.mergeSort_key]
  decide +kernel

/-- The method of the class has its body in its place. -/
theorem exists_passedOn :
    ∃ a ∈ entities .typescript "/a.ts" bodies bodiesSurvey,
      ∃ m ∈ (entities .typescript "/a.ts" bodies bodiesSurvey).tail,
        ∃ n ∈ (entities .typescript "/a.ts" bodies bodiesSurvey).tail,
          a.kind = .cls ∧ m.kind = .method ∧ n.kind = .function ∧ n.parent ≠ some a.id ∧
          m.parent = some a.id ∧ n.parent = some m.id ∧
          m.code = a.signature ++ "\n" ++ Text.spaces m.span.start.column ++ "...\n" ++
            Text.spaces m.span.start.column ++ "f(){function g(){}}" ∧
          m.visibleBody? = some "{function g(){}}" ∧
          m.expectedOffset? m "{function g(){}}" (Text.size "f(){function g(){}}") = some 3 := by
  simp only [entities, forest, Forest.finish, Forest.idOrder_eq_insertionSort, placement_bodies]
  simp only [bodiesSurvey, List.map_cons, List.map_nil, List.zipIdx_cons, List.zipIdx_nil, place,
    candidates, Sorting.mergeSort_key]
  decide +kernel

/-- The code of the inner function starts with the header of the class. -/
theorem extract?_headers_bodies :
    Language.ofPath? "/a.ts" = some .typescript ∧ Text.size bodies < UInt64.size ∧
      ∃ es, extract? "/a.ts" bodies = some es ∧
        ∃ a ∈ es, ∃ n ∈ es.tail, a.kind = .cls ∧ n.kind = .function ∧ n.parent ≠ some a.id ∧
          (Text.trim a.signature).toList <:+: n.code.toList := by
  have hlanguage : Language.ofPath? "/a.ts" = some .typescript := by decide +kernel
  have hsize : Text.size bodies < UInt64.size := by decide +kernel
  refine ⟨hlanguage, hsize, ?_⟩
  obtain ⟨es, ds, hes, -, hheaded, -, hshows⟩ := extract?_headers hlanguage hsize
  obtain rfl := Option.some.inj (hes.symm.trans extract?_bodies)
  obtain ⟨a, ha, m, hm, n, hn, hclass, hmethod, hfunction, hne, hmparent, hnparent, hcode, hbody,
    hoffset⟩ := exists_passedOn
  have hafile : a.kind ≠ .file := by rw [hclass]; decide
  have hmfile : m.kind ≠ .file := by rw [hmethod]; decide
  obtain ⟨d, -, hd⟩ := Related.exists_of_mem hheaded hm
  have hown : (entity .typescript "/a.ts" bodies d).code = "f(){function g(){}}" := by
    rw [hd.held a ha hafile hmparent] at hcode
    exact String.append_right_inj _ |>.mp hcode
  have hshowsBody : m.ShowsBody (entity .typescript "/a.ts" bodies d).code := by
    rw [hown]
    exact ⟨_, ['f', '(', ')'], [], hbody, by decide +kernel, hoffset⟩
  refine ⟨_, hes, a, ha, n, hn, hclass, hfunction, hne, hshows a n hn ?_⟩
  exact .through (List.mem_of_mem_tail hm) hmfile hnparent hd hshowsBody (.parent ha hafile hmparent)

/-- The code of a definition does not hold the headers of all definitions around it. -/
theorem not_forall_signature_infix_code :
    ¬ ∀ (path content : String) (es : List Entity), extract? path content = some es →
      ∀ a ∈ es, ∀ m ∈ es, ∀ n ∈ es, a.kind ≠ .file → m.parent = some a.id →
        n.parent = some m.id → a.signature.toList <:+: n.code.toList := by
  intro hall
  obtain ⟨a, ha, m, hm, n, hn, hfile, hmparent, hnparent, hnot⟩ := exists_cutOff
  exact hnot (hall "/a.ts" bodies _ extract?_bodies a ha m hm n hn hfile hmparent hnparent)

end Extraction
end CodeAtlas
