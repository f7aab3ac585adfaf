import CodeAtlas.Proofs.Extraction.Tree

/-!
# What becomes of an offered definition

A definition hangs under the file while it is offered its candidates.  Export carriers among them
only mark it.  The first candidate that is none claims it and puts its own header in front of the
code; then the definition is not free any more, and nothing else happens to it.  All other entities
keep what they hold, their degrees apart.
-/

namespace CodeAtlas

/-! ## Entities -/

namespace Entity

/-- `e'` is `e` with other degrees. -/
def Recounts (e e' : Entity) : Prop :=
  ∃ inDegree outDegree, e' = { e with inDegree := inDegree, outDegree := outDegree }

/-- `e'` is `e` with other degrees and with what export carriers say of it. -/
def Marked (e e' : Entity) : Prop :=
  ∃ inDegree outDegree exportable documentation, e' =
    { e with
      inDegree := inDegree
      outDegree := outDegree
      exportable := exportable
      documentation := documentation }

/-- `e'` is `e` after the owner has claimed it. -/
def Claimed (e owner e' : Entity) : Prop :=
  ∃ m, e.Marked m ∧ (Forest.claimedBy (m.spliceHeader owner.signature) owner).Recounts e'

variable {e e' e'' owner : Entity}

theorem Recounts.refl (e : Entity) : e.Recounts e := ⟨_, _, rfl⟩

theorem Recounts.trans (h : e.Recounts e') (h' : e'.Recounts e'') : e.Recounts e'' := by
  obtain ⟨_, _, rfl⟩ := h
  obtain ⟨_, _, rfl⟩ := h'
  exact ⟨_, _, rfl⟩

theorem Recounts.claimedBy (h : e.Recounts e') (owner : Entity) :
    (Forest.claimedBy e owner).Recounts (Forest.claimedBy e' owner) := by
  obtain ⟨a, b, rfl⟩ := h
  refine ⟨a, b, ?_⟩
  simp only [Forest.claimedBy, filePath]
  split <;> rfl

theorem Recounts.marked (h : e.Recounts e') : e.Marked e' := by
  obtain ⟨a, b, rfl⟩ := h
  exact ⟨a, b, e.exportable, e.documentation, rfl⟩

theorem Marked.trans (h : e.Marked e') (h' : e'.Marked e'') : e.Marked e'' := by
  obtain ⟨_, _, _, _, rfl⟩ := h
  obtain ⟨a, b, x, d, rfl⟩ := h'
  exact ⟨a, b, x, d, rfl⟩

theorem Marked.exportedBy (e wrapper : Entity) : e.Marked (Forest.exportedBy e wrapper) :=
  ⟨_, _, _, _, rfl⟩

theorem Claimed.recounts (h : e.Claimed owner e') (h' : e'.Recounts e'') : e.Claimed owner e'' := by
  obtain ⟨m, hm, hclaimed⟩ := h
  exact ⟨m, hm, hclaimed.trans h'⟩

end Entity

namespace Forest

variable {f g k : Forest} {i j c p : Nat} {e owner : Entity}

/-! ## Other entities -/

/-- Every entity of `g`, the one at an index apart, is that of `f` with other degrees. -/
def Keeps (f g : Forest) (i : Nat) : Prop :=
  ∀ j e, j ≠ i → f.entity? j = some e → ∃ e', g.entity? j = some e' ∧ e.Recounts e'

theorem Keeps.trans (h : f.Keeps g i) (h' : g.Keeps k i) : f.Keeps k i := by
  intro j e hj he
  obtain ⟨e', he', hrecounts⟩ := h j e hj he
  obtain ⟨e'', he'', hrecounts'⟩ := h' j e' hj he'
  exact ⟨e'', he'', hrecounts.trans hrecounts'⟩

theorem Keeps.modify (f : Forest) (i : Nat) (step : Entity → Entity) : f.Keeps (f.modify i step) i := by
  intro j e hj he
  refine ⟨e, ?_, .refl e⟩
  rw [entity?_modify, he, Option.map_some, if_neg hj]

theorem exists_recounts_attach (p c : Nat) (he : f.entity? j = some e) :
    ∃ e', (f.attach p c).entity? j = some e' ∧ e.Recounts e' := by
  rw [entity?_attach, he]
  exact ⟨_, rfl, _, _, rfl⟩

theorem exists_recounts_release (i : Nat) (he : f.entity? j = some e) :
    ∃ e', (f.release i).entity? j = some e' ∧ e.Recounts e' := by
  rw [release]
  split
  next => exact ⟨e, he, .refl e⟩
  next old _ =>
    by_cases hmem : i ∈ f.children old
    · rw [entity?_detach hmem, he]
      exact ⟨_, rfl, _, _, rfl⟩
    · rw [detach_of_not_mem hmem]
      exact ⟨e, he, .refl e⟩

/-- What is claimed has the header of its owner. -/
theorem exists_entity?_claim (c : Nat) (owner : Entity) (he : f.entity? i = some e) :
    ∃ e', (f.claim i c owner).entity? i = some e' ∧
      (claimedBy (e.spliceHeader owner.signature) owner).Recounts e' := by
  have hspliced : (f.modify i (·.spliceHeader owner.signature)).entity? i =
      some (e.spliceHeader owner.signature) := by
    rw [entity?_modify, he, Option.map_some, if_pos rfl]
  obtain ⟨e₁, he₁, h₁⟩ := exists_recounts_release i hspliced
  obtain ⟨e₂, he₂, h₂⟩ := exists_recounts_attach c i he₁
  refine ⟨claimedBy e₂ owner, ?_, (h₁.trans h₂).claimedBy owner⟩
  rw [claim, entity?_modify, he₂, Option.map_some, if_pos rfl]

theorem Keeps.claim (f : Forest) (i c : Nat) (owner : Entity) : f.Keeps (f.claim i c owner) i := by
  refine (Keeps.modify f i (·.spliceHeader owner.signature)).trans
    (Keeps.trans ?_ (Keeps.modify _ i (claimedBy · owner)))
  intro j e _ he
  obtain ⟨e₁, he₁, h₁⟩ := exists_recounts_release i he
  obtain ⟨e₂, he₂, h₂⟩ := exists_recounts_attach c i he₁
  exact ⟨e₂, he₂, h₁.trans h₂⟩

/-! ## Offers -/

theorem relate_of_isFree (he : f.entity? i = some e) (howner : f.entity? c = some owner)
    (hne : c ≠ i) (hrows : e.span.rowsWithin owner.span = true) (hfree : f.isFree i = true) :
    (f.relate i c).1 =
      if owner.kind = .export then f.modify i (exportedBy · owner) else f.claim i c owner := by
  have hguard : (i == c || !e.span.rowsWithin owner.span || !f.isFree i) = false := by
    simp [Ne.symm hne, hrows, hfree]
  simp only [relate, he, howner, hguard, Bool.false_eq_true, if_false]
  by_cases hexport : owner.kind = .export
  · simp [hexport]
  · cases hparent : f.parent? i <;> simp [hexport, claim, release, hparent]

theorem relate_of_not_isFree (h : f.isFree i = false) (c : Nat) : (f.relate i c).1 = f := by
  rw [relate]
  split
  · rw [h]
    simp
  · rfl

/-- The index hangs under the file at zero. -/
structure AtTop (f : Forest) (i : Nat) (e : Entity) : Prop where
  linked : f.Linked
  entity : f.entity? i = some e
  parent : f.parent? i = some 0
  file : ∃ file, f.entity? 0 = some file ∧ file.kind = .file
  ne_zero : i ≠ 0

namespace AtTop

theorem isFree (h : f.AtTop i e) : f.isFree i = true := by
  obtain ⟨file, hfile, hkind⟩ := h.file
  simp [Forest.isFree, h.parent, hfile, hkind]

/-- The file does not move, and neither do the other entities. -/
theorem modify (h : f.AtTop i e) (step : Entity → Entity)
    (hin : ∀ e, (step e).inDegree = e.inDegree) (hout : ∀ e, (step e).outDegree = e.outDegree) :
    (f.modify i step).AtTop i (step e) where
  linked := h.linked.modify hin hout
  entity := by rw [entity?_modify, h.entity, Option.map_some, if_pos rfl]
  parent := by rw [parent?_modify, h.parent]
  file := by
    obtain ⟨file, hfile, hkind⟩ := h.file
    exact ⟨file, by rw [entity?_modify, hfile, Option.map_some, if_neg h.ne_zero.symm], hkind⟩
  ne_zero := h.ne_zero

end AtTop
end Forest

namespace Extraction

open Forest (Linked Keeps AtTop)

variable {f : Forest} {i c : Nat} {e owner : Entity} {cs : List Nat}

theorem offer_of_not_isFree (h : f.isFree i = false) (cs : List Nat) : offer f i cs = f := by
  induction cs with
  | nil => rfl
  | cons c cs ih => rw [offer_cons, Forest.relate_of_not_isFree h, ih]

theorem offer_append (f : Forest) (i : Nat) (cs ds : List Nat) :
    offer f i (cs ++ ds) = offer (offer f i cs) i ds :=
  List.foldl_append

/-- The index may be put under the candidate, or be marked by it. -/
structure Suits (f : Forest) (i : Nat) (e : Entity) (c : Nat) (owner : Entity) : Prop where
  ne : c ≠ i
  entity : f.entity? c = some owner
  rows : e.span.rowsWithin owner.span = true

/-- Export carriers leave an index where it is. -/
theorem offer_exports (h : f.AtTop i e)
    (hcs : ∀ c ∈ cs, ∃ owner, Suits f i e c owner ∧ owner.kind = .export) :
    ∃ m, (offer f i cs).AtTop i m ∧ e.Marked m ∧
      ∀ j, j ≠ i → (offer f i cs).entity? j = f.entity? j := by
  induction cs generalizing f e with
  | nil => exact ⟨e, h, (Entity.Recounts.refl e).marked, fun _ _ => rfl⟩
  | cons c cs ih =>
      obtain ⟨owner, hsuits, hexport⟩ := hcs c List.mem_cons_self
      have hother : ∀ j, j ≠ i →
          (f.modify i (Forest.exportedBy · owner)).entity? j = f.entity? j := by
        intro j hj
        rw [Forest.entity?_modify]
        simp [hj]
      have hrest : ∀ d ∈ cs, ∃ wrapper, Suits (f.modify i (Forest.exportedBy · owner)) i
          (Forest.exportedBy e owner) d wrapper ∧ wrapper.kind = .export := by
        intro d hd
        obtain ⟨wrapper, hsuits, hkind⟩ := hcs d (List.mem_cons_of_mem c hd)
        exact ⟨wrapper, ⟨hsuits.ne, (hother d hsuits.ne).trans hsuits.entity, hsuits.rows⟩, hkind⟩
      rw [offer_cons, Forest.relate_of_isFree h.entity hsuits.entity hsuits.ne hsuits.rows h.isFree,
        if_pos hexport]
      obtain ⟨m, htop, hmarked, hsame⟩ :=
        ih (h.modify (Forest.exportedBy · owner) (fun _ => rfl) fun _ => rfl) hrest
      refine ⟨m, htop, (Entity.Marked.exportedBy e owner).trans hmarked, ?_⟩
      intro j hj
      rw [hsame j hj, hother j hj]

/-- The first candidate that is no export carrier claims an index for good. -/
theorem offer_owner (h : f.AtTop i e) (hsuits : Suits f i e c owner) (hexport : owner.kind ≠ .export)
    (hfile : owner.kind ≠ .file) (cs : List Nat) : offer f i (c :: cs) = f.claim i c owner := by
  rw [offer_cons, Forest.relate_of_isFree h.entity hsuits.entity hsuits.ne hsuits.rows h.isFree,
    if_neg hexport]
  apply offer_of_not_isFree
  have hparent : (f.claim i c owner).parent? i = some c := by
    rw [h.linked.parent?_claim (Forest.lt_size_of_entity? h.entity), if_pos rfl]
  obtain ⟨last, hlast, hrecounts⟩ := Keeps.claim f i c owner c owner hsuits.ne hsuits.entity
  obtain ⟨_, _, rfl⟩ := hrecounts
  simp [Forest.isFree, hparent, hlast, hfile]

/-! ## Holders -/

section Holders

variable {f₀ g : Forest} {order before after : List (Entity × Nat)} {x : Entity × Nat}

/-- The candidates for an entity in the order in which they are offered. -/
def offered (before : List (Entity × Nat)) (e : Entity) (after : List (Entity × Nat)) :
    List (Entity × Nat) :=
  (before.filter (fun c => mayHold c.1 e true) ++
    after.filter (fun c => mayHold c.1 e false)).reverse.mergeSort
      fun a b => a.1.span.rows ≤ b.1.span.rows

theorem candidates_eq (before : List (Entity × Nat)) (e : Entity) (after : List (Entity × Nat)) :
    candidates before e after = (offered before e after).map Prod.snd := rfl

theorem mem_offered {c : Entity × Nat} : c ∈ offered before e after ↔
    c ∈ before ∧ mayHold c.1 e true = true ∨ c ∈ after ∧ mayHold c.1 e false = true := by
  simp only [offered, List.mem_mergeSort, List.mem_reverse, List.mem_append, List.mem_filter]

theorem mem_of_mem_offered {c : Entity × Nat} (horder : order = before ++ x :: after)
    (hc : c ∈ offered before x.1 after) : c ∈ order := by
  rw [horder]
  rcases mem_offered.mp hc with ⟨hc, -⟩ | ⟨hc, -⟩
  · exact List.mem_append_left _ hc
  · exact List.mem_append_right _ (List.mem_cons_of_mem x hc)

/-- The candidate that claims an entity. -/
def holder? (before : List (Entity × Nat)) (e : Entity) (after : List (Entity × Nat)) :
    Option (Entity × Nat) :=
  (offered before e after).find? (·.1.kind != .export)

theorem rowsWithin_of_mem_offered {c : Entity × Nat} (h : c ∈ offered before e after) :
    e.span.rowsWithin c.1.span = true := by
  rcases mem_offered.mp h with ⟨-, hmay⟩ | ⟨-, hmay⟩
  all_goals
    rw [mayHold, Bool.and_eq_true, Bool.and_eq_true] at hmay
    exact hmay.1.2

/-- What became of a definition that was placed behind some definitions and before others. -/
inductive Outcome (f : Forest) (before : List (Entity × Nat)) (x : Entity × Nat)
    (after : List (Entity × Nat)) : Prop
  /-- It stays under the file. -/
  | top (e : Entity) (hholder : holder? before x.1 after = none) (hparent : f.parent? x.2 = some 0)
      (hentity : f.entity? x.2 = some e) (hmarked : x.1.Marked e)
  /-- Its holder has claimed it; a holder that was placed already has not changed since. -/
  | held (c : Entity × Nat) (owner e : Entity) (hholder : holder? before x.1 after = some c)
      (hparent : f.parent? x.2 = some c.2) (hentity : f.entity? x.2 = some e)
      (howner : c.1.Becomes owner) (hclaimed : x.1.Claimed owner e)
      (hlast : c ∈ before → ∃ last, f.entity? c.2 = some last ∧ owner.Recounts last)

theorem Outcome.keeps (h : Outcome f before x after) (hkeeps : f.Keeps g i)
    (hparent : g.parent? x.2 = f.parent? x.2) (hx : x.2 ≠ i) (hbefore : ∀ c ∈ before, c.2 ≠ i) :
    Outcome g before x after := by
  cases h with
  | top e hholder hold hentity hmarked =>
      obtain ⟨e', hentity', hrecounts⟩ := hkeeps x.2 e hx hentity
      exact .top e' hholder (hparent.trans hold) hentity' (hmarked.trans hrecounts.marked)
  | held c owner e hholder hold hentity howner hclaimed hlast =>
      obtain ⟨e', hentity', hrecounts⟩ := hkeeps x.2 e hx hentity
      refine .held c owner e' hholder (hparent.trans hold) hentity' howner
        (hclaimed.recounts hrecounts) ?_
      intro hc
      obtain ⟨last, hlast, hrecounts⟩ := hlast hc
      obtain ⟨last', hlast', hrecounts'⟩ := hkeeps c.2 last (hbefore c hc) hlast
      exact ⟨last', hlast', hrecounts.trans hrecounts'⟩

namespace Setting

theorem snd_ne_of_mem_after (s : Setting f₀ order) (horder : order = before ++ x :: after)
    {y : Entity × Nat} (hy : y ∈ after) : y.2 ≠ x.2 := by
  have hnodup := s.nodup
  rw [horder, List.map_append, List.map_cons] at hnodup
  have hnot := (List.nodup_cons.mp (List.nodup_append.mp hnodup).2.1).1
  intro heq
  exact hnot (heq ▸ List.mem_map_of_mem hy)

theorem snd_ne_of_mem_offered (s : Setting f₀ order) (horder : order = before ++ x :: after)
    {c : Entity × Nat} (hc : c ∈ offered before x.1 after) : c.2 ≠ x.2 := by
  rcases mem_offered.mp hc with ⟨hc, -⟩ | ⟨hc, -⟩
  · exact s.snd_ne_of_mem_before horder hc
  · exact s.snd_ne_of_mem_after horder hc

/-- A candidate suits the index that it is offered to, whatever was placed before. -/
theorem suits_of_mem_offered (s : Setting f₀ order) (horder : order = before ++ x :: after)
    (hgrows : f₀.Grows f) {c : Entity × Nat} (hc : c ∈ offered before x.1 after) {e : Entity}
    (hspan : e.span = x.1.span) :
    ∃ owner, Suits f x.2 e c.2 owner ∧ c.1.Becomes owner := by
  obtain ⟨owner, howner, hbecomes⟩ :=
    hgrows.becomes c.2 c.1 (s.entity c (mem_of_mem_offered horder hc))
  refine ⟨owner, ⟨s.snd_ne_of_mem_offered horder hc, howner, ?_⟩, hbecomes⟩
  rw [hspan, hbecomes.span]
  exact rowsWithin_of_mem_offered hc

/-- Offering its candidates to a definition at the top of the file. -/
theorem outcome_offer (s : Setting f₀ order) (hkinds : ∀ y ∈ order, y.1.kind ≠ .file)
    (horder : order = before ++ x :: after) (hgrows : f₀.Grows f) (htop : f.AtTop x.2 e)
    (hrecounts : x.1.Recounts e) :
    Outcome (offer f x.2 (candidates before x.1 after)) before x after ∧
      f.Keeps (offer f x.2 (candidates before x.1 after)) x.2 := by
  have hspan : e.span = x.1.span := by
    obtain ⟨_, _, rfl⟩ := hrecounts
    rfl
  have hexports : ∀ cs : List (Entity × Nat), (∀ c ∈ cs, c ∈ offered before x.1 after) →
      (∀ c ∈ cs, c.1.kind = .export) →
      ∀ c ∈ cs.map Prod.snd, ∃ owner, Suits f x.2 e c owner ∧ owner.kind = .export := by
    intro cs hsub hkind i hi
    obtain ⟨c, hc, rfl⟩ := List.mem_map.mp hi
    obtain ⟨owner, hsuits, hbecomes⟩ := s.suits_of_mem_offered horder hgrows (hsub c hc) hspan
    exact ⟨owner, hsuits, (hbecomes.kind_eq_iff (by decide) (by decide)).mpr (hkind c hc)⟩
  rw [candidates_eq]
  cases hholder : holder? before x.1 after with
  | none =>
      have hall : ∀ c ∈ offered before x.1 after, c.1.kind = .export := by
        simpa [holder?] using hholder
      obtain ⟨m, hm, hmarked, hsame⟩ := offer_exports htop (hexports _ (fun _ hc => hc) hall)
      refine ⟨.top m hholder hm.parent hm.entity (hrecounts.marked.trans hmarked), ?_⟩
      intro j e' hj he'
      exact ⟨e', (hsame j hj).trans he', .refl e'⟩
  | some c =>
      obtain ⟨hkind, as, bs, hoffered, has⟩ := List.find?_eq_some_iff_append.mp hholder
      have hsub : ∀ a ∈ as, a ∈ offered before x.1 after := by
        intro a ha
        rw [hoffered]
        exact List.mem_append_left _ ha
      have hc : c ∈ offered before x.1 after := by
        rw [hoffered]
        exact List.mem_append_right _ List.mem_cons_self
      obtain ⟨m, hm, hmarked, hsame⟩ :=
        offer_exports htop (hexports as hsub fun a ha => by simpa using has a ha)
      obtain ⟨owner, hsuits, hbecomes⟩ := s.suits_of_mem_offered horder hgrows hc hspan
      have hmspan : m.span = e.span := by
        obtain ⟨_, _, _, _, rfl⟩ := hmarked
        rfl
      have hsuits' : Suits (offer f x.2 (as.map Prod.snd)) x.2 m c.2 owner :=
        ⟨hsuits.ne, (hsame c.2 hsuits.ne).trans hsuits.entity, hmspan ▸ hsuits.rows⟩
      have hexport : owner.kind ≠ .export := by
        rw [Ne, hbecomes.kind_eq_iff (by decide) (by decide)]
        simpa using hkind
      have hfile : owner.kind ≠ .file := by
        rw [Ne, hbecomes.kind_eq_iff (by decide) (by decide)]
        exact hkinds c (mem_of_mem_offered horder hc)
      rw [hoffered, List.map_append, List.map_cons, offer_append,
        offer_owner hm hsuits' hexport hfile]
      obtain ⟨e', he', hclaimed⟩ := Forest.exists_entity?_claim c.2 owner hm.entity
      have hkeeps := Keeps.claim (offer f x.2 (as.map Prod.snd)) x.2 c.2 owner
      constructor
      · refine .held c owner e' hholder ?_ he' hbecomes
          ⟨m, hrecounts.marked.trans hmarked, hclaimed⟩ ?_
        · rw [hm.linked.parent?_claim (Forest.lt_size_of_entity? hm.entity), if_pos rfl]
        · intro _
          exact hkeeps c.2 owner hsuits.ne hsuits'.entity
      · intro j e' hj he'
        exact hkeeps j e' hj ((hsame j hj).trans he')

end Setting

/-! ## Placing all definitions -/

/-- What became of the definitions in `before`, while those in `after` wait. -/
structure Told (before after : List (Entity × Nat)) (f : Forest) : Prop where
  waiting : ∀ x ∈ after, ∃ e, f.entity? x.2 = some e ∧ x.1.Recounts e
  outcome : ∀ earlier x later, before = earlier ++ x :: later → x.1.kind ≠ .export →
    Outcome f earlier x (later ++ after)

/-- One more definition is placed. -/
theorem Told.concat (hwaiting : ∀ y ∈ after, ∃ e, g.entity? y.2 = some e ∧ y.1.Recounts e)
    (hx : x.1.kind ≠ .export → Outcome g before x after)
    (houtcome : ∀ earlier y later, before = earlier ++ y :: later → y.1.kind ≠ .export →
      Outcome g earlier y (later ++ x :: after)) : Told (before ++ [x]) after g := by
  refine ⟨hwaiting, ?_⟩
  intro earlier y later hbefore hykind
  rcases List.eq_nil_or_concat later with rfl | ⟨later, z, rfl⟩
  · obtain ⟨rfl, hxy⟩ := List.append_inj' hbefore rfl
    obtain rfl := (List.cons.inj hxy).1
    exact hx hykind
  · rw [List.concat_eq_append, ← List.cons_append, ← List.append_assoc] at hbefore
    obtain ⟨rfl, hxz⟩ := List.append_inj' hbefore rfl
    obtain rfl := (List.cons.inj hxz).1
    rw [List.concat_eq_append, List.append_assoc]
    exact houtcome earlier y later rfl hykind

namespace Setting

/-- Placing one definition tells what becomes of it and changes nothing else. -/
theorem told_one (s : Setting f₀ order) (hkinds : ∀ y ∈ order, y.1.kind ≠ .file)
    (hfile : ∃ file, f₀.entity? 0 = some file ∧ file.kind = .file)
    (horder : order = before ++ x :: after) (hplaced : Placed f₀ order before f)
    (h : Told before (x :: after) f) :
    Told (before ++ [x]) after (offer (f.attach 0 x.2) x.2 (candidates before x.1 after)) := by
  have hx : x ∈ order := by rw [horder]; simp
  have hnew : ∀ y ∈ before, y.2 ≠ x.2 := fun y hy => s.snd_ne_of_mem_before horder hy
  have hlt : x.2 < f.size := s.lt_size horder hplaced
  have hgrows : f₀.Grows (f.attach 0 x.2) := hplaced.grows.trans (.attach f 0 x.2)
  obtain ⟨e₀, he₀, hrecounts₀⟩ := h.waiting x List.mem_cons_self
  obtain ⟨e, he, hrecounts⟩ := Forest.exists_recounts_attach 0 x.2 he₀
  have htop : (f.attach 0 x.2).AtTop x.2 e := by
    refine ⟨s.linked_attach horder hplaced, he, ?_, ?_, s.ne_zero x hx⟩
    · rw [Forest.parent?_attach hlt, if_pos rfl]
    · obtain ⟨file, hfile, hkind⟩ := hfile
      obtain ⟨file', hfile', hbecomes⟩ := hgrows.becomes 0 file hfile
      exact ⟨file', hfile', (hbecomes.kind_eq_iff (by decide) (by decide)).mpr hkind⟩
  obtain ⟨houtcome, hkept⟩ :=
    s.outcome_offer hkinds horder hgrows htop (hrecounts₀.trans hrecounts)
  have hkeeps : f.Keeps (offer (f.attach 0 x.2) x.2 (candidates before x.1 after)) x.2 := by
    refine Keeps.trans ?_ hkept
    intro j e' _ he'
    exact Forest.exists_recounts_attach 0 x.2 he'
  refine Told.concat ?_ (fun _ => houtcome) ?_
  · intro y hy
    obtain ⟨e₁, he₁, hrecounts₁⟩ := h.waiting y (List.mem_cons_of_mem x hy)
    obtain ⟨e₂, he₂, hrecounts₂⟩ := hkeeps y.2 e₁ (s.snd_ne_of_mem_after horder hy) he₁
    exact ⟨e₂, he₂, hrecounts₁.trans hrecounts₂⟩
  · rintro earlier y later rfl hykind
    have hy : y.2 ≠ x.2 := hnew y (by simp)
    refine (h.outcome earlier y later rfl hykind).keeps hkeeps ?_ hy ?_
    · rw [parent?_offer_of_ne htop.linked _ hy, Forest.parent?_attach hlt, if_neg hy]
    · intro c hc
      exact hnew c (List.mem_append_left _ hc)

/-- Placing all definitions behind those that are placed already. -/
theorem told_rest (s : Setting f₀ order) (hkinds : ∀ y ∈ order, y.1.kind ≠ .file)
    (hfile : ∃ file, f₀.entity? 0 = some file ∧ file.kind = .file)
    (horder : order = before ++ after) (hplaced : Placed f₀ order before f)
    (h : Told before after f) : Told order [] (place 0 before after f) := by
  induction after generalizing before f with
  | nil =>
      rw [List.append_nil] at horder
      subst horder
      exact h
  | cons x after ih =>
      obtain ⟨e, i⟩ := x
      have horder' : order = before ++ [(e, i)] ++ after := by simpa using horder
      rw [place]
      split
      next hexport =>
        have hexport : e.kind = .export := by simpa using hexport
        refine ih horder' (hplaced.pass hexport) (Told.concat ?_ (absurd hexport) h.outcome)
        exact fun y hy => h.waiting y (List.mem_cons_of_mem _ hy)
      next hexport =>
        exact ih horder' (s.place_one horder hplaced (by simpa using hexport))
          (s.told_one hkinds hfile horder hplaced h)

end Setting

end Holders

/-! ## Files -/

variable {language : Language} {path content : String} {s : Survey}
  {before after : List (Entity × Nat)} {x : Entity × Nat}

theorem exists_of_mem_order (hx : x ∈ order language path content s) :
    ∃ d, s.definitions[x.2 - 1]? = some d ∧ 1 ≤ x.2 ∧ x.1 = entity language path content d := by
  obtain ⟨hpos, hget⟩ := List.mk_mem_zipIdx_iff_le_and_getElem?_sub.mp
    ((order_perm language path content s).mem_iff.mp hx)
  rw [List.getElem?_map] at hget
  obtain ⟨d, hd, hentity⟩ := Option.map_eq_some_iff.mp hget
  exact ⟨d, hd, hpos, hentity.symm⟩

theorem mem_order (language : Language) (path content : String) {d : Survey.Definition} {j : Nat}
    (h : s.definitions[j]? = some d) :
    (entity language path content d, j + 1) ∈ order language path content s := by
  apply (order_perm language path content s).mem_iff.mpr
  apply List.mk_mem_zipIdx_iff_le_and_getElem?_sub.mpr
  refine ⟨Nat.le_add_left 1 j, ?_⟩
  rw [Nat.add_sub_cancel, List.getElem?_map, h, Option.map_some]

/-- What became of a definition of a file. -/
theorem outcome_placedForest (hs : ∀ d ∈ s.definitions, d.kind ≠ .file)
    (horder : order language path content s = before ++ x :: after) (hx : x.1.kind ≠ .export) :
    Outcome (placedForest language path content s) before x after := by
  have hkinds : ∀ y ∈ order language path content s, y.1.kind ≠ .file := by
    intro y hy
    obtain ⟨d, hd, -, hentity⟩ := exists_of_mem_order hy
    rw [hentity, (Unlinked.entity language path content d).kind_eq]
    exact hs d (List.mem_of_getElem? hd)
  have hfile : ∃ file, (Forest.planted (unplaced language path content s)).entity? 0 = some file ∧
      file.kind = .file :=
    ⟨fileEntity language path content s, by rw [Forest.entity?_planted]; rfl, rfl⟩
  have htold : Told (order language path content s) [] (placedForest language path content s) := by
    apply (setting language path content s).told_rest hkinds hfile rfl
    · exact placed_planted language path content s
    · refine ⟨?_, fun earlier y later h => absurd h (by simp)⟩
      intro y hy
      exact ⟨y.1, (setting language path content s).entity y hy, .refl y.1⟩
  have houtcome := htold.outcome before x after horder hx
  rwa [List.append_nil] at houtcome

end Extraction
end CodeAtlas
