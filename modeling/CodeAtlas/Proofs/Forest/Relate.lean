import CodeAtlas.Proofs.Forest.Edges

/-!
# Claiming entities

What `relate` does to a forest.  It changes one entity at most, moves at most one edge, and keeps
a forest linked.  The entity itself stays the same text at the same place; only a function that a
class claims takes another kind, name and id, and it does so once.
-/

namespace CodeAtlas

/-! ## What an entity can become -/

/-- `e'` is what can become of `e` while its file is taken apart. -/
structure Entity.Becomes (e e' : Entity) : Prop where
  language : e'.language = e.language
  body : e'.body = e.body
  bodyStart : e'.bodyStart = e.bodyStart
  span : e'.span = e.span
  imports : e'.imports = e.imports
  source : e'.source = e.source
  named : (e'.kind = e.kind ∧ e'.name = e.name ∧ e'.id = e.id) ∨
    (e.kind = .function ∧ e'.kind = .method ∧ ∃ owner : String,
      e'.name = owner ++ "." ++ e.name ∧ e'.id = e.filePath ++ "::" ++ e'.name)

namespace Entity.Becomes

variable {e e' e'' : Entity}

theorem refl (e : Entity) : e.Becomes e :=
  ⟨rfl, rfl, rfl, rfl, rfl, rfl, Or.inl ⟨rfl, rfl, rfl⟩⟩

theorem trans (h : e.Becomes e') (h' : e'.Becomes e'') : e.Becomes e'' where
  language := h'.language.trans h.language
  body := h'.body.trans h.body
  bodyStart := h'.bodyStart.trans h.bodyStart
  span := h'.span.trans h.span
  imports := h'.imports.trans h.imports
  source := h'.source.trans h.source
  named := by
    rcases h.named with ⟨hkind, hname, hid⟩ | ⟨hfun, hmethod, hnamed⟩
    · have hpath : e'.filePath = e.filePath := by rw [filePath, filePath, hid]
      rcases h'.named with ⟨hkind', hname', hid'⟩ | ⟨hfun', hmethod', hnamed'⟩
      · exact Or.inl ⟨hkind'.trans hkind, hname'.trans hname, hid'.trans hid⟩
      · rw [hname, hpath] at hnamed'
        exact Or.inr ⟨hkind ▸ hfun', hmethod', hnamed'⟩
    · -- a method is not promoted again
      rcases h'.named with ⟨hkind', hname', hid'⟩ | ⟨hfun', -, -⟩
      · refine Or.inr ⟨hfun, hkind'.trans hmethod, ?_⟩
        rw [hname', hid']
        exact hnamed
      · rw [hmethod] at hfun'
        exact absurd hfun' (by decide)

/-- Only functions and methods are told apart by what becomes of them. -/
theorem kind_eq_iff (h : e.Becomes e') {k : EntityKind} (hfun : k ≠ .function)
    (hmethod : k ≠ .method) : e'.kind = k ↔ e.kind = k := by
  rcases h.named with ⟨hkind, -, -⟩ | ⟨hf, hm, -⟩
  · rw [hkind]
  · rw [hf, hm]
    exact ⟨fun hk => absurd hk.symm hmethod, fun hk => absurd hk.symm hfun⟩

theorem exportedBy (e wrapper : Entity) : e.Becomes (Forest.exportedBy e wrapper) :=
  ⟨rfl, rfl, rfl, rfl, rfl, rfl, Or.inl ⟨rfl, rfl, rfl⟩⟩

theorem spliceHeader (e : Entity) (header : String) : e.Becomes (e.spliceHeader header) :=
  ⟨rfl, rfl, rfl, rfl, rfl, rfl, Or.inl ⟨rfl, rfl, rfl⟩⟩

theorem claimedBy (e owner : Entity) : e.Becomes (Forest.claimedBy e owner) := by
  rw [Forest.claimedBy]
  split
  next h =>
    have hfun : e.kind = .function := by
      simp only [Bool.and_eq_true, beq_iff_eq] at h
      exact h.2
    exact ⟨rfl, rfl, rfl, rfl, rfl, rfl, Or.inr ⟨hfun, rfl, owner.name, rfl, rfl⟩⟩
  next => exact refl e

theorem withDegrees (e : Entity) (a b : Nat) :
    e.Becomes { e with inDegree := a, outDegree := b } :=
  ⟨rfl, rfl, rfl, rfl, rfl, rfl, Or.inl ⟨rfl, rfl, rfl⟩⟩

end Entity.Becomes

namespace Forest

variable {f g k : Forest} {i j p c : Nat}

/-! ## What a forest can become -/

/-- Every entity of `g` is what can become of the entity of `f` at the same index. -/
structure Grows (f g : Forest) : Prop where
  size_eq : g.size = f.size
  becomes : ∀ i e, f.entity? i = some e → ∃ e', g.entity? i = some e' ∧ e.Becomes e'

namespace Grows

theorem refl (f : Forest) : f.Grows f :=
  ⟨rfl, fun _ e he => ⟨e, he, .refl e⟩⟩

theorem trans (h : f.Grows g) (h' : g.Grows k) : f.Grows k := by
  refine ⟨h'.size_eq.trans h.size_eq, ?_⟩
  intro i e he
  obtain ⟨e', he', hbecomes⟩ := h.becomes i e he
  obtain ⟨e'', he'', hbecomes'⟩ := h'.becomes i e' he'
  exact ⟨e'', he'', hbecomes.trans hbecomes'⟩

/-- Where an entity comes from. -/
theorem origin (h : f.Grows g) {e' : Entity} (he' : g.entity? i = some e') :
    ∃ e, f.entity? i = some e ∧ e.Becomes e' := by
  have hi : i < f.size := h.size_eq ▸ lt_size_of_entity? he'
  obtain ⟨e, he⟩ := exists_entity?_iff.mpr hi
  obtain ⟨e₁, he₁, hbecomes⟩ := h.becomes i e he
  rw [he'] at he₁
  obtain rfl : e' = e₁ := Option.some.inj he₁
  exact ⟨e, he, hbecomes⟩

/-- Entities that are changed one by one make a forest grow. -/
theorem of_map (hsize : g.size = f.size) (step : Nat → Entity → Entity)
    (hstep : ∀ i (e : Entity), e.Becomes (step i e))
    (hentity : ∀ i, g.entity? i = (f.entity? i).map (step i)) : f.Grows g := by
  refine ⟨hsize, ?_⟩
  intro i e he
  exact ⟨step i e, by rw [hentity, he]; rfl, hstep i e⟩

theorem modify {step : Entity → Entity} (hstep : ∀ e : Entity, e.Becomes (step e)) :
    f.Grows (f.modify i step) := by
  refine of_map (size_modify f i step) (fun j e => if j = i then step e else e) ?_
    (entity?_modify f i · step)
  intro j e
  split
  · exact hstep e
  · exact .refl e

theorem attach (f : Forest) (p c : Nat) : f.Grows (f.attach p c) :=
  of_map (size_attach f p c) _ (fun _ e => .withDegrees e _ _) (entity?_attach f p c)

theorem detach (f : Forest) (p c : Nat) : f.Grows (f.detach p c) := by
  by_cases h : c ∈ f.children p
  · exact of_map (size_detach f p c) _ (fun _ e => .withDegrees e _ _)
      (fun _ => entity?_detach h)
  · rw [detach_of_not_mem h]
    exact refl f

end Grows

/-! ## Moving an index -/

/-- The forest in which an index has no parent. -/
def release (f : Forest) (i : Nat) : Forest :=
  match f.parent? i with
  | none => f
  | some old => f.detach old i

@[simp] theorem size_release (f : Forest) (i : Nat) : (f.release i).size = f.size := by
  rw [release]
  split <;> simp

theorem Grows.release (f : Forest) (i : Nat) : f.Grows (f.release i) := by
  rw [Forest.release]
  split
  · exact refl f
  · exact detach f _ i

theorem Linked.release (h : f.Linked) (i : Nat) : (f.release i).Linked := by
  rw [Forest.release]
  split
  · exact h
  · exact h.detach _ i

theorem Linked.parent?_release (h : f.Linked) (i j : Nat) :
    (f.release i).parent? j = if j = i then none else f.parent? j := by
  rw [Forest.release]
  split
  next hnone => split <;> simp_all
  next old hold => exact parent?_detach ((h.mem_children old i).mpr hold)

/-- The forest in which an owner has claimed an index. -/
def claim (f : Forest) (i c : Nat) (owner : Entity) : Forest :=
  (((f.modify i (·.spliceHeader owner.signature)).release i).attach c i).modify i
    (claimedBy · owner)

/-- What `relate` can do: nothing, mark an exported entity, or move an index. -/
theorem relate_cases (f : Forest) (i c : Nat) :
    (f.relate i c).1 = f ∨ ∃ e owner, f.entity? i = some e ∧ f.entity? c = some owner ∧
      i ≠ c ∧ e.span.rowsWithin owner.span = true ∧ f.isFree i = true ∧
      (owner.kind = .export ∧ (f.relate i c).1 = f.modify i (exportedBy · owner) ∨
        owner.kind ≠ .export ∧ (f.relate i c).1 = f.claim i c owner) := by
  rw [relate]
  split
  next e owner he howner =>
    split
    next => exact Or.inl rfl
    next hguard =>
      simp only [Bool.or_eq_true, beq_iff_eq, Bool.not_eq_true', not_or, Bool.not_eq_false]
        at hguard
      refine Or.inr ⟨e, owner, he, howner, hguard.1.1, hguard.1.2, hguard.2, ?_⟩
      split
      next hexport => exact Or.inl ⟨by simpa using hexport, rfl⟩
      next hexport =>
        refine Or.inr ⟨by simpa using hexport, ?_⟩
        cases hparent : f.parent? i <;> simp [claim, release, hparent]
  next => exact Or.inl rfl

/-- What holds of a forest, of the forest in which an export has marked an index, and of the one in
which a candidate has claimed it, holds after the two are related. -/
theorem relate_induction {I : Forest → Prop} (hstart : I f)
    (hexport : ∀ owner, f.entity? c = some owner → owner.kind = .export →
      I (f.modify i (exportedBy · owner)))
    (hclaim : ∀ owner, i < f.size → f.entity? c = some owner → owner.kind ≠ .export →
      I (f.claim i c owner)) : I (f.relate i c).1 := by
  rcases relate_cases f i c with h | ⟨e, owner, he, howner, -, -, -, ⟨hkind, h⟩ | ⟨hkind, h⟩⟩
  · rw [h]
    exact hstart
  · rw [h]
    exact hexport owner howner hkind
  · rw [h]
    exact hclaim owner (lt_size_of_entity? he) howner hkind

theorem Grows.claim (f : Forest) (i c : Nat) (owner : Entity) : f.Grows (f.claim i c owner) :=
  (Grows.modify (.spliceHeader · _)).trans <| (Grows.release _ i).trans <|
    (Grows.attach _ c i).trans (Grows.modify (.claimedBy · owner))

theorem Grows.relate (f : Forest) (i c : Nat) : f.Grows (f.relate i c).1 :=
  relate_induction (refl f) (fun owner _ _ => modify (.exportedBy · owner))
    fun owner _ _ _ => claim f i c owner

theorem degrees_claimedBy (e owner : Entity) :
    (claimedBy e owner).inDegree = e.inDegree ∧ (claimedBy e owner).outDegree = e.outDegree := by
  rw [claimedBy]
  split <;> exact ⟨rfl, rfl⟩

namespace Linked

theorem spliced (h : f.Linked) (i : Nat) (header : String) :
    (f.modify i (·.spliceHeader header)).Linked :=
  h.modify (fun _ => rfl) (fun _ => rfl)

theorem claim (h : f.Linked) {owner : Entity} (hi : i < f.size) (hc : c < f.size) :
    (f.claim i c owner).Linked := by
  have hspliced := h.spliced i owner.signature
  have hfree := hspliced.parent?_release i i
  rw [if_pos rfl] at hfree
  have hmoved := (hspliced.release i).attach (p := c) (by simpa using hc) (by simpa using hi) hfree
  exact hmoved.modify (fun e => (degrees_claimedBy e owner).1) fun e =>
    (degrees_claimedBy e owner).2

/-- Claiming an index changes the parent of that index only. -/
theorem parent?_claim (h : f.Linked) {owner : Entity} (hi : i < f.size) (j : Nat) :
    (f.claim i c owner).parent? j = if j = i then some c else f.parent? j := by
  have hspliced := h.spliced i owner.signature
  rw [Forest.claim, parent?_modify, parent?_attach (by simpa using hi)]
  split
  next => rfl
  next hj => rw [hspliced.parent?_release, if_neg hj, parent?_modify]

theorem relate (h : f.Linked) (i c : Nat) : (f.relate i c).1.Linked :=
  relate_induction h (fun _ _ _ => h.modify (fun _ => rfl) (fun _ => rfl))
    fun _ hi howner _ => h.claim hi (lt_size_of_entity? howner)

/-- Relating an index changes no other parent. -/
theorem parent?_relate_of_ne (h : f.Linked) (c : Nat) (hj : j ≠ i) :
    (f.relate i c).1.parent? j = f.parent? j := by
  refine relate_induction (I := fun g => g.parent? j = f.parent? j) rfl ?_ ?_
  · intro owner _ _
    rw [parent?_modify]
  · intro owner hi _ _
    rw [h.parent?_claim hi, if_neg hj]

/-- An index keeps its parent or moves under the candidate, which is no export. -/
theorem parent?_relate_cases (h : f.Linked) (i c : Nat) :
    (f.relate i c).1.parent? i = f.parent? i ∨
      (f.relate i c).1.parent? i = some c ∧ ∃ owner, f.entity? c = some owner ∧
        owner.kind ≠ .export := by
  refine relate_induction (I := fun g => g.parent? i = f.parent? i ∨ g.parent? i = some c ∧
    ∃ owner, f.entity? c = some owner ∧ owner.kind ≠ .export) (Or.inl rfl) ?_ ?_
  · intro owner _ _
    exact Or.inl (by rw [parent?_modify])
  · intro owner hi howner hkind
    refine Or.inr ⟨?_, owner, howner, hkind⟩
    rw [h.parent?_claim hi, if_pos rfl]

end Linked

end Forest
end CodeAtlas
