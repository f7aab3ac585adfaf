import CodeAtlas.Extraction

/-!
# Entities of definitions

The entity of a definition before it is placed.  It is of the kind of the definition, takes its
name and its id from the first part that is labelled as a name, and nothing is linked to it.
-/

namespace CodeAtlas
namespace Extraction

open Survey (Definition Part slice)

variable {path content : String} {kind : EntityKind} {e : Entity} {p : Part} {ps : List Part}

/-! ## Kinds and links -/

/-- An entity of a kind that stands alone and imports nothing. -/
structure Unlinked (kind : EntityKind) (e : Entity) : Prop where
  kind_eq : e.kind = kind
  inDegree : e.inDegree = 0
  outDegree : e.outDegree = 0
  imports : e.imports = []

namespace Unlinked

theorem addPart (h : Unlinked kind e) (p : Part) : Unlinked kind (addPart path content e p) := by
  obtain ⟨hkind, hin, hout, himports⟩ := h
  simp only [Extraction.addPart]
  split
  case h_1 => exact ⟨hkind, hin, hout, himports⟩
  case h_2 => split <;> exact ⟨hkind, hin, hout, himports⟩
  case h_3 =>
    split
    · exact ⟨hkind, hin, hout, himports⟩
    · split <;> exact ⟨hkind, hin, hout, himports⟩
  case h_4 => split <;> exact ⟨hkind, hin, hout, himports⟩
  case h_5 => exact ⟨hkind, hin, hout, himports⟩

theorem addOwned (h : Unlinked kind e) (owned : Option Span) :
    Unlinked kind (addOwned content e owned) := by
  cases owned with
  | none => exact h
  | some held => exact ⟨h.kind_eq, h.inDegree, h.outDegree, h.imports⟩

theorem addStatement (h : Unlinked kind e) (s : Span) : Unlinked kind (addStatement content e s) :=
  ⟨h.kind_eq, h.inDegree, h.outDegree, h.imports⟩

theorem entityOf (language : Language) (path content : String) (d : Definition) :
    Unlinked d.kind (entityOf language path content d) := by
  refine addOwned ?_ d.owned
  refine List.foldlRecOn d.ownParts _ ?_ fun e he p _ => he.addPart p
  exact ⟨rfl, rfl, rfl, rfl⟩

theorem entity (language : Language) (path content : String) (d : Definition) :
    Unlinked d.kind (entity language path content d) :=
  List.foldlRecOn d.chained _ (entityOf language path content d) fun _ he s _ => he.addStatement s

end Unlinked

/-! ## Names -/

/-- Only the part that is labelled as a name changes the name and the id. -/
theorem addPart_name_id (path content : String) (e : Entity) (p : Part) :
    (addPart path content e p).name =
        (if p.label = "name" then slice content p.span else e.name) ∧
      (addPart path content e p).id =
        if p.label = "name" then path ++ "::" ++ slice content p.span else e.id := by
  simp only [addPart]
  split
  case h_1 hlabel => simp [hlabel]
  case h_2 hlabel => split <;> simp [hlabel]
  case h_3 hlabel =>
    split
    · simp [hlabel]
    · split <;> simp [hlabel]
  case h_4 hlabel => split <;> simp [hlabel]
  case h_5 hlabel _ _ _ => exact ⟨(if_neg hlabel).symm, (if_neg hlabel).symm⟩

theorem label_ne_name_of_mem_ownFrom (hp : p ∈ Definition.ownFrom true ps) : p.label ≠ "name" := by
  induction ps with
  | nil => exact absurd hp (by simp [Definition.ownFrom])
  | cons q ps ih =>
      rw [Definition.ownFrom] at hp
      by_cases hq : q.label = "name"
      · simp [hq] at hp
      · have hmem : p = q ∨ p ∈ Definition.ownFrom true ps := by simpa [hq] using hp
        rcases hmem with rfl | hmem
        · exact hq
        · exact ih hmem

theorem foldl_addPart_of_ne (path content : String) (h : ∀ p ∈ ps, p.label ≠ "name")
    (e : Entity) :
    (ps.foldl (addPart path content) e).name = e.name ∧
      (ps.foldl (addPart path content) e).id = e.id := by
  induction ps generalizing e with
  | nil => exact ⟨rfl, rfl⟩
  | cons p ps ih =>
      have hp : p.label ≠ "name" := h p List.mem_cons_self
      obtain ⟨hname, hid⟩ := ih (fun q hq => h q (List.mem_cons_of_mem p hq))
        (addPart path content e p)
      obtain ⟨hname', hid'⟩ := addPart_name_id path content e p
      rw [if_neg hp] at hname' hid'
      exact ⟨hname.trans hname', hid.trans hid'⟩

/-- The first name among the parts is the name of the entity. -/
theorem foldl_addPart_ownFrom (path content : String)
    (hfind : (Definition.ownFrom false ps).find? (·.label == "name") = some p) (e : Entity) :
    ((Definition.ownFrom false ps).foldl (addPart path content) e).name = slice content p.span ∧
      ((Definition.ownFrom false ps).foldl (addPart path content) e).id =
        path ++ "::" ++ slice content p.span := by
  induction ps generalizing e with
  | nil => exact absurd hfind (by simp [Definition.ownFrom])
  | cons q ps ih =>
      rw [Definition.ownFrom] at hfind ⊢
      by_cases hq : q.label = "name"
      · simp only [hq, beq_self_eq_true, if_true, Bool.false_eq_true, if_false,
          List.find?_cons_of_pos, Option.some.injEq] at hfind
        subst hfind
        simp only [hq, beq_self_eq_true, if_true, Bool.false_eq_true, if_false, List.foldl_cons]
        obtain ⟨hname, hid⟩ := foldl_addPart_of_ne path content
          (fun p hp => label_ne_name_of_mem_ownFrom hp) (addPart path content e q)
        obtain ⟨hname', hid'⟩ := addPart_name_id path content e q
        rw [if_pos hq] at hname' hid'
        exact ⟨hname.trans hname', hid.trans hid'⟩
      · have hlabel : (q.label == "name") = false := by simpa using hq
        rw [hlabel] at hfind ⊢
        simp only [Bool.false_eq_true, if_false, List.find?_cons, hlabel] at hfind
        exact ih hfind (addPart path content e q)

theorem addOwned_name_id (content : String) (e : Entity) (owned : Option Span) :
    (addOwned content e owned).name = e.name ∧ (addOwned content e owned).id = e.id := by
  cases owned <;> exact ⟨rfl, rfl⟩

theorem foldl_addStatement_name_id (content : String) (ss : List Span) (e : Entity) :
    (ss.foldl (addStatement content) e).name = e.name ∧
      (ss.foldl (addStatement content) e).id = e.id := by
  induction ss generalizing e with
  | nil => exact ⟨rfl, rfl⟩
  | cons s ss ih => exact ih (addStatement content e s)

/-- A definition that has a name gives it to its entity. -/
theorem entity_name_id (language : Language) (path content : String) {d : Definition}
    (hname : d.name content ≠ "") :
    (entity language path content d).name = d.name content ∧
      (entity language path content d).id = path ++ "::" ++ d.name content := by
  rw [Definition.name] at hname ⊢
  cases hfind : d.ownParts.find? (·.label == "name") with
  | none =>
      rw [hfind] at hname
      exact absurd rfl hname
  | some p =>
      rw [entity, entityOf]
      obtain ⟨h₁, h₁'⟩ := foldl_addStatement_name_id content d.chained
        (addOwned content (d.ownParts.foldl (addPart path content) _) d.owned)
      obtain ⟨h₂, h₂'⟩ := addOwned_name_id content
        (d.ownParts.foldl (addPart path content) _) d.owned
      obtain ⟨h₃, h₃'⟩ := foldl_addPart_ownFrom path content hfind _
      exact ⟨h₁.trans (h₂.trans h₃), h₁'.trans (h₂'.trans h₃')⟩

end Extraction
end CodeAtlas
