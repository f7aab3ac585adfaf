import CodeAtlas.Entity
import CodeAtlas.Names
import CodeAtlas.Proofs.Table
import Mathlib.Data.List.Forall2
import Mathlib.Data.List.Induction

/-!
# Who owns a name

What a name stands for after names were added.  A name that a file defines itself takes the place
of what was there, so the last definition counts; an imported name is added only where there is
none, so the first import counts.
-/

namespace CodeAtlas
namespace Names

variable {n : Names} {key : String}

theorem find?_empty (key : String) : empty.find? key = none := rfl

theorem find?_define (hkey : key ≠ "") (n : Names) (name id : String) :
    (n.define name id).find? key = if key = name then some id else n.find? key := by
  rw [define]
  split
  next hname =>
    rw [String.isEmpty_iff] at hname
    rw [if_neg (hname ▸ hkey)]
  next => exact Table.find?_insert n.table name id key

theorem find?_importAs (hkey : key ≠ "") (n : Names) (name id : String) :
    (n.importAs name id).find? key =
      (n.find? key).or (if key = name then some id else none) := by
  rw [importAs]
  split
  next hname =>
    rw [String.isEmpty_iff] at hname
    rw [if_neg (hname ▸ hkey), Option.or_none]
  next =>
    simp only [find?, Table.insertNew]
    split
    next hknown =>
      obtain ⟨v, hv⟩ := Option.isSome_iff_exists.mp hknown
      by_cases hk : key = name
      · rw [hk, hv]
        rfl
      · rw [if_neg hk, Option.or_none]
    next hnew =>
      have hnone : n.table.find? name = none := by
        rwa [Table.contains, Bool.not_eq_true, Option.isSome_eq_false_iff,
          Option.isNone_iff_eq_none] at hnew
      rw [Table.find?_insert]
      by_cases hk : key = name
      · rw [if_pos hk, if_pos hk, hk, hnone]
        rfl
      · rw [if_neg hk, if_neg hk, Option.or_none]

/-! ## Many names -/

/-- Adds imported names with their ids, one after the other. -/
def importMany (n : Names) (bindings : List (String × String)) : Names :=
  bindings.foldl (fun m b => m.importAs b.1 b.2) n

theorem importMany_append (n : Names) (bs bs' : List (String × String)) :
    n.importMany (bs ++ bs') = (n.importMany bs).importMany bs' :=
  List.foldl_append

/-- The first of several imports of a name counts, where the name was not known. -/
theorem find?_importMany (hkey : key ≠ "") (n : Names) (bindings : List (String × String)) :
    (n.importMany bindings).find? key = (n.find? key).or (bindings.lookup key) := by
  induction bindings generalizing n with
  | nil => rw [importMany, List.foldl_nil, List.lookup_nil, Option.or_none]
  | cons b bindings ih =>
      rw [importMany, List.foldl_cons, ← importMany, ih, find?_importAs hkey, Option.or_assoc,
        List.lookup_cons]
      by_cases hb : key = b.1
      · rw [if_pos hb, hb, beq_self_eq_true]
        rfl
      · rw [if_neg hb, beq_eq_false_iff_ne.mpr hb]
        rfl

/-- Adds the label and the name of entities with their ids, one entity after the other. -/
def defineMany (n : Names) (es : List Entity) : Names :=
  es.foldl (fun m e => (m.define e.label e.id).define e.name e.id) n

/-- The last of several definitions of a name counts. -/
theorem find?_defineMany (hkey : key ≠ "") (n : Names) (es : List Entity) :
    (n.defineMany es).find? key =
      (((es.filter fun e => e.label = key || e.name = key).getLast?.map (·.id)).or
        (n.find? key)) := by
  induction es using List.reverseRecOn with
  | nil => rfl
  | append_singleton es e ih =>
      rw [defineMany, List.foldl_append, List.foldl_cons, List.foldl_nil, ← defineMany,
        find?_define hkey, find?_define hkey, ih, List.filter_append, List.filter_singleton]
      by_cases hname : e.name = key
      · simp [hname]
      · by_cases hlabel : e.label = key
        · simp [hlabel, hname, Ne.symm hname]
        · simp [hlabel, hname, Ne.symm hname, Ne.symm hlabel]

/-! ## Other ids -/

/-- The names with other ids for what they stand for. -/
def mapped (σ : String → String) (n : Names) : Names := ⟨n.table.rekey id σ⟩

section Mapped

variable (σ : String → String) (n : Names)

theorem mapped_id : n.mapped id = n :=
  congrArg Names.mk (congrArg Table.mk (List.map_id n.table.entries))

theorem define_mapped (name id : String) :
    (n.mapped σ).define name (σ id) = (n.define name id).mapped σ := by
  rw [define, define, apply_ite (mapped σ)]
  congr 1
  exact congrArg Names.mk (Table.insert_rekey strictMono_id σ n.table name id)

theorem importAs_mapped (name id : String) :
    (n.mapped σ).importAs name (σ id) = (n.importAs name id).mapped σ := by
  rw [importAs, importAs, apply_ite (mapped σ)]
  congr 1
  exact congrArg Names.mk (Table.insertNew_rekey strictMono_id σ n.table name id)

theorem find?_mapped (name : String) : (n.mapped σ).find? name = (n.find? name).map σ :=
  Table.find?_rekey strictMono_id σ n.table name

theorem resolvePart?_mapped (segments : List String) (k : Nat) :
    (n.mapped σ).resolvePart? segments k = (n.resolvePart? segments k).map σ := by
  fun_induction resolvePart? n segments k with
  | case1 => rfl
  | case2 => rfl
  | case3 k hk id hid =>
      rw [resolvePart?, find?_mapped, hid]
      · rfl
      · exact hk
  | case4 k hk hnone ih =>
      rw [resolvePart?, find?_mapped, hnone]
      · exact ih
      · exact hk

theorem resolve?_mapped (token : String) :
    (n.mapped σ).resolve? token = (n.resolve? token).map σ := by
  rw [resolve?, resolve?, find?_mapped]
  cases n.find? token with
  | some id => rfl
  | none => exact resolvePart?_mapped σ n _ _

theorem importMany_mapped (bindings : List (String × String)) :
    (n.mapped σ).importMany (bindings.map fun b => (b.1, σ b.2)) =
      (n.importMany bindings).mapped σ := by
  rw [importMany, importMany, List.foldl_map]
  exact List.foldl_hom (mapped σ) fun n b => n.importAs_mapped σ b.1 b.2

/-- Entities that go by the same names define these for their own ids. -/
theorem defineMany_mapped {es es' : List Entity}
    (h : List.Forall₂ (fun e e' => e'.label = e.label ∧ e'.name = e.name ∧ e'.id = σ e.id) es es') :
    (n.mapped σ).defineMany es' = (n.defineMany es).mapped σ := by
  refine List.rel_foldl (P := fun n n' => n' = mapped σ n) ?_ rfl h
  rintro n _ rfl e e' ⟨hlabel, hname, hid⟩
  dsimp only
  rw [hlabel, hname, hid, define_mapped, define_mapped]

end Mapped

/-! ## What names stand for -/

/-- All names stand for ids with a property. -/
def StandFor (P : String → Prop) (n : Names) : Prop := ∀ key id, n.find? key = some id → P id

namespace StandFor

variable {P : String → Prop}

theorem define (h : n.StandFor P) (name : String) {id : String} (hid : P id) :
    (n.define name id).StandFor P := by
  intro key found hfound
  rw [Names.define] at hfound
  split at hfound
  · exact h key found hfound
  · rw [find?, Table.find?_insert] at hfound
    split at hfound
    · obtain rfl := Option.some.inj hfound
      exact hid
    · exact h key found hfound

theorem importAs (h : n.StandFor P) (name : String) {id : String} (hid : P id) :
    (n.importAs name id).StandFor P := by
  intro key found hfound
  rw [Names.importAs] at hfound
  split at hfound
  · exact h key found hfound
  · rw [find?, Table.insertNew] at hfound
    split at hfound
    · exact h key found hfound
    · rw [Table.find?_insert] at hfound
      split at hfound
      · obtain rfl := Option.some.inj hfound
        exact hid
      · exact h key found hfound

theorem importMany (h : n.StandFor P) {bindings : List (String × String)}
    (hbindings : ∀ b ∈ bindings, P b.2) : (n.importMany bindings).StandFor P :=
  List.foldlRecOn (motive := StandFor P) bindings _ h
    fun _ hm b hb => hm.importAs b.1 (hbindings b hb)

theorem defineMany (h : n.StandFor P) {es : List Entity} (hes : ∀ e ∈ es, P e.id) :
    (n.defineMany es).StandFor P :=
  List.foldlRecOn (motive := StandFor P) es _ h
    fun _ hm e he => (hm.define e.label (hes e he)).define e.name (hes e he)

theorem resolvePart? (h : n.StandFor P) {segments : List String} {k : Nat} {id : String}
    (hid : n.resolvePart? segments k = some id) : P id := by
  fun_induction Names.resolvePart? n segments k with
  | case1 => exact absurd hid (by simp)
  | case2 => exact absurd hid (by simp)
  | case3 k _ found hfound =>
      obtain rfl := Option.some.inj hid
      exact h _ _ hfound
  | case4 k _ _ ih => exact ih hid

/-- So does a token that resolves to something. -/
theorem resolve? (h : n.StandFor P) {token id : String} (hid : n.resolve? token = some id) :
    P id := by
  rw [Names.resolve?] at hid
  split at hid
  · next found hfound =>
    obtain rfl := Option.some.inj hid
    exact h _ _ hfound
  · exact h.resolvePart? hid

end StandFor

end Names
end CodeAtlas
