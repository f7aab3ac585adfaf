import CodeAtlas.Table
import Mathlib.Data.List.Nodup
import Mathlib.Data.List.Sort
import Mathlib.Data.String.Basic

/-!
# Look-ups in tables

What a table holds after a change.  A look-up sees only the changed key.  As long as the keys stand
in order, a new key adds one entry, and a key that is known keeps its place and only gets another
value.
-/

namespace CodeAtlas
namespace Table

variable {β γ : Type} {t : Table β} {k key : String} {v w : β}

/-! ## Looking up -/

@[simp] theorem find?_empty (k : String) : (empty : Table β).find? k = none := rfl

theorem findIn_insertIn (key : String) (v : β) (k : String) (es : List (String × β)) :
    findIn k (insertIn key v es) = if k = key then some v else findIn k es := by
  induction es with
  | nil => simp [insertIn, findIn, eq_comm]
  | cons e es ih =>
      obtain ⟨k', v'⟩ := e
      rw [insertIn]
      by_cases hk' : k' = key
      · rw [if_pos hk', findIn, findIn, hk']
        by_cases hk : k = key
        · rw [if_pos hk.symm, if_pos hk]
        · rw [if_neg (Ne.symm hk), if_neg hk, if_neg (Ne.symm hk)]
      · rw [if_neg hk']
        split
        · rw [findIn]
          by_cases hk : k = key
          · rw [if_pos hk.symm, if_pos hk]
          · rw [if_neg (Ne.symm hk), if_neg hk]
        · rw [findIn, ih, findIn]
          by_cases hk : k = key
          · rw [if_pos hk, if_pos hk, if_neg (hk ▸ hk')]
          · rw [if_neg hk, if_neg hk]

theorem find?_insert (t : Table β) (key : String) (v : β) (k : String) :
    (t.insert key v).find? k = if k = key then some v else t.find? k :=
  findIn_insertIn key v k t.entries

theorem find?_insert_self (t : Table β) (key : String) (v : β) :
    (t.insert key v).find? key = some v := by
  rw [find?_insert, if_pos rfl]

theorem find?_insert_of_ne (t : Table β) (v : β) (hk : k ≠ key) :
    (t.insert key v).find? k = t.find? k := by
  rw [find?_insert, if_neg hk]

theorem find?_modify (t : Table β) (key : String) (f : β → β) (k : String) :
    (t.modify key f).find? k = (t.find? k).map fun v => if k = key then f v else v := by
  rw [modify]
  by_cases hk : k = key
  · subst hk
    cases hfind : t.find? k with
    | none => rw [hfind]; rfl
    | some w => simp [find?_insert_self]
  · simp only [if_neg hk, Option.map_id']
    split
    · rfl
    · exact find?_insert_of_ne t _ hk

/-- The table in which every value is changed. -/
def mapValues (f : β → γ) (t : Table β) : Table γ := ⟨t.entries.map fun e => (e.1, f e.2)⟩

@[simp] theorem find?_mapValues (f : β → γ) (t : Table β) (k : String) :
    (t.mapValues f).find? k = (t.find? k).map f := by
  rw [find?, find?, mapValues]
  induction t.entries with
  | nil => rfl
  | cons e es ih =>
      rw [List.map_cons, findIn, findIn]
      by_cases hk : e.1 = k
      · rw [if_pos hk, if_pos hk]
        rfl
      · rw [if_neg hk, if_neg hk, ih]

@[simp] theorem size_mapValues (f : β → γ) (t : Table β) : (t.mapValues f).size = t.size :=
  List.length_map ..

theorem findIn_eq_none_iff {es : List (String × β)} :
    findIn k es = none ↔ k ∉ es.map Prod.fst := by
  induction es with
  | nil => simp [findIn]
  | cons e es ih =>
      rw [findIn, List.map_cons, List.mem_cons, not_or, ← ih]
      by_cases hk : e.1 = k
      · simp [hk]
      · simp [hk, Ne.symm hk]

theorem find?_eq_none_iff : t.find? k = none ↔ k ∉ t.keys := findIn_eq_none_iff

theorem contains_iff_mem_keys : t.contains k = true ↔ k ∈ t.keys := by
  rw [contains, Option.isSome_iff_ne_none, Ne, find?_eq_none_iff, not_not]

theorem mem_entries_of_find? (h : t.find? k = some v) : (k, v) ∈ t.entries := by
  rw [find?] at h
  generalize t.entries = es at h
  induction es with
  | nil => exact absurd h (by simp [findIn])
  | cons e es ih =>
      rw [findIn] at h
      split at h
      next hk =>
        obtain rfl := Option.some.inj h
        exact hk ▸ List.mem_cons_self
      next => exact List.mem_cons_of_mem e (ih h)

theorem mem_entries_insert {e : String × β} (h : e ∈ (t.insert key v).entries) :
    e = (key, v) ∨ e ∈ t.entries := by
  rw [insert] at h
  generalize t.entries = es at h
  induction es with
  | nil => exact Or.inl (List.mem_singleton.mp h)
  | cons d es ih =>
      simp only [insertIn] at h
      split at h
      · rcases List.mem_cons.mp h with h | h
        · exact Or.inl h
        · exact Or.inr (List.mem_cons_of_mem d h)
      · split at h
        · exact List.mem_cons.mp h
        · rcases List.mem_cons.mp h with rfl | h
          · exact Or.inr List.mem_cons_self
          · exact (ih h).imp_right (List.mem_cons_of_mem d)

/-! ## Tables in order -/

/-- The keys stand in order, each once. -/
def Ordered (t : Table β) : Prop := t.keys.Pairwise (· < ·)

theorem Ordered.nodup_keys (h : t.Ordered) : t.keys.Nodup :=
  h.imp fun hlt => ne_of_lt hlt

theorem Ordered.empty : (empty : Table β).Ordered := List.Pairwise.nil

theorem find?_of_mem (hnodup : t.keys.Nodup) (hmem : (k, v) ∈ t.entries) :
    t.find? k = some v := by
  rw [keys] at hnodup
  rw [find?]
  generalize t.entries = es at hnodup hmem
  induction es with
  | nil => exact absurd hmem (by simp)
  | cons e es ih =>
      rw [List.map_cons, List.nodup_cons] at hnodup
      rw [findIn]
      rcases List.mem_cons.mp hmem with rfl | hmem
      · exact if_pos rfl
      · rw [if_neg, ih hnodup.2 hmem]
        rintro rfl
        exact hnodup.1 (List.mem_map.mpr ⟨(e.1, v), hmem, rfl⟩)

theorem Ordered.find?_of_mem (h : t.Ordered) (hmem : (k, v) ∈ t.entries) : t.find? k = some v :=
  Table.find?_of_mem h.nodup_keys hmem

/-- A look-up does not depend on the order of entries with different keys. -/
theorem find?_eq_of_perm {u : Table β} (hperm : t.entries.Perm u.entries) (hnodup : t.keys.Nodup)
    (k : String) : t.find? k = u.find? k := by
  have hnodup' : u.keys.Nodup := (hperm.map Prod.fst).nodup_iff.mp hnodup
  ext v
  constructor
  · intro h
    exact find?_of_mem hnodup' (hperm.mem_iff.mp (mem_entries_of_find? h))
  · intro h
    exact find?_of_mem hnodup (hperm.mem_iff.mpr (mem_entries_of_find? h))

/-- A table in order is determined by its look-ups. -/
theorem Ordered.ext {u : Table β} (ht : t.Ordered) (hu : u.Ordered)
    (h : ∀ k, t.find? k = u.find? k) : t = u := by
  have hmem : ∀ e, e ∈ t.entries ↔ e ∈ u.entries := by
    intro e
    constructor
    · intro he
      exact mem_entries_of_find? ((h e.1).symm.trans (ht.find?_of_mem he))
    · intro he
      exact mem_entries_of_find? ((h e.1).trans (hu.find?_of_mem he))
  have hirrefl : Std.Irrefl fun a b : String × β => a.1 < b.1 := ⟨fun a => lt_irrefl a.1⟩
  have hantisymm : Std.Antisymm fun a b : String × β => a.1 < b.1 :=
    ⟨fun a b hab hba => absurd hab (lt_asymm hba)⟩
  have hentries : t.entries = u.entries :=
    (List.pairwise_map.mp ht).eq_of_mem_iff (List.pairwise_map.mp hu) hmem
  cases t
  cases u
  exact congrArg Table.mk hentries

theorem mem_keys_insert : k ∈ (t.insert key v).keys ↔ k = key ∨ k ∈ t.keys := by
  rw [← not_iff_not, ← find?_eq_none_iff, find?_insert, not_or, ← find?_eq_none_iff]
  by_cases hk : k = key <;> simp [hk]

/-- A new key adds one entry. -/
theorem entries_insert_of_none (h : t.find? key = none) (v : β) :
    (t.insert key v).entries.Perm ((key, v) :: t.entries) := by
  rw [find?] at h
  rw [insert]
  generalize t.entries = es at h
  induction es with
  | nil => exact .refl _
  | cons e es ih =>
      obtain ⟨k', v'⟩ := e
      rw [findIn] at h
      split at h
      next => exact absurd h (by simp)
      next hk' =>
        simp only [insertIn, if_neg hk']
        split
        · exact .refl _
        · exact ((ih h).cons (k', v')).trans (.swap ..)

/-- A known key keeps its place. -/
theorem Ordered.exists_entries_insert (h : t.Ordered) (hfind : t.find? key = some w) :
    ∃ before after, t.entries = before ++ (key, w) :: after ∧
      ∀ v, (t.insert key v).entries = before ++ (key, v) :: after := by
  rw [Ordered, keys] at h
  rw [find?] at hfind
  simp only [insert]
  generalize t.entries = es at h hfind
  induction es with
  | nil => exact absurd hfind (by simp [findIn])
  | cons e es ih =>
      obtain ⟨k', v'⟩ := e
      rw [findIn] at hfind
      split at hfind
      next hk' =>
        obtain rfl := Option.some.inj hfind
        subst hk'
        exact ⟨[], es, rfl, fun v => by rw [insertIn, if_pos rfl]; rfl⟩
      next hk' =>
        -- the keys in front of a known key are smaller
        have hlt : k' < key := by
          have hmem : key ∈ es.map Prod.fst := by
            by_contra hnot
            rw [← findIn_eq_none_iff, hfind] at hnot
            exact absurd hnot (by simp)
          exact (List.pairwise_cons.mp h).1 key hmem
        obtain ⟨before, after, hes, hinsert⟩ := ih (List.pairwise_cons.mp h).2 hfind
        refine ⟨(k', v') :: before, after, by rw [hes]; rfl, fun v => ?_⟩
        rw [insertIn, if_neg hk', if_neg (lt_asymm hlt), hinsert v]
        rfl

theorem Ordered.insert (h : t.Ordered) (key : String) (v : β) : (t.insert key v).Ordered := by
  rw [Ordered, keys] at h ⊢
  have hmem : ∀ {es : List (String × β)} {k}, k ∈ (insertIn key v es).map Prod.fst →
      k = key ∨ k ∈ es.map Prod.fst := fun hk => mem_keys_insert.mp hk
  rw [Table.insert]
  generalize t.entries = es at h
  induction es with
  | nil => exact List.pairwise_singleton _ _
  | cons e es ih =>
      obtain ⟨k', v'⟩ := e
      rw [List.map_cons, List.pairwise_cons] at h
      simp only [insertIn]
      split
      next hk' =>
        subst hk'
        exact List.pairwise_cons.mpr h
      next hk' =>
        split
        next hlt =>
          refine List.pairwise_cons.mpr ⟨?_, List.pairwise_cons.mpr h⟩
          intro k hk
          rcases List.mem_cons.mp hk with rfl | hk
          · exact hlt
          · exact lt_trans hlt (h.1 k hk)
        next hlt =>
          refine List.pairwise_cons.mpr ⟨?_, ih h.2⟩
          intro k hk
          rcases hmem hk with rfl | hk
          · exact lt_of_le_of_ne (not_lt.mp hlt) hk'
          · exact h.1 k hk

theorem Ordered.keys_insert (h : t.Ordered) (hfind : t.find? key = some w) (v : β) :
    (t.insert key v).keys = t.keys := by
  obtain ⟨before, after, hes, hinsert⟩ := h.exists_entries_insert hfind
  rw [keys, keys, hes, hinsert v]
  simp

theorem Ordered.keys_modify (h : t.Ordered) (key : String) (f : β → β) :
    (t.modify key f).keys = t.keys := by
  rw [modify]
  split
  next => rfl
  next w hfind => exact h.keys_insert hfind (f w)

theorem Ordered.modify (h : t.Ordered) (key : String) (f : β → β) : (t.modify key f).Ordered := by
  rw [Ordered, h.keys_modify key f]
  exact h

/-- A change that a view of the values does not show leaves the view of the table as it is. -/
theorem Ordered.mapValues_modify (h : t.Ordered) (key : String) {f : β → γ} {g : β → β}
    (hg : ∀ v, f (g v) = f v) : (t.modify key g).mapValues f = t.mapValues f := by
  rw [Table.modify]
  split
  next => rfl
  next w hfind =>
    obtain ⟨before, after, hes, hinsert⟩ := h.exists_entries_insert hfind
    rw [mapValues, mapValues, hes, hinsert (g w)]
    simp [hg]

/-! ## Other keys and values -/

section Rekey

variable {σ : String → String} (hσ : StrictMono σ) (f : β → γ) (t : Table β)

/-- The table with other keys and values. -/
def rekey (σ : String → String) (f : β → γ) (t : Table β) : Table γ :=
  ⟨t.entries.map fun e => (σ e.1, f e.2)⟩

@[simp] theorem size_rekey (σ : String → String) : (t.rekey σ f).size = t.size := List.length_map ..

@[simp] theorem isEmpty_rekey (σ : String → String) : (t.rekey σ f).isEmpty = t.isEmpty :=
  List.isEmpty_map

theorem keys_rekey (σ : String → String) : (t.rekey σ f).keys = t.keys.map σ := by
  rw [keys, keys, rekey, List.map_map, List.map_map]
  rfl

include hσ

theorem find?_rekey (k : String) : (t.rekey σ f).find? (σ k) = (t.find? k).map f := by
  rw [find?, find?, rekey]
  induction t.entries with
  | nil => rfl
  | cons e es ih =>
      rw [List.map_cons, findIn, findIn]
      simp only [hσ.injective.eq_iff, ih]
      split <;> rfl

theorem contains_rekey (k : String) : (t.rekey σ f).contains (σ k) = t.contains k := by
  rw [contains, contains, find?_rekey hσ, Option.isSome_map]

theorem insert_rekey (k : String) (v : β) :
    (t.rekey σ f).insert (σ k) (f v) = (t.insert k v).rekey σ f := by
  rw [insert, insert, rekey, rekey]
  congr 1
  induction t.entries with
  | nil => rfl
  | cons e es ih =>
      simp only [List.map_cons, insertIn, hσ.injective.eq_iff, hσ.lt_iff_lt, ih]
      split
      next => rfl
      next => split <;> rfl

theorem insertNew_rekey (k : String) (v : β) :
    (t.rekey σ f).insertNew (σ k) (f v) = (t.insertNew k v).rekey σ f := by
  rw [insertNew, insertNew, contains_rekey hσ, insert_rekey hσ]
  split <;> rfl

theorem modify_rekey {g : β → β} {g' : γ → γ} (hg : ∀ v, g' (f v) = f (g v)) (k : String) :
    (t.rekey σ f).modify (σ k) g' = (t.modify k g).rekey σ f := by
  rw [modify, modify, find?_rekey hσ]
  cases t.find? k with
  | none => rfl
  | some v =>
      rw [Option.map_some]
      dsimp only
      rw [hg, insert_rekey hσ]

theorem Ordered.rekey {t : Table β} (ht : t.Ordered) (f : β → γ) : (t.rekey σ f).Ordered := by
  rw [Ordered, keys_rekey]
  exact ht.map σ fun _ _ hlt => hσ hlt

end Rekey

end Table
end CodeAtlas
