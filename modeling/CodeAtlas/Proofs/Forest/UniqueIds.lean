import CodeAtlas.Proofs.Forest.Edges
import CodeAtlas.Proofs.Sorting
import Mathlib.Data.List.Perm.Subperm
import Mathlib.Data.List.Range
import Mathlib.Data.Fintype.Card

/-!
# Unique ids

Ids are given out one index after the other.  An index whose id is taken gets the first numbered
form of it that is not; since all numbered forms differ, one of the first few is always free.
-/

namespace CodeAtlas

namespace Forest

variable {f : Forest} {i j : Nat}

/-! ## Numbered forms -/

theorem toString_nat_injective : Function.Injective (toString : Nat → String) := by
  intro m n h
  have hdigits : Nat.toDigits 10 m = Nat.toDigits 10 n := by
    rw [← Nat.toList_repr, ← Nat.toList_repr]
    exact congrArg String.toList h
  rw [← Nat.ofDigitChars_ten_toDigits (n := m), hdigits, Nat.ofDigitChars_ten_toDigits]

theorem candidateId_add_two (base : String) (line n : Nat) :
    candidateId base line (n + 2) =
      base ++ "@" ++ toString line ++ "." ++ toString (n + 2) := rfl

theorem length_candidateId_one (base : String) (line : Nat) :
    base.length < (candidateId base line 1).length := by
  simp only [candidateId, String.length_append]
  have hat : "@".length = 1 := rfl
  omega

theorem length_candidateId_lt (base : String) (line n : Nat) :
    (candidateId base line 1).length < (candidateId base line (n + 2)).length := by
  simp only [candidateId, String.length_append]
  have hdot : ".".length = 1 := rfl
  omega

/-- No two numbered forms of an id are the same. -/
theorem candidateId_injective (base : String) (line : Nat) :
    Function.Injective (candidateId base line) := by
  have hzero : ∀ n, base.length < (candidateId base line (n + 1)).length := by
    intro n
    cases n with
    | zero => exact length_candidateId_one base line
    | succ n => exact (length_candidateId_one base line).trans (length_candidateId_lt base line n)
  intro m n h
  have hlength := congrArg String.length h
  match m, n with
  | 0, 0 => rfl
  | 0, n + 1 =>
      have hlt := hzero n
      rw [← hlength] at hlt
      exact absurd hlt (lt_irrefl _)
  | m + 1, 0 =>
      have hlt := hzero m
      rw [hlength] at hlt
      exact absurd hlt (lt_irrefl _)
  | 1, 1 => rfl
  | 1, n + 2 =>
      have hlt := length_candidateId_lt base line n
      rw [hlength] at hlt
      exact absurd hlt (lt_irrefl _)
  | m + 2, 1 =>
      have hlt := length_candidateId_lt base line m
      rw [← hlength] at hlt
      exact absurd hlt (lt_irrefl _)
  | m + 2, n + 2 =>
      rw [candidateId_add_two, candidateId_add_two] at h
      have hnumber : toString (m + 2) = toString (n + 2) := by
        have hlist := congrArg String.toList h
        simp only [String.toList_append] at hlist
        exact String.toList_inj.mp (List.append_cancel_left hlist)
      exact toString_nat_injective hnumber

/-- One of the first numbered forms is free. -/
theorem exists_candidateId_not_mem (taken : List String) (base : String) (line : Nat) :
    ∃ n < taken.length + 1, candidateId base line n ∉ taken := by
  by_contra hall
  push Not at hall
  have hsub : (List.range (taken.length + 1)).map (candidateId base line) ⊆ taken := by
    intro id hid
    obtain ⟨n, hn, rfl⟩ := List.mem_map.mp hid
    exact hall n (List.mem_range.mp hn)
  have hnodup := (List.nodup_range (n := taken.length + 1)).map (candidateId_injective base line)
  have hle := (hnodup.subperm hsub).length_le
  rw [List.length_map, List.length_range] at hle
  omega

theorem freshId_not_mem (taken : List String) (base : String) (line : Nat) (fuel n : Nat)
    (h : ∃ k < fuel, candidateId base line (n + k) ∉ taken) :
    freshId taken base line fuel n ∉ taken := by
  induction fuel generalizing n with
  | zero =>
      obtain ⟨k, hk, -⟩ := h
      exact absurd hk (Nat.not_lt_zero k)
  | succ fuel ih =>
      rw [freshId]
      split
      next htaken =>
        obtain ⟨k, hk, hfree⟩ := h
        cases k with
        | zero => exact absurd (by simpa using htaken) hfree
        | succ k =>
            refine ih (n + 1) ⟨k, by omega, ?_⟩
            rw [show n + 1 + k = n + (k + 1) by omega]
            exact hfree
      next hfree => simpa using hfree

/-- The forms in front of the one that is chosen are taken. -/
theorem exists_freshId_eq (taken : List String) (base : String) (line : Nat) (fuel n : Nat) :
    ∃ k, freshId taken base line fuel n = candidateId base line (n + k) ∧
      ∀ m < k, candidateId base line (n + m) ∈ taken := by
  induction fuel generalizing n with
  | zero => exact ⟨0, rfl, fun m hm => absurd hm (Nat.not_lt_zero m)⟩
  | succ fuel ih =>
      rw [freshId]
      split
      next htaken =>
        obtain ⟨k, hk, htried⟩ := ih (n + 1)
        refine ⟨k + 1, by rw [hk, Nat.add_right_comm, Nat.add_assoc], ?_⟩
        intro m hm
        cases m with
        | zero => simpa using htaken
        | succ m =>
            rw [← Nat.add_assoc, Nat.add_right_comm]
            exact htried m (by omega)
      next => exact ⟨0, rfl, fun m hm => absurd hm (Nat.not_lt_zero m)⟩

/-- The id that an entity gets when some ids are taken. -/
def givenId (taken : List String) (e : Entity) : String :=
  freshId taken e.id (e.span.start.row + 1) (taken.length + 1) 0

theorem givenId_not_mem (taken : List String) (e : Entity) : givenId taken e ∉ taken := by
  apply freshId_not_mem
  obtain ⟨n, hn, hfree⟩ := exists_candidateId_not_mem taken e.id (e.span.start.row + 1)
  exact ⟨n, hn, by rwa [Nat.zero_add]⟩

theorem givenId_nil (e : Entity) : givenId [] e = e.id := rfl

theorem exists_givenId_eq (taken : List String) (e : Entity) :
    ∃ n, givenId taken e = candidateId e.id (e.span.start.row + 1) n ∧
      ∀ m < n, candidateId e.id (e.span.start.row + 1) m ∈ taken := by
  have h := exists_freshId_eq taken e.id (e.span.start.row + 1) (taken.length + 1) 0
  simp only [Nat.zero_add] at h
  exact h

/-! ## Giving out ids -/

theorem giveIds_cons (f : Forest) (i : Nat) (rest : List Nat) (taken : List String) :
    f.giveIds (i :: rest) taken = f.giveIds rest taken ∧
        (∀ e, f.entity? i = some e → e.kind = .export) ∨
      ∃ e, f.entity? i = some e ∧ e.kind ≠ .export ∧
        f.giveIds (i :: rest) taken =
          (f.modify i fun e' => { e' with id := givenId taken e }).giveIds rest
            (givenId taken e :: taken) := by
  rw [giveIds]
  split
  next hnone => exact Or.inl ⟨rfl, by simp [hnone]⟩
  next e he =>
    split
    next hexport =>
      refine Or.inl ⟨rfl, ?_⟩
      intro e' he'
      rw [he] at he'
      obtain rfl : e = e' := Option.some.inj he'
      simpa using hexport
    next hexport => exact Or.inr ⟨e, he, by simpa using hexport, rfl⟩

/-- The indices that are given an id. -/
def isKept (f : Forest) (i : Nat) : Prop := ∃ e, f.entity? i = some e ∧ e.kind ≠ .export

/-- What holds of a forest, and still holds when something that is kept gets another id, holds once
ids are given out. -/
theorem giveIds_induction {I : Forest → Prop} (order : List Nat) (taken : List String)
    (hstart : I f) (hrename : ∀ g, ∀ i ∈ order, g.isKept i → ∀ id, I g →
      I (g.modify i fun e => { e with id := id })) : I (f.giveIds order taken) := by
  induction order generalizing f taken with
  | nil => exact hstart
  | cons i rest ih =>
      have hrest := fun g j (hj : j ∈ rest) => hrename g j (List.mem_cons_of_mem i hj)
      rcases giveIds_cons f i rest taken with ⟨h, -⟩ | ⟨e, he, hkind, h⟩
      · rw [h]
        exact ih taken hstart hrest
      · rw [h]
        exact ih _ (hrename f i List.mem_cons_self ⟨e, he, hkind⟩ _ hstart) hrest

@[simp] theorem parent?_giveIds (f : Forest) (order : List Nat) (taken : List String) (j : Nat) :
    (f.giveIds order taken).parent? j = f.parent? j := by
  refine giveIds_induction (I := fun g => g.parent? j = f.parent? j) order taken rfl ?_
  intro g i _ _ id hg
  rw [parent?_modify, hg]

@[simp] theorem children_giveIds (f : Forest) (order : List Nat) (taken : List String) (j : Nat) :
    (f.giveIds order taken).children j = f.children j := by
  refine giveIds_induction (I := fun g => g.children j = f.children j) order taken rfl ?_
  intro g i _ _ id hg
  rw [children_modify, hg]

@[simp] theorem size_giveIds (f : Forest) (order : List Nat) (taken : List String) :
    (f.giveIds order taken).size = f.size := by
  refine giveIds_induction (I := fun g => g.size = f.size) order taken rfl ?_
  intro g i _ _ id hg
  rw [size_modify, hg]

/-- Nothing but the ids of entities changes. -/
theorem entity?_giveIds_eq_map (f : Forest) (order : List Nat) (taken : List String) (j : Nat) :
    (f.giveIds order taken).entity? j =
      (f.entity? j).map fun e => { e with id := (f.giveIds order taken).idAt j } := by
  induction order generalizing f taken with
  | nil =>
      rw [giveIds, idAt]
      cases f.entity? j <;> rfl
  | cons i rest ih =>
      rcases giveIds_cons f i rest taken with ⟨h, -⟩ | ⟨e, -, -, h⟩
      · rw [h, ih]
      · rw [h, ih, entity?_modify, Option.map_map]
        congr 1
        funext e'
        by_cases hj : j = i <;> simp [hj]

theorem entity?_giveIds_of_not_mem (order : List Nat) (taken : List String) (hj : j ∉ order) :
    (f.giveIds order taken).entity? j = f.entity? j := by
  refine giveIds_induction (I := fun g => g.entity? j = f.entity? j) order taken rfl ?_
  intro g i hi _ id hg
  have hne : j ≠ i := fun heq => hj (heq ▸ hi)
  rw [entity?_modify, ← hg]
  cases g.entity? j <;> simp [hne]

theorem lt_size_of_isKept (h : f.isKept i) : i < f.size := by
  obtain ⟨e, he, -⟩ := h
  exact lt_size_of_entity? he

theorem isKept_rename (f : Forest) (i : Nat) (id : String) :
    (f.modify i fun e => { e with id := id }).isKept j ↔ f.isKept j := by
  simp only [isKept, entity?_modify, Option.map_eq_some_iff]
  constructor
  · rintro ⟨_, ⟨e, he, rfl⟩, hkind⟩
    refine ⟨e, he, ?_⟩
    split at hkind <;> exact hkind
  · rintro ⟨e, he, hkind⟩
    refine ⟨_, ⟨e, he, rfl⟩, ?_⟩
    split <;> exact hkind

theorem giveIds_cons_of_not_isKept (h : ¬ f.isKept i) (rest : List Nat) (taken : List String) :
    f.giveIds (i :: rest) taken = f.giveIds rest taken := by
  rcases giveIds_cons f i rest taken with ⟨hsame, -⟩ | ⟨e, he, hkind, -⟩
  · exact hsame
  · exact absurd ⟨e, he, hkind⟩ h

theorem giveIds_cons_of_entity? {e : Entity} (he : f.entity? i = some e) (hkind : e.kind ≠ .export)
    (rest : List Nat) (taken : List String) :
    f.giveIds (i :: rest) taken =
      (f.modify i fun e' => { e' with id := givenId taken e }).giveIds rest
        (givenId taken e :: taken) := by
  rcases giveIds_cons f i rest taken with ⟨-, hexport⟩ | ⟨e', he', -, hstep⟩
  · exact absurd (hexport e he) hkind
  · rw [he] at he'
    obtain rfl := Option.some.inj he'
    exact hstep

theorem idAt_of_entity? {e : Entity} (h : f.entity? i = some e) : f.idAt i = e.id := by
  rw [idAt, h]
  rfl

/-- Ids are given out to some indices first and then to others, for which the ids of the first ones
are taken. -/
theorem exists_giveIds_append (f : Forest) {before : List Nat} (hbefore : before.Nodup)
    (after : List Nat) (taken : List String) :
    ∃ taken', f.giveIds (before ++ after) taken = (f.giveIds before taken).giveIds after taken' ∧
      ∀ id, id ∈ taken' ↔
        id ∈ taken ∨ ∃ k ∈ before, f.isKept k ∧ (f.giveIds before taken).idAt k = id := by
  induction before generalizing f taken with
  | nil => exact ⟨taken, rfl, by simp⟩
  | cons i before ih =>
      rw [List.nodup_cons] at hbefore
      by_cases hkept : f.isKept i
      · have ⟨e, he, hkind⟩ := hkept
        obtain ⟨taken', hsplit, hmem⟩ := ih (f.modify i fun e' => { e' with id := givenId taken e })
          hbefore.2 (givenId taken e :: taken)
        refine ⟨taken', ?_, ?_⟩
        · rw [List.cons_append, giveIds_cons_of_entity? he hkind, hsplit,
            giveIds_cons_of_entity? he hkind]
        · -- the id of the first index is final, since the index is not met again
          have hfirst : (f.giveIds (i :: before) taken).idAt i = givenId taken e := by
            rw [giveIds_cons_of_entity? he hkind, idAt, entity?_giveIds_of_not_mem _ _ hbefore.1,
              entity?_modify, he]
            simp
          intro id
          rw [hmem id, List.exists_mem_cons_iff, hfirst, giveIds_cons_of_entity? he hkind,
            List.mem_cons]
          simp only [isKept_rename, hkept, true_and, eq_comm, or_assoc, or_left_comm]
      · obtain ⟨taken', hsplit, hmem⟩ := ih f hbefore.2 taken
        refine ⟨taken', ?_, ?_⟩
        · rw [List.cons_append, giveIds_cons_of_not_isKept hkept, hsplit,
            giveIds_cons_of_not_isKept hkept]
        · intro id
          rw [hmem id, List.exists_mem_cons_iff, giveIds_cons_of_not_isKept hkept]
          simp only [hkept, false_and, false_or]

/-- An entity keeps everything but its id, and gets the first form of it that was not taken at the
start and that no index in front of its own has. -/
theorem entity?_giveIds_append {before after : List Nat} (horder : (before ++ j :: after).Nodup)
    (taken : List String) {e : Entity} (he : f.entity? j = some e) (hkind : e.kind ≠ .export) :
    ∃ taken', (f.giveIds (before ++ j :: after) taken).entity? j =
        some { e with id := givenId taken' e } ∧
      ∀ id, id ∈ taken' ↔ id ∈ taken ∨
        ∃ k ∈ before, f.isKept k ∧ (f.giveIds (before ++ j :: after) taken).idAt k = id := by
  obtain ⟨hbefore, hafter, hapart⟩ := List.nodup_append.mp horder
  rw [List.nodup_cons] at hafter
  obtain ⟨taken', hsplit, hmem⟩ := f.exists_giveIds_append hbefore (j :: after) taken
  have hj : (f.giveIds before taken).entity? j = some e := by
    rw [entity?_giveIds_of_not_mem _ _ fun hj => hapart j hj j List.mem_cons_self rfl, he]
  refine ⟨taken', ?_, ?_⟩
  · rw [hsplit, giveIds_cons_of_entity? hj hkind, entity?_giveIds_of_not_mem _ _ hafter.1,
      entity?_modify, hj]
    simp
  · intro id
    rw [hmem id, hsplit]
    -- the indices in front have got their ids already
    have hfinal : ∀ k ∈ before, ((f.giveIds before taken).giveIds (j :: after) taken').idAt k =
        (f.giveIds before taken).idAt k := by
      intro k hk
      rw [idAt, entity?_giveIds_of_not_mem _ _ fun hk' => hapart k hk k hk' rfl, idAt]
    constructor
    · rintro (htaken | ⟨k, hk, hkept, hid⟩)
      · exact Or.inl htaken
      · exact Or.inr ⟨k, hk, hkept, (hfinal k hk).trans hid⟩
    · rintro (htaken | ⟨k, hk, hkept, hid⟩)
      · exact Or.inl htaken
      · exact Or.inr ⟨k, hk, hkept, (hfinal k hk).symm.trans hid⟩

/-- An entity keeps everything but its id, and its new id was not taken. -/
theorem entity?_giveIds (order : List Nat) (taken : List String) (horder : order.Nodup)
    (hj : j ∈ order) {e : Entity} (he : f.entity? j = some e) (hkind : e.kind ≠ .export) :
    ∃ n, candidateId e.id (e.span.start.row + 1) n ∉ taken ∧
      (f.giveIds order taken).entity? j =
        some { e with id := candidateId e.id (e.span.start.row + 1) n } := by
  obtain ⟨before, after, rfl⟩ := List.append_of_mem hj
  obtain ⟨taken', hentity, hmem⟩ := entity?_giveIds_append horder taken he hkind
  obtain ⟨n, hn, -⟩ := exists_givenId_eq taken' e
  refine ⟨n, ?_, by rw [hentity, hn]⟩
  intro htaken
  exact givenId_not_mem taken' e ((hmem _).mpr (Or.inl (hn ▸ htaken)))

/-- An index does not get the id of an index in front of it. -/
theorem idAt_giveIds_ne {before after : List Nat} (horder : (before ++ j :: after).Nodup)
    (taken : List String) (hi : i ∈ before) (hki : f.isKept i) (hkj : f.isKept j) :
    (f.giveIds (before ++ j :: after) taken).idAt i ≠
      (f.giveIds (before ++ j :: after) taken).idAt j := by
  obtain ⟨e, he, hkind⟩ := hkj
  obtain ⟨taken', hentity, hmem⟩ := entity?_giveIds_append horder taken he hkind
  intro heq
  refine givenId_not_mem taken' e ((hmem _).mpr (Or.inr ⟨i, hi, hki, ?_⟩))
  rw [heq, idAt_of_entity? hentity]

/-- Two indices never get the same id. -/
theorem idAt_giveIds_injective (order : List Nat) (taken : List String) (horder : order.Nodup)
    (hi : i ∈ order) (hj : j ∈ order) (hki : f.isKept i) (hkj : f.isKept j)
    (h : (f.giveIds order taken).idAt i = (f.giveIds order taken).idAt j) : i = j := by
  obtain ⟨before, after, rfl⟩ := List.append_of_mem hj
  rcases List.mem_append.mp hi with hfront | hi
  · exact absurd h (idAt_giveIds_ne horder taken hfront hki hkj)
  · rcases List.mem_cons.mp hi with rfl | hback
    · rfl
    · -- then `j` is in front of `i`
      obtain ⟨between, rest, rfl⟩ := List.append_of_mem hback
      rw [← List.cons_append, ← List.append_assoc] at horder h
      refine absurd h.symm (idAt_giveIds_ne horder taken ?_ hkj hki)
      exact List.mem_append_right _ List.mem_cons_self

/-- Nothing but entities that are given an id changes. -/
theorem entity?_giveIds_of_not_isKept (order : List Nat) (taken : List String)
    (hj : ¬ f.isKept j) : (f.giveIds order taken).entity? j = f.entity? j := by
  refine giveIds_induction (I := fun g => g.entity? j = f.entity? j) order taken rfl ?_
  intro g i _ hkept id hg
  have hne : j ≠ i := by
    rintro rfl
    rw [isKept, hg] at hkept
    exact hj hkept
  rw [entity?_modify, ← hg]
  cases g.entity? j <;> simp [hne]

/-! ## The order in which ids are given out -/

/-- The byte at which the entity of an index starts. -/
def startAt (f : Forest) (i : Nat) : Nat := ((f.entity? i).map (·.span.startByte)).getD 0

/-- The root comes first, and the others go by their starts. -/
theorem idOrder_eq_insertionSort (f : Forest) (i : Nat) :
    f.idOrder i = (if i < f.size then [i] else []) ++
      ((List.range f.size).filter (· != i)).insertionSort fun a b =>
        (f.startAt a < f.startAt b || (f.startAt a == f.startAt b && a ≤ b)) = true := by
  rw [idOrder, Sorting.mergeSort_eq_insertionSort]
  · split <;> rfl
  · intro a b c hab hbc
    simp only [Bool.or_eq_true, Bool.and_eq_true, decide_eq_true_eq, beq_iff_eq] at hab hbc ⊢
    omega
  · intro a b
    simp only [Bool.or_eq_true, Bool.and_eq_true, decide_eq_true_eq, beq_iff_eq]
    omega

theorem idOrder_perm (hroot : i < f.size) : (f.idOrder i).Perm (List.range f.size) := by
  rw [idOrder, if_pos hroot]
  refine ((List.mergeSort_perm _ _).cons i).trans ?_
  have herase : (List.range f.size).filter (· != i) = (List.range f.size).erase i :=
    (List.nodup_range.erase_eq_filter i).symm
  rw [herase]
  exact (List.perm_cons_erase (List.mem_range.mpr hroot)).symm

theorem idOrder_eq_cons (hroot : i < f.size) : ∃ rest, f.idOrder i = i :: rest := by
  rw [idOrder, if_pos hroot]
  exact ⟨_, rfl⟩

theorem nodup_idOrder (hroot : i < f.size) : (f.idOrder i).Nodup :=
  (idOrder_perm hroot).nodup_iff.mpr List.nodup_range

theorem mem_idOrder (hroot : i < f.size) (hj : j < f.size) : j ∈ f.idOrder i :=
  (idOrder_perm hroot).mem_iff.mpr (List.mem_range.mpr hj)

theorem mem_idOrder_of_isKept (hroot : i < f.size) (hj : f.isKept j) : j ∈ f.idOrder i :=
  mem_idOrder hroot (lt_size_of_isKept hj)

/-- The root keeps its id. -/
theorem idAt_giveIds_root (hroot : i < f.size) (hkept : f.isKept i) :
    (f.giveIds (f.idOrder i) []).idAt i = f.idAt i := by
  obtain ⟨rest, hrest⟩ := idOrder_eq_cons hroot
  have hnodup := nodup_idOrder hroot
  rw [hrest, List.nodup_cons] at hnodup
  obtain ⟨e₀, he₀, hkind⟩ := hkept
  rw [hrest]
  rcases giveIds_cons f i rest [] with ⟨-, hexport⟩ | ⟨e, he, -, hstep⟩
  · exact absurd (hexport e₀ he₀) hkind
  · rw [hstep, idAt, entity?_giveIds_of_not_mem rest _ hnodup.1, entity?_modify, he,
      idAt_of_entity? he, givenId_nil]
    simp

end Forest
end CodeAtlas
