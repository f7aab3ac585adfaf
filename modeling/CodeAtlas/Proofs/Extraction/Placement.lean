import CodeAtlas.Extraction
import CodeAtlas.Proofs.Forest.Descent
import CodeAtlas.Proofs.Forest.Relate
import Mathlib.Data.Finset.Lattice.Fold

/-!
# Placing definitions

Where the definitions of a file end up.  Each one is put under the file and may then move under a
definition that may hold it.  What holds a definition covers more rows than it, or the same rows
and was placed before; so there is a rank for the finished forest, although covering the same
rows is no order by itself.  Every definition but the export carriers is below the file.
-/

namespace CodeAtlas
namespace Extraction

open Forest (Linked Grows Ranked)

variable {f g : Forest} {i j p : Nat}

/-! ## Offering candidates -/

/-- Offers an index one candidate after the other. -/
def offer (f : Forest) (i : Nat) (cs : List Nat) : Forest :=
  cs.foldl (fun g c => (g.relate i c).1) f

theorem offer_cons (f : Forest) (i c : Nat) (cs : List Nat) :
    offer f i (c :: cs) = offer (f.relate i c).1 i cs := rfl

theorem grows_offer (f : Forest) (i : Nat) (cs : List Nat) : f.Grows (offer f i cs) := by
  induction cs generalizing f with
  | nil => exact .refl f
  | cons c cs ih => exact (Grows.relate f i c).trans (ih _)

theorem linked_offer (h : f.Linked) (i : Nat) (cs : List Nat) : (offer f i cs).Linked := by
  induction cs generalizing f with
  | nil => exact h
  | cons c cs ih => exact ih (h.relate i c)

theorem parent?_offer_of_ne (h : f.Linked) (cs : List Nat) (hj : j ≠ i) :
    (offer f i cs).parent? j = f.parent? j := by
  induction cs generalizing f with
  | nil => rfl
  | cons c cs ih => rw [offer_cons, ih (h.relate i c), h.parent?_relate_of_ne c hj]

/-- The index stays where it is or ends up under a candidate that is no export carrier. -/
theorem parent?_offer_cases (h : f.Linked) (i : Nat) (cs : List Nat) :
    (offer f i cs).parent? i = f.parent? i ∨
      ∃ c ∈ cs, (offer f i cs).parent? i = some c ∧
        ∃ owner, f.entity? c = some owner ∧ owner.kind ≠ .export := by
  induction cs generalizing f with
  | nil => exact Or.inl rfl
  | cons c cs ih =>
      rw [offer_cons]
      have hgrows := Grows.relate f i c
      rcases ih (h.relate i c) with hsame | ⟨d, hd, hparent, owner, howner, hkind⟩
      · rw [hsame]
        rcases h.parent?_relate_cases i c with hold | ⟨hnew, howner⟩
        · exact Or.inl hold
        · exact Or.inr ⟨c, List.mem_cons_self, hnew, howner⟩
      · obtain ⟨owner₀, howner₀, hbecomes⟩ := hgrows.origin howner
        refine Or.inr ⟨d, List.mem_cons_of_mem c hd, hparent, owner₀, howner₀, ?_⟩
        exact fun hexport => hkind ((hbecomes.kind_eq_iff (by decide) (by decide)).mpr hexport)

/-! ## Holding -/

/-- In the order of placement, `c` may hold `x`. -/
def Holds (order : List (Entity × Nat)) (c x : Entity × Nat) : Prop :=
  c.1.kind ≠ .export ∧ ∃ before after, order = before ++ x :: after ∧
    (c ∈ before ∧ mayHold c.1 x.1 true = true ∨ c ∈ after ∧ mayHold c.1 x.1 false = true)

theorem Holds.mem {order : List (Entity × Nat)} {c x : Entity × Nat} (h : Holds order c x) :
    c ∈ order := by
  obtain ⟨-, before, after, rfl, ⟨hmem, -⟩ | ⟨hmem, -⟩⟩ := h
  · exact List.mem_append_left _ hmem
  · exact List.mem_append_right _ (List.mem_cons_of_mem _ hmem)

theorem mem_candidates {before after : List (Entity × Nat)} {e : Entity} {c : Nat}
    (h : c ∈ candidates before e after) :
    ∃ o : Entity, (o, c) ∈ before ∧ mayHold o e true = true ∨
      (o, c) ∈ after ∧ mayHold o e false = true := by
  simp only [candidates, List.mem_map, List.mem_mergeSort, List.mem_reverse, List.mem_append,
    List.mem_filter] at h
  obtain ⟨⟨o, c⟩, h, rfl⟩ := h
  exact ⟨o, h⟩

/-! ## The forest while definitions are placed -/

/-- The setting: a file at index zero and definitions behind it, in the order of placement. -/
structure Setting (f₀ : Forest) (order : List (Entity × Nat)) : Prop where
  file_lt : 0 < f₀.size
  entity : ∀ x ∈ order, f₀.entity? x.2 = some x.1
  ne_zero : ∀ x ∈ order, x.2 ≠ 0
  nodup : (order.map Prod.snd).Nodup

/-- The forest once the definitions in `before` are placed. -/
structure Placed (f₀ : Forest) (order before : List (Entity × Nat)) (f : Forest) : Prop where
  linked : f.Linked
  grows : f₀.Grows f
  parented : ∀ x ∈ before, x.1.kind ≠ .export →
    ∃ p, f.parent? x.2 = some p ∧ (p = 0 ∨ ∃ c, c.2 = p ∧ Holds order c x)
  placed : ∀ j p, f.parent? j = some p → ∃ x ∈ before, x.2 = j ∧ x.1.kind ≠ .export

variable {f₀ : Forest} {order before after : List (Entity × Nat)} {x y : Entity × Nat}

/-- Export carriers are passed over. -/
theorem Placed.pass (h : Placed f₀ order before f) (hexport : x.1.kind = .export) :
    Placed f₀ order (before ++ [x]) f := by
  refine ⟨h.linked, h.grows, ?_, ?_⟩
  · intro y hy hykind
    rcases List.mem_append.mp hy with hy | hy
    · exact h.parented y hy hykind
    · obtain rfl := List.mem_singleton.mp hy
      exact absurd hexport hykind
  · intro j p hp
    obtain ⟨y, hy, heq⟩ := h.placed j p hp
    exact ⟨y, List.mem_append_left _ hy, heq⟩

namespace Setting

theorem snd_ne_of_mem_before (s : Setting f₀ order) (horder : order = before ++ x :: after)
    (hy : y ∈ before) : y.2 ≠ x.2 := by
  have hnodup := s.nodup
  rw [horder, List.map_append, List.map_cons] at hnodup
  exact (List.nodup_append.mp hnodup).2.2 y.2 (List.mem_map_of_mem hy) x.2 (by simp)

/-- A candidate that is no export carrier by now was none when it was captured. -/
theorem exists_holds (s : Setting f₀ order) (horder : order = before ++ x :: after)
    {g : Forest} (hgrows : f₀.Grows g) {c : Nat} (hc : c ∈ candidates before x.1 after)
    {owner : Entity} (howner : g.entity? c = some owner) (hexport : owner.kind ≠ .export) :
    ∃ o, Holds order (o, c) x := by
  obtain ⟨o, hoc⟩ := mem_candidates hc
  have hmem : (o, c) ∈ order := by
    rw [horder]
    rcases hoc with ⟨hoc, -⟩ | ⟨hoc, -⟩
    · exact List.mem_append_left _ hoc
    · exact List.mem_append_right _ (List.mem_cons_of_mem _ hoc)
  obtain ⟨o', ho', hbecomes⟩ := hgrows.origin howner
  rw [s.entity (o, c) hmem] at ho'
  obtain rfl : o = o' := Option.some.inj ho'
  have ho : o.kind ≠ .export := fun hk =>
    hexport ((hbecomes.kind_eq_iff (by decide) (by decide)).mpr hk)
  exact ⟨o, ho, before, after, horder, hoc⟩

theorem lt_size (s : Setting f₀ order) (horder : order = before ++ x :: after)
    (h : Placed f₀ order before f) : x.2 < f.size := by
  have hx : x ∈ order := by rw [horder]; simp
  exact h.grows.size_eq ▸ Forest.lt_size_of_entity? (s.entity x hx)

/-- What is not placed yet can be put under the file. -/
theorem linked_attach (s : Setting f₀ order) (horder : order = before ++ x :: after)
    (h : Placed f₀ order before f) : (f.attach 0 x.2).Linked := by
  have hfree : f.parent? x.2 = none := by
    rw [Option.eq_none_iff_forall_ne_some]
    intro p hp
    obtain ⟨y, hy, heq, -⟩ := h.placed x.2 p hp
    exact s.snd_ne_of_mem_before horder hy heq
  exact h.linked.attach (h.grows.size_eq ▸ s.file_lt) (s.lt_size horder h) hfree

/-- Placing one definition. -/
theorem place_one (s : Setting f₀ order) (horder : order = before ++ x :: after)
    (h : Placed f₀ order before f) (hkind : x.1.kind ≠ .export) :
    Placed f₀ order (before ++ [x])
      (offer (f.attach 0 x.2) x.2 (candidates before x.1 after)) := by
  have hnew : ∀ y ∈ before, y.2 ≠ x.2 := fun y hy => s.snd_ne_of_mem_before horder hy
  have hlt : x.2 < f.size := s.lt_size horder h
  have hattached : (f.attach 0 x.2).Linked := s.linked_attach horder h
  have hattach : ∀ j, (f.attach 0 x.2).parent? j = if j = x.2 then some 0 else f.parent? j :=
    fun j => Forest.parent?_attach hlt
  have hgrows : f₀.Grows (f.attach 0 x.2) := h.grows.trans (.attach f 0 x.2)
  have hother : ∀ j, j ≠ x.2 →
      (offer (f.attach 0 x.2) x.2 (candidates before x.1 after)).parent? j = f.parent? j := by
    intro j hj
    rw [parent?_offer_of_ne hattached _ hj, hattach, if_neg hj]
  constructor
  · exact linked_offer hattached _ _
  · exact hgrows.trans (grows_offer _ _ _)
  · intro y hy hykind
    rcases List.mem_append.mp hy with hy | hy
    · rw [hother y.2 (hnew y hy)]
      exact h.parented y hy hykind
    · obtain rfl : y = x := List.mem_singleton.mp hy
      rcases parent?_offer_cases hattached y.2 (candidates before y.1 after) with
        hsame | ⟨c, hc, hparent, owner, howner, hexport⟩
      · exact ⟨0, by rw [hsame, hattach, if_pos rfl], Or.inl rfl⟩
      · obtain ⟨o, hhold⟩ := s.exists_holds horder hgrows hc howner hexport
        exact ⟨c, hparent, Or.inr ⟨(o, c), rfl, hhold⟩⟩
  · intro j p hp
    by_cases hj : j = x.2
    · exact ⟨x, by simp, hj.symm, hkind⟩
    · rw [hother j hj] at hp
      obtain ⟨y, hy, heq, hykind⟩ := h.placed j p hp
      exact ⟨y, List.mem_append_left _ hy, heq, hykind⟩

/-- Placing all definitions behind those that are placed already. -/
theorem place_rest (s : Setting f₀ order) (horder : order = before ++ after)
    (h : Placed f₀ order before f) : Placed f₀ order order (place 0 before after f) := by
  induction after generalizing before f with
  | nil =>
      rw [List.append_nil] at horder
      subst horder
      exact h
  | cons x after ih =>
      obtain ⟨e, i⟩ := x
      rw [place]
      apply ih (by simpa using horder)
      split
      next hexport =>
        have hexport : e.kind = .export := by simpa using hexport
        exact h.pass hexport
      next hexport => exact s.place_one horder h (by simpa using hexport)

end Setting

/-! ## The rank of a placed forest -/

/-- How little a span covers: the rows before it and, up to a bound, those behind it. -/
def margin (bound : Nat) (s : Span) : Nat := s.start.row + (bound - s.stop.row)

theorem margin_lt {bound : Nat} {inner outer : Span} (hwithin : inner.rowsWithin outer = true)
    (hrows : inner.sameRows outer = false) (hbound : outer.stop.row ≤ bound) :
    margin bound outer < margin bound inner := by
  simp only [Span.rowsWithin, Bool.and_eq_true, decide_eq_true_eq] at hwithin
  simp only [Span.sameRows, Bool.and_eq_false_iff, beq_eq_false_iff_ne] at hrows
  unfold margin
  omega

theorem margin_eq {bound : Nat} {inner outer : Span} (hrows : inner.sameRows outer = true) :
    margin bound outer = margin bound inner := by
  simp only [Span.sameRows, Bool.and_eq_true, beq_iff_eq] at hrows
  rw [margin, margin, hrows.1, hrows.2]

/-- The rank by margin first and by the order of placement second; the file comes first. -/
def placeRank (f₀ : Forest) (order : List (Entity × Nat)) (bound i : Nat) : Nat :=
  if i = 0 then 0
  else 1 + ((f₀.entity? i).elim 0 fun e => margin bound e.span) * (order.length + 1) +
    (order.map Prod.snd).idxOf i

namespace Setting

theorem placeRank_of_mem (s : Setting f₀ order) (bound : Nat) (hx : x ∈ order) :
    placeRank f₀ order bound x.2 =
      1 + margin bound x.1.span * (order.length + 1) + (order.map Prod.snd).idxOf x.2 := by
  rw [placeRank, if_neg (s.ne_zero x hx), s.entity x hx]
  rfl

theorem placeRank_lt_of_margin (s : Setting f₀ order) {bound : Nat} (hx : x ∈ order)
    (hy : y ∈ order) (h : margin bound y.1.span < margin bound x.1.span) :
    placeRank f₀ order bound y.2 < placeRank f₀ order bound x.2 := by
  rw [s.placeRank_of_mem bound hx, s.placeRank_of_mem bound hy]
  have hindex : (order.map Prod.snd).idxOf y.2 ≤ order.length := by
    simpa using List.idxOf_le_length (a := y.2) (l := order.map Prod.snd)
  have hmul := Nat.mul_le_mul_right (order.length + 1) (Nat.succ_le_of_lt h)
  rw [Nat.succ_mul] at hmul
  omega

theorem placeRank_lt_of_earlier (s : Setting f₀ order) {bound : Nat}
    (horder : order = before ++ x :: after) (hy : y ∈ before)
    (h : margin bound y.1.span = margin bound x.1.span) :
    placeRank f₀ order bound y.2 < placeRank f₀ order bound x.2 := by
  have hx : x ∈ order := by rw [horder]; simp
  have hy' : y ∈ order := by rw [horder]; exact List.mem_append_left _ hy
  rw [s.placeRank_of_mem bound hx, s.placeRank_of_mem bound hy', h]
  have hnodup := s.nodup
  rw [horder, List.map_append, List.map_cons, List.nodup_append] at hnodup
  have hnot : x.2 ∉ before.map Prod.snd := fun hmem => hnodup.2.2 x.2 hmem x.2 (by simp) rfl
  have hmem : y.2 ∈ before.map Prod.snd := List.mem_map_of_mem hy
  have hindex : (order.map Prod.snd).idxOf y.2 < (order.map Prod.snd).idxOf x.2 := by
    rw [horder, List.map_append, List.map_cons, List.idxOf_append_of_mem hmem,
      List.idxOf_append_of_notMem hnot, List.idxOf_cons_self]
    exact Nat.lt_of_lt_of_le (List.idxOf_lt_length_of_mem hmem) (Nat.le_add_right _ _)
  omega

/-- What holds a definition has a smaller rank. -/
theorem placeRank_lt_of_holds (s : Setting f₀ order) {bound : Nat} (hx : x ∈ order)
    (hbound : ∀ c ∈ order, c.1.span.stop.row ≤ bound) {c : Entity × Nat} (h : Holds order c x) :
    placeRank f₀ order bound c.2 < placeRank f₀ order bound x.2 := by
  have hc := h.mem
  obtain ⟨-, before, after, horder, hmay⟩ := h
  have hcases : x.1.span.rowsWithin c.1.span = true ∧
      (x.1.span.sameRows c.1.span = false ∨
        c ∈ before ∧ x.1.span.sameRows c.1.span = true) := by
    rcases hmay with ⟨hmem, hmay⟩ | ⟨-, hmay⟩
    · simp only [mayHold, Bool.and_eq_true, Bool.or_eq_true, Bool.not_eq_true'] at hmay
      cases hrows : x.1.span.sameRows c.1.span with
      | false => exact ⟨hmay.1.2, Or.inl rfl⟩
      | true => exact ⟨hmay.1.2, Or.inr ⟨hmem, rfl⟩⟩
    · simp only [mayHold, Bool.and_eq_true, Bool.or_eq_true, Bool.not_eq_true', Bool.and_false,
        Bool.false_eq_true, or_false] at hmay
      exact ⟨hmay.1.2, Or.inl hmay.2⟩
  rcases hcases with ⟨hwithin, hrows | ⟨hmem, hrows⟩⟩
  · exact s.placeRank_lt_of_margin hx hc (margin_lt hwithin hrows (hbound c hc))
  · exact s.placeRank_lt_of_earlier horder hmem (margin_eq hrows)

/-- Going up from a placed definition comes to an end. -/
theorem exists_ranked (s : Setting f₀ order) (h : Placed f₀ order order f) :
    ∃ rank, f.Ranked rank := by
  let bound := (order.toFinset).sup fun x => x.1.span.stop.row
  have hbound : ∀ c ∈ order, c.1.span.stop.row ≤ bound := by
    intro c hc
    exact Finset.le_sup (f := fun x : Entity × Nat => x.1.span.stop.row)
      (List.mem_toFinset.mpr hc)
  refine ⟨placeRank f₀ order bound, ?_⟩
  intro i p hp
  obtain ⟨x, hx, rfl, hkind⟩ := h.placed i p hp
  obtain ⟨q, hq, hhold⟩ := h.parented x hx hkind
  rw [hp] at hq
  obtain rfl : p = q := Option.some.inj hq
  rcases hhold with rfl | ⟨c, rfl, hhold⟩
  · rw [placeRank, if_pos rfl, placeRank, if_neg (s.ne_zero x hx)]
    omega
  · exact s.placeRank_lt_of_holds hx hbound hhold

/-! ## What is below the file -/

/-- The definitions below the file are those that are no export carriers. -/
theorem mem_descendants_zero_iff (s : Setting f₀ order) (h : Placed f₀ order order f) :
    j ∈ f.descendants 0 ↔ ∃ x ∈ order, x.2 = j ∧ x.1.kind ≠ .export := by
  obtain ⟨rank, hrank⟩ := s.exists_ranked h
  constructor
  · intro hj
    obtain ⟨p, hp, -⟩ := (h.linked.mem_descendants_iff_parent? hrank).mp hj
    exact h.placed j p hp
  · rintro ⟨x, hx, rfl, hkind⟩
    -- go up by the rank until the file is reached
    induction hn : rank x.2 using Nat.strong_induction_on generalizing x with
    | _ n ih =>
        obtain ⟨p, hp, hhold⟩ := h.parented x hx hkind
        refine (h.linked.mem_descendants_iff_parent? hrank).mpr ⟨p, hp, ?_⟩
        rcases hhold with rfl | ⟨c, rfl, hhold⟩
        · exact Or.inl rfl
        · exact Or.inr (ih (rank c.2) (hn ▸ hrank x.2 c.2 hp) c hhold.mem hhold.1 rfl)

theorem descendants_zero_perm (s : Setting f₀ order) (h : Placed f₀ order order f) :
    (f.descendants 0).Perm ((order.filter (·.1.kind != .export)).map Prod.snd) := by
  obtain ⟨rank, hrank⟩ := s.exists_ranked h
  have hnodup := h.linked.nodup_descendants hrank 0
  rw [List.nodup_cons] at hnodup
  have hsub : ((order.filter (·.1.kind != .export)).map Prod.snd).Sublist (order.map Prod.snd) :=
    List.filter_sublist.map Prod.snd
  rw [List.perm_ext_iff_of_nodup hnodup.2 (s.nodup.sublist hsub)]
  intro j
  rw [s.mem_descendants_zero_iff h]
  simp only [List.mem_map, List.mem_filter, bne_iff_ne]
  constructor
  · rintro ⟨x, hx, rfl, hkind⟩
    exact ⟨x, ⟨hx, hkind⟩, rfl⟩
  · rintro ⟨x, ⟨hx, hkind⟩, rfl⟩
    exact ⟨x, hx, rfl, hkind⟩

end Setting

end Extraction
end CodeAtlas
