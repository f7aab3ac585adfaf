import CodeAtlas.Proofs.Forest.Acyclic
import CodeAtlas.Proofs.Forest.Finish

/-!
# Final ids

What finishing a forest does to ids, for any forest in which going down never leads back: edges may
be missing, shared or one-sided.  Every entity but export statements gets an id of its own.  It is
the id that the entity had, or the first numbered form of it that no entity in front of it got, so
that an id changes only where it was not the only one.
-/

namespace CodeAtlas

/-- The id is the one that the entity had, or that one with the line of the entity behind it, or
with the line and a number from two on. -/
def Entity.NumberedAs (e : Entity) (id : String) : Prop :=
  id = e.id ∨ id = e.id ++ "@" ++ toString (e.span.start.row + 1) ∨
    ∃ k, 2 ≤ k ∧ id = e.id ++ "@" ++ toString (e.span.start.row + 1) ++ "." ++ toString k

theorem Entity.numberedAs_candidateId (e : Entity) (n : Nat) :
    e.NumberedAs (Forest.candidateId e.id (e.span.start.row + 1) n) := by
  match n with
  | 0 => exact Or.inl rfl
  | 1 => exact Or.inr (Or.inl rfl)
  | n + 2 => exact Or.inr (Or.inr ⟨n + 2, by omega, Forest.candidateId_add_two ..⟩)

namespace Forest

variable {f : Forest} {r i j : Nat}

/-- The id of an index once the forest is finished from a root. -/
def finalId (f : Forest) (root i : Nat) : String := (f.giveIds (f.idOrder root) []).idAt i

/-- The search for the id of an index comes to an end: the indices in front of it have all the forms
of its id that were tried before, and none of them has the one that it gets. -/
def SettlesBehind (f : Forest) (root : Nat) (before : List Nat) (i : Nat) : Prop :=
  ∃ e n, f.entity? i = some e ∧ f.finalId root i = candidateId e.id (e.span.start.row + 1) n ∧
    (∀ m < n, ∃ k ∈ before, f.isKept k ∧
      f.finalId root k = candidateId e.id (e.span.start.row + 1) m) ∧
    ∀ k ∈ before, f.isKept k → f.finalId root k ≠ f.finalId root i

theorem settlesBehind {before after : List Nat} (hroot : r < f.size)
    (horder : f.idOrder r = before ++ i :: after) (hi : f.isKept i) :
    f.SettlesBehind r before i := by
  have hnodup : (before ++ i :: after).Nodup := horder ▸ nodup_idOrder hroot
  have hfinal : ∀ k, f.finalId r k = (f.giveIds (before ++ i :: after) []).idAt k := by
    intro k
    rw [finalId, horder]
  obtain ⟨e, he, hkind⟩ := hi
  obtain ⟨taken, hentity, hmem⟩ := entity?_giveIds_append hnodup [] he hkind
  obtain ⟨n, hn, htried⟩ := exists_givenId_eq taken e
  refine ⟨e, n, he, ?_, ?_, ?_⟩
  · rw [hfinal, idAt_of_entity? hentity, hn]
  · intro m hm
    obtain ⟨k, hk, hkept, hid⟩ := ((hmem _).mp (htried m hm)).resolve_left (by simp)
    exact ⟨k, hk, hkept, (hfinal k).trans hid⟩
  · intro k hk hkept
    rw [hfinal, hfinal]
    exact idAt_giveIds_ne hnodup [] hk hkept ⟨e, he, hkind⟩

theorem exists_settlesBehind (hroot : r < f.size) (hi : f.isKept i) :
    ∃ before after, f.idOrder r = before ++ i :: after ∧ f.SettlesBehind r before i := by
  obtain ⟨before, after, horder⟩ := List.append_of_mem (mem_idOrder_of_isKept hroot hi)
  exact ⟨before, after, horder, settlesBehind hroot horder hi⟩

theorem numberedAs_finalId (hroot : r < f.size) {e : Entity} (he : f.entity? i = some e)
    (hkind : e.kind ≠ .export) : e.NumberedAs (f.finalId r i) := by
  obtain ⟨before, after, -, e', n, he', hid, -⟩ := exists_settlesBehind hroot ⟨e, he, hkind⟩
  rw [he] at he'
  obtain rfl := Option.some.inj he'
  rw [hid]
  exact e.numberedAs_candidateId n

theorem finalId_injective (hroot : r < f.size) (hi : f.isKept i) (hj : f.isKept j)
    (h : f.finalId r i = f.finalId r j) : i = j :=
  idAt_giveIds_injective _ [] (nodup_idOrder hroot) (mem_idOrder_of_isKept hroot hi)
    (mem_idOrder_of_isKept hroot hj) hi hj h

/-- Ids that differ from one another are kept. -/
theorem finalId_eq_idAt (hroot : r < f.size)
    (hdistinct : ∀ i j, f.isKept i → f.isKept j → f.idAt i = f.idAt j → i = j) (i : Nat) :
    f.finalId r i = f.idAt i := by
  -- the first index to lose its id would lose it to one in front of it, which has kept its own
  have hkeeps : ∀ before after, f.idOrder r = before ++ after →
      ∀ k ∈ before, f.isKept k → f.finalId r k = f.idAt k := by
    intro before
    induction before using List.reverseRecOn with
    | nil => exact fun _ _ k hk => absurd hk (by simp)
    | append_singleton before i ih =>
        intro after horder k hk hkept
        rw [List.append_assoc, List.singleton_append] at horder
        rcases List.mem_append.mp hk with hfront | hlast
        · exact ih _ horder k hfront hkept
        · obtain rfl := List.mem_singleton.mp hlast
          obtain ⟨e, n, he, hid, htried, -⟩ := settlesBehind hroot horder hkept
          cases n with
          | zero => rw [hid, idAt_of_entity? he, candidateId]
          | succ n =>
              obtain ⟨l, hl, hlkept, hlid⟩ := htried 0 (Nat.succ_pos n)
              have hsame : f.idAt l = f.idAt k := by
                rw [← ih _ horder l hl hlkept, hlid, candidateId, idAt_of_entity? he]
              have hnodup := nodup_idOrder hroot
              rw [horder, ← hdistinct l k hlkept hkept hsame] at hnodup
              exact absurd rfl ((List.nodup_append.mp hnodup).2.2 l hl l List.mem_cons_self)
  by_cases hi : f.isKept i
  · exact hkeeps (f.idOrder r) [] (List.append_nil _).symm i (mem_idOrder_of_isKept hroot hi) hi
  · rw [finalId, idAt, entity?_giveIds_of_not_isKept _ _ hi, idAt]

/-- Finished entities carry the final ids of their own index, of its parent and of its children. -/
theorem finish_eq_filterMap (f : Forest) (r : Nat) :
    f.finish r = (firstOccurrences (r :: f.descendants r)).filterMap fun i =>
      (f.entity? i).map fun e =>
        { e with
          id := f.finalId r i
          parent := (f.parent? i).map (f.finalId r)
          children := (f.children i).map (f.finalId r) } := by
  have hdescendants : (f.giveIds (f.idOrder r) []).descendants r = f.descendants r :=
    descendants_congr (size_giveIds ..) (children_giveIds f _ _) r
  rw [finish, hdescendants]
  apply List.filterMap_congr
  intro i _
  rw [linked?_eq_map, entity?_giveIds_eq_map, parent?_giveIds, children_giveIds, Option.map_map]
  rfl

/-- However the children of indices are listed, as long as going down never leads back: the walk
below a root and the search for every id come to an end.  The entities get different ids, each the
one that it had or a numbered form of it; the root keeps its id, and all do whose ids were different
from the start.  The entities that are listed name one another by these ids. -/
theorem finish_ids_of_acyclic (hacyclic : f.Acyclic) (hroot : f.isKept r) :
    f.Walks (f.children r) (f.descendants r) ∧
      (∀ i, f.isKept i →
        ∃ before after, f.idOrder r = before ++ i :: after ∧ f.SettlesBehind r before i) ∧
      (∀ i j, f.isKept i → f.isKept j → f.finalId r i = f.finalId r j → i = j) ∧
      (∀ i e, f.entity? i = some e → e.kind ≠ .export → e.NumberedAs (f.finalId r i)) ∧
      f.finalId r r = f.idAt r ∧
      ((∀ i j, f.isKept i → f.isKept j → f.idAt i = f.idAt j → i = j) →
        ∀ i, f.finalId r i = f.idAt i) ∧
      f.finish r = (firstOccurrences (r :: f.descendants r)).filterMap fun i =>
        (f.entity? i).map fun e =>
          { e with
            id := f.finalId r i
            parent := (f.parent? i).map (f.finalId r)
            children := (f.children i).map (f.finalId r) } := by
  have hlt : r < f.size := lt_size_of_isKept hroot
  refine ⟨hacyclic.walks_descendants r, ?_, ?_, ?_, ?_, ?_, f.finish_eq_filterMap r⟩
  · exact fun i hi => exists_settlesBehind hlt hi
  · exact fun i j hi hj h => finalId_injective hlt hi hj h
  · exact fun i e he hkind => numberedAs_finalId hlt he hkind
  · exact idAt_giveIds_root hlt hroot
  · exact finalId_eq_idAt hlt

/-- A file with two functions of one name and, between them, one whose name is the form that the
last one tries first; that one is listed under the file and under the first function. -/
def clashing : Forest :=
  let function (id : String) (row : Nat) : Entity :=
    { Entity.ofCode id .function .python "" with span := ⟨row, row, ⟨row, 0⟩, ⟨row, 0⟩⟩ }
  let f := (empty.push (.file "/a.py" "" .python)).push (function "/a.py::f" 0)
  let f := (f.push (function "/a.py::f@4" 1)).push (function "/a.py::f" 3)
  (((f.attach 0 1).attach 1 2).attach 0 2).attach 0 3

/-- The last function gets the second form of its id. -/
theorem finish_ids_clashing :
    clashing.Acyclic ∧ clashing.isKept 0 ∧
      clashing.Walks (clashing.children 0) (clashing.descendants 0) ∧
      (clashing.finish 0).map (fun e => (e.id, e.parent, e.children)) =
        [("/a.py", none, ["/a.py::f", "/a.py::f@4", "/a.py::f@4.2"]),
          ("/a.py::f", some "/a.py", ["/a.py::f@4"]), ("/a.py::f@4", some "/a.py", []),
          ("/a.py::f@4.2", some "/a.py", [])] := by
  have hfalls : clashing.Falls fun i => 4 - i := by
    have hsmall : ∀ i < clashing.size, ∀ c ∈ clashing.children i, 4 - c < 4 - i := by
      decide +kernel
    intro i c hc
    exact hsmall i (lt_size_of_mem_children hc) c hc
  have hroot : clashing.isKept 0 := ⟨_, rfl, by decide⟩
  obtain ⟨hwalks, -, -, -, -, -, hfinish⟩ := finish_ids_of_acyclic hfalls.acyclic hroot
  have horder : clashing.idOrder 0 = [0, 1, 2, 3] := by
    rw [idOrder_eq_insertionSort]
    decide +kernel
  have hfinal : clashing.finalId 0 = (clashing.giveIds [0, 1, 2, 3] []).idAt := by
    funext i
    rw [finalId, horder]
  refine ⟨hfalls.acyclic, hroot, hwalks, ?_⟩
  rw [hfinish, hfinal]
  decide +kernel

end Forest
end CodeAtlas
