import CodeAtlas.Proofs.Index.Summary

/-!
# Adding nothing

An index looks at all its files whenever files are added, also when none are.  Their imports are
resolved among the same files and stay as they are, so that every file finds the uses that it found
before.  These are recorded already, with the same lines; what is recorded from earlier steps and is
no longer found is left alone.  So nothing changes, and nothing is counted as new.
-/

namespace CodeAtlas

namespace Index

variable {x y : Index} {blocks : List FileBlock} {files new : List SourceFile}

theorem eq_of_parts (hroot : x.root = y.root) (hfiles : x.files = y.files)
    (hentities : x.entities = y.entities) (huses : x.uses = y.uses) : x = y := by
  cases x
  cases y
  simp only [Index.mk.injEq]
  exact ⟨hroot, hentities, hfiles, huses⟩

/-! ## Imports -/

/-- The imports of all files are resolved among the files of the index. -/
def Resolved (x : Index) : Prop :=
  ∀ id ∈ x.files, ∀ e, x.find? id = some e → e.resolved x.resolver = e

theorem resolved_resolveImports (x : Index) : x.resolveImports.1.Resolved := by
  intro id hid e he
  rw [(resolveImports_others x).2.1] at hid
  rw [find?_resolveImports] at he
  obtain ⟨d, -, rfl⟩ := Option.map_eq_some_iff.mp he
  rw [if_pos hid, resolver_resolveImports]
  exact d.resolved_resolved x.resolver

theorem Resolved.addUses (h : x.Resolved) (hordered : x.entities.Ordered)
    (found : List (String × Table (List Nat))) : (x.addUses found).1.Resolved := by
  obtain ⟨hroot, hfiles, hfind⟩ := addUses_keeps hordered found
  have hresolver : (x.addUses found).1.resolver = x.resolver := by
    rw [resolver, hroot, hfiles, resolver]
  intro id hid e he
  have hsame := hfind id
  rw [he, Option.map_some, eq_comm] at hsame
  obtain ⟨d, hd, huncounted⟩ := Option.map_eq_some_iff.mp hsame
  -- degrees play no part in what imports are resolved to
  have hd := congrArg (·.uncounted.imports) (h id (hfiles ▸ hid) d hd)
  have himports : (e.uncounted.resolved x.resolver).imports = e.uncounted.imports := by
    rw [← huncounted]
    exact hd
  rw [hresolver]
  exact congrArg (fun imports => { e with imports := imports }) himports

/-- Imports that are resolved are not changed by resolving them. -/
theorem Resolved.resolveImports_eq (h : x.Resolved) (hstores : Stores x blocks) :
    x.resolveImports.1 = x := by
  obtain ⟨hroot, hfiles, huses⟩ := resolveImports_others x
  refine eq_of_parts hroot hfiles ?_ huses
  apply hstores.resolveImports.keys_ordered.ext hstores.keys_ordered
  intro id
  rw [← find?, ← find?, find?_resolveImports]
  cases he : x.find? id with
  | none => rfl
  | some e =>
      rw [Option.map_some]
      split
      next hid => rw [h id hid e he]
      next => rfl

/-! ## Uses -/

/-- Recording what was found in an index changes nothing that uses are looked for in. -/
theorem Stores.alike_addUses (h : Stores x blocks) :
    Alike x (x.addUses x.foundUses).1 blocks blocks fun _ => True := by
  obtain ⟨hroot, hfiles, hfind⟩ := addUses_keeps h.keys_ordered x.foundUses
  refine ⟨h, h.addUses_found, by rw [resolver, hroot, hfiles, resolver], fun b hb _ => hb, ?_⟩
  intro b hb _ d hd
  have hmem := mem_entitiesOf hb hd
  exact h.uncounted_current h.addUses_found hmem hmem (hfind d.id).symm

/-- What is found again is known with the same lines. -/
theorem Stores.lines?_addUses_again (h : Stores x blocks) (s t : String) :
    let z := (x.addUses x.foundUses).1
    (z.addUses z.foundUses).1.lines? s t = z.lines? s t := by
  intro z
  have halike := h.alike_addUses
  rw [h.addUses_found.lines?_addUses_found, halike.foundLines?_eq (.refl _)]
  by_cases hadmits : x.Admits s t
  · rw [if_pos ((halike.admits_iff (.refl _) s t).mpr hadmits), h.lines?_addUses_found,
      if_pos hadmits, ← Option.or_assoc, Option.or_self]
  · rw [if_neg fun hz => hadmits ((halike.admits_iff (.refl _) s t).mp hz)]

/-- Recording again what was found changes nothing. -/
theorem Stores.addUses_again (h : Stores x blocks) (hfilled : x.UsesFilled) :
    let z := (x.addUses x.foundUses).1
    (z.addUses z.foundUses).1 = z := by
  intro z
  have hz : Stores z blocks := h.addUses_found
  obtain ⟨hroot, hfiles, hfind⟩ := addUses_keeps hz.keys_ordered z.foundUses
  have huses : (z.addUses z.foundUses).1.uses = z.uses :=
    uses_eq_of_lines? hz.addUses_found.uses hz.uses ((hfilled.addUses _).addUses _)
      (hfilled.addUses _) h.lines?_addUses_again
  refine eq_of_parts hroot hfiles ?_ huses
  apply hz.addUses_found.keys_ordered.ext hz.keys_ordered
  exact hz.find?_eq_of_uncounted hz.addUses_found (fun e he => he) huses fun id => (hfind id).symm

/-! ## Adding nothing -/

theorem UsesFilled.add (h : x.UsesFilled) (files : List SourceFile) :
    (x.add files).1.UsesFilled := by
  rw [add_eq]
  exact (h.of_uses_eq (readied_others x files).2).addUses _

theorem usesFilled_run (root : String) (calls : List (List SourceFile)) :
    (run root calls).UsesFilled :=
  List.foldlRecOn (motive := UsesFilled) calls _ (usesFilled_empty root) fun _ hx files _ =>
    hx.add files

/-- When files were added, adding none changes nothing. -/
theorem Holds.add_nil_fst (h : x.Holds files) (hapart : PathsApart (files ++ new))
    (hfilled : x.UsesFilled) : ((x.add new).1.add []).1 = (x.add new).1 := by
  obtain ⟨blocks, hstores, -⟩ := h.addFiles new hapart 0 0
  have hreadied : Stores (x.readied new) blocks := hstores.resolveImports
  have hresolved : (x.readied new).Resolved := resolved_resolveImports _
  have hagain := hreadied.addUses_again (hfilled.of_uses_eq (readied_others x new).2)
  -- what the second step starts from is what the first one left
  have hsame := (hresolved.addUses hreadied.keys_ordered _).resolveImports_eq
    hreadied.addUses_found
  rw [add_eq x new]
  generalize ((x.readied new).addUses (x.readied new).foundUses).1 = z at *
  have hready : z.readied [] = z := hsame
  rw [add_eq z [], hready, hagain]

/-- If adding nothing changes nothing, it reports no new uses and the imports that lead nowhere. -/
theorem Holds.add_nil_snd (h : x.Holds files) (hapart : PathsApart files)
    (hsame : (x.add []).1 = x) : (x.add []).2 = ⟨0, 0, x.size, x.lostImports, 0⟩ := by
  have hapart : PathsApart (files ++ []) := by rwa [List.append_nil]
  have hfiles := files_add x []
  have hentities := entities_add x []
  have hunresolved := h.unresolved_add hapart
  have huses := h.uses_add hapart
  rw [hsame] at hentities hunresolved huses
  rw [List.length_nil, Nat.add_eq_zero_iff] at hfiles
  have hnone : (x.add []).2.uses = 0 := by omega
  generalize (x.add []).2 = s at *
  obtain ⟨parsed, skipped, entities, unresolved, uses⟩ := s
  rw [Summary.mk.injEq]
  exact ⟨hfiles.1, hfiles.2, hentities, hunresolved, hnone⟩

/-- After any files were added, some at a time, adding none leaves the index as it is.  No use is
new then, and as many imports lead nowhere as were reported when files were last added. -/
theorem add_nil_run (root : String) (calls : List (List SourceFile)) (files : List SourceFile)
    (hpaths : ((calls ++ [files]).flatten.map (·.path)).Nodup)
    (hcolons : ∀ f ∈ (calls ++ [files]).flatten, colonFree f.path) :
    (run root (calls ++ [files])).add [] =
      (run root (calls ++ [files]),
        ⟨0, 0, (run root (calls ++ [files])).size,
          ((run root calls).add files).2.unresolved, 0⟩) := by
  have hapart : PathsApart (calls ++ [files]).flatten := ⟨hpaths, hcolons⟩
  have hholds := holds_run root (calls ++ [files]) hapart
  rw [List.flatten_append, List.flatten_singleton] at hapart hholds
  have hbefore := holds_run root calls (hapart.sublist (List.sublist_append_left _ _))
  have hsame := hbefore.add_nil_fst hapart (usesFilled_run root calls)
  rw [hbefore.unresolved_add hapart]
  rw [run_concat] at hholds ⊢
  exact Prod.ext hsame (hholds.add_nil_snd hapart hsame)

/-- A file that uses a function of a module at the root. -/
def farFunction : List SourceFile :=
  [⟨"/q.py", "def g(): pass\n"⟩, ⟨"/p/m.py", "from q import g\n\ng()\n"⟩]

/-- A nearer module of the same name: the use of the function at the root stays recorded, but is no
longer found. -/
def nearFunction : List SourceFile := [⟨"/p/q.py", "def g(): pass\n"⟩]

theorem add_nil_run_nearFunction :
    (([farFunction] ++ [nearFunction]).flatten.map (·.path)).Nodup ∧
      (∀ f ∈ ([farFunction] ++ [nearFunction]).flatten, colonFree f.path) ∧
      (run "/" ([farFunction] ++ [nearFunction])).add [] =
        (run "/" ([farFunction] ++ [nearFunction]),
          ⟨0, 0, (run "/" ([farFunction] ++ [nearFunction])).size,
            ((run "/" [farFunction]).add nearFunction).2.unresolved, 0⟩) :=
  ⟨by decide, by decide, add_nil_run "/" [farFunction] nearFunction (by decide) (by decide)⟩

end Index
end CodeAtlas
