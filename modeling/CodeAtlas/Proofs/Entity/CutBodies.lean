import CodeAtlas.Proofs.Entity.Redaction

/-!
# Bodies in their places

Where the bodies of the definitions inside an entity stand in the file as they say, each is replaced
at its own place, though the same text may stand elsewhere.  The text of the entity may have
anything in front of its source, lack a piece of it before the first of the bodies, and go on behind
the entity: it is the distance from the end of the text that tells where a body is, and replacing
the bodies in front of it leaves that distance as it is.
-/

namespace CodeAtlas

namespace Patch

/-- In the text of the patches every body starts at its byte of the file, moved by `shift`. -/
def Shifted (shift : Int) (patches : List Patch) : Prop :=
  ∀ before p after, patches = before ++ p :: after →
    (Text.byteLength (before.flatMap original ++ p.kept) : Int) =
      p.child.visibleStart p.target + shift

theorem Shifted.cons {shift : Int} {p : Patch} {patches : List Patch}
    (hp : (Text.byteLength p.kept : Int) = p.child.visibleStart p.target + shift)
    (hpatches : Shifted (shift - Text.byteLength p.original) patches) :
    Shifted shift (p :: patches) := by
  intro before q after heq
  cases before with
  | nil =>
      obtain ⟨rfl, -⟩ := List.cons.inj heq
      exact hp
  | cons p' before =>
      obtain ⟨rfl, hrest⟩ := List.cons.inj heq
      have hq := hpatches before q after hrest
      rw [List.flatMap_cons, List.append_assoc, Text.byteLength_append]
      omega

end Patch

namespace Entity

variable {e child : Entity} {children : List Entity}

/-! ## Finding a body in its place -/

/-- The body of the definition stands in the source of an entity as far behind its start as in the
file. -/
def StandsIn (child e : Entity) : Prop :=
  ∃ before after, e.source.toList = before ++ (child.body.toList ++ after) ∧
    e.span.startByte + Text.byteLength before = child.bodyStart

/-- The visible body of a definition is found behind what was passed, whatever was done to the text
in front of it. -/
theorem StandsIn.exists_located {target : String} {passed rest : List Char}
    (hstands : child.StandsIn e) (hbody : child.visibleBody? = some target)
    (hsource : e.source.toList = passed ++ rest)
    (hpassed : e.span.startByte + Text.byteLength passed ≤ child.bodyStart) :
    ∃ skipped after, rest = skipped ++ (target.toList ++ after) ∧
      e.span.startByte + Text.byteLength (passed ++ skipped) = child.visibleStart target ∧
      child.visibleStart target + Text.size target = child.bodyStart + Text.size child.body ∧
      ∀ done gap, e.locate? child target done (gap ++ rest) = some (gap ++ skipped, after) := by
  obtain ⟨before, after, hbefore, hstart⟩ := hstands
  obtain ⟨-, opening, hopening⟩ := exists_body_eq hbody
  obtain ⟨between, rfl⟩ : passed <+: before :=
    Text.prefix_of_byteLength_le ⟨rest, hsource.symm⟩ ⟨_, hbefore.symm⟩ (by omega)
  have hrest : rest = between ++ opening ++ (target.toList ++ after) := by
    rw [hsource, hopening] at hbefore
    simp only [List.append_assoc] at hbefore ⊢
    exact List.append_cancel_left hbefore
  have hsize : Text.size child.body = Text.byteLength opening + Text.size target := by
    rw [Text.size, hopening, Text.byteLength_append, Text.size]
  refine ⟨between ++ opening, after, hrest, ?_, ?_, ?_⟩
  · rw [visibleStart, hsize, ← hstart]
    simp only [Text.byteLength_append]
    omega
  · rw [visibleStart, hsize]
    omega
  · intro done gap
    refine locate?_of_expectedOffset? (by rw [hrest]; simp only [List.append_assoc]) ?_
    apply expectedOffset?_eq_some (by omega)
    have hlength := congrArg Text.byteLength hsource
    rw [visibleStart, hsize, ← hstart, Text.size, hlength]
    simp only [Text.byteLength_append]
    omega

/-! ## Cutting a text at bodies -/

/-- The definition has a body that is not blank behind the documentation. -/
def hasVisibleBody (e : Entity) : Bool := e.visibleBody?.isSome

/-- The body of the definition is replaced in texts of the entity: it is neither blank nor that of
an assignment or of the constructor of the class. -/
def replacesBodyOf (e child : Entity) : Bool :=
  child.hasVisibleBody && child.kind != .assignment &&
    !(e.kind.isClassLike && child.isConstructorOf e)

theorem replacesBodyOf_eq (e child : Entity) :
    e.replacesBodyOf child = (child.hasVisibleBody && !e.keepsBodyOf child) := by
  rw [replacesBodyOf, keepsBodyOf, Bool.not_or, Bool.and_assoc, bne]

/-- The text is cut at the bodies of the definitions that are replaced, all of them and no others,
each at its byte of the file moved by `shift`. -/
structure CutAtBodies (e : Entity) (children : List Entity) (shift : Int) (text : List Char)
    (patches : List Patch) (last : List Char) : Prop where
  children_eq : patches.map (·.child) = children.filter e.replacesBodyOf
  targets : ∀ p ∈ patches, p.child.visibleBody? = some p.target
  text_eq : text = patches.flatMap Patch.original ++ last
  shifted : Patch.Shifted shift patches

namespace CutAtBodies

variable {others : List Entity} {shift shift' : Int} {text : List Char} {patches : List Patch}
  {last : List Char}

theorem nil (e : Entity) (shift : Int) (text : List Char) :
    e.CutAtBodies [] shift text [] text where
  children_eq := rfl
  targets := by simp
  text_eq := rfl
  shifted := by simp [Patch.Shifted]

theorem pass (h : e.CutAtBodies others shift text patches last)
    (hpass : e.replacesBodyOf child = false) :
    e.CutAtBodies (child :: others) shift text patches last :=
  { h with
    children_eq := by
      rw [h.children_eq, List.filter_cons_of_neg (by simp [hpass])] }

theorem cons {target : String} {kept rest : List Char}
    (h : e.CutAtBodies others shift' rest patches last)
    (hbody : child.visibleBody? = some target) (hreplace : e.replacesBodyOf child = true)
    (htext : text = kept ++ target.toList ++ rest)
    (hkept : (Text.byteLength kept : Int) = child.visibleStart target + shift)
    (hshift : shift' = shift - Text.byteLength (kept ++ target.toList)) :
    e.CutAtBodies (child :: others) shift text (⟨kept, child, target⟩ :: patches) last where
  children_eq := by rw [List.map_cons, h.children_eq, List.filter_cons_of_pos hreplace]
  targets := List.forall_mem_cons.mpr ⟨hbody, h.targets⟩
  text_eq := by
    rw [htext, h.text_eq, List.flatMap_cons, Patch.original, List.append_assoc _ _ last]
  shifted := .cons hkept (hshift ▸ h.shifted)

end CutAtBodies

/-! ## One body after the other -/

/-- With a part of the source passed, bodies are replaced in their places in the rest, whatever the
text has for that part: it has `gap` in place of it, and `lead` is what was kept in front of it since
the last body that was replaced. -/
def ReplacesInPlace (e : Entity) (children : List Entity) (passed rest : List Char) : Prop :=
  ∀ lead gap : List Char, ∃ (patches : List Patch) (last : List Char),
    e.CutAtBodies children
      (Text.byteLength (lead ++ gap) - (e.span.startByte + Text.byteLength passed))
      (lead ++ (gap ++ rest)) patches last ∧
    ∀ placeholder done, e.redactFrom placeholder children (done ++ lead) (gap ++ rest) =
      done ++ (patches.flatMap (Patch.replaced placeholder) ++ last)

namespace ReplacesInPlace

variable {others : List Entity} {target : String} {passed rest skipped after : List Char}

theorem nil (e : Entity) (passed rest : List Char) : e.ReplacesInPlace [] passed rest := by
  intro lead gap
  refine ⟨[], lead ++ (gap ++ rest), .nil e _ _, ?_⟩
  intro placeholder done
  rw [redactFrom, List.append_assoc]
  rfl

theorem blank (h : e.ReplacesInPlace others passed rest) (hbody : child.visibleBody? = none) :
    e.ReplacesInPlace (child :: others) passed rest := by
  intro lead gap
  obtain ⟨patches, last, hcut, hresult⟩ := h lead gap
  have hpass : e.replacesBodyOf child = false := by
    simp [replacesBodyOf, hasVisibleBody, hbody]
  refine ⟨patches, last, hcut.pass hpass, ?_⟩
  intro placeholder done
  rw [redactFrom_cons_of_visibleBody?_eq_none hbody, hresult]

/-- A body that is kept joins what is kept in front of it. -/
theorem keep (h : e.ReplacesInPlace others (passed ++ skipped ++ target.toList) after)
    (hbody : child.visibleBody? = some target) (hkeep : e.keepsBodyOf child = true)
    (hlocate : ∀ done gap, e.locate? child target done
      (gap ++ (skipped ++ (target.toList ++ after))) = some (gap ++ skipped, after)) :
    e.ReplacesInPlace (child :: others) passed (skipped ++ (target.toList ++ after)) := by
  intro lead gap
  obtain ⟨patches, last, hcut, hresult⟩ := h (lead ++ (gap ++ (skipped ++ target.toList))) []
  have hpass : e.replacesBodyOf child = false := by simp [replacesBodyOf_eq, hkeep]
  refine ⟨patches, last, ?_, ?_⟩
  · convert hcut.pass hpass using 1
    · simp only [Text.byteLength_append, Text.byteLength_nil]
      omega
    · simp only [List.append_assoc, List.nil_append]
  · intro placeholder done
    rw [redactFrom_cons_of_locate? hbody (hlocate _ _), hkeep, if_pos rfl, ← hresult]
    simp only [List.append_assoc, List.nil_append]

theorem replace (h : e.ReplacesInPlace others (passed ++ skipped ++ target.toList) after)
    (hbody : child.visibleBody? = some target) (hreplace : e.keepsBodyOf child = false)
    (hstart : e.span.startByte + Text.byteLength (passed ++ skipped) = child.visibleStart target)
    (hlocate : ∀ done gap, e.locate? child target done
      (gap ++ (skipped ++ (target.toList ++ after))) = some (gap ++ skipped, after)) :
    e.ReplacesInPlace (child :: others) passed (skipped ++ (target.toList ++ after)) := by
  intro lead gap
  obtain ⟨patches, last, hcut, hresult⟩ := h [] []
  refine ⟨⟨lead ++ (gap ++ skipped), child, target⟩ :: patches, last, ?_, ?_⟩
  · refine hcut.cons hbody (by simp [replacesBodyOf_eq, hasVisibleBody, hbody, hreplace]) ?_ ?_ ?_
    · simp only [List.append_assoc, List.nil_append]
    · simp only [Text.byteLength_append] at hstart ⊢
      omega
    · simp only [Text.byteLength_append, Text.byteLength_nil]
      omega
  · intro placeholder done
    have hrest := hresult placeholder
      (done ++ lead ++ (gap ++ skipped) ++ (placeholder child target).toList)
    rw [List.append_nil, List.nil_append] at hrest
    rw [redactFrom_cons_of_locate? hbody (hlocate _ _), hreplace, if_neg Bool.false_ne_true, hrest,
      List.flatMap_cons, Patch.replaced]
    simp only [List.append_assoc]

end ReplacesInPlace

/-- Bodies that stand one behind the other are replaced in their places. -/
theorem replacesInPlace (children : List Entity)
    (hstands : ∀ c ∈ children, c.hasVisibleBody → c.StandsIn e)
    (hapart : children.Pairwise fun c d => c.hasVisibleBody → d.hasVisibleBody →
      c.bodyStart + Text.size c.body ≤ d.bodyStart)
    {passed rest : List Char} (hsource : e.source.toList = passed ++ rest)
    (hpassed : ∀ c ∈ children, c.hasVisibleBody →
      e.span.startByte + Text.byteLength passed ≤ c.bodyStart) :
    e.ReplacesInPlace children passed rest := by
  induction children generalizing passed rest with
  | nil => exact .nil e passed rest
  | cons child others ih =>
      rw [List.forall_mem_cons] at hstands hpassed
      rw [List.pairwise_cons] at hapart
      cases hbody : child.visibleBody? with
      | none => exact (ih hstands.2 hapart.2 hsource hpassed.2).blank hbody
      | some target =>
          have hvisible : child.hasVisibleBody = true := by simp [hasVisibleBody, hbody]
          obtain ⟨skipped, after, rfl, hstart, hend, hlocate⟩ :=
            (hstands.1 hvisible).exists_located hbody hsource (hpassed.1 hvisible)
          -- the body is passed, and the others stand behind it
          have hothers : e.ReplacesInPlace others (passed ++ skipped ++ target.toList) after := by
            refine ih hstands.2 hapart.2 (by rw [hsource]; simp only [List.append_assoc]) ?_
            intro c hc hcvisible
            have hbehind := hapart.1 c hc hvisible hcvisible
            rw [Text.byteLength_append, ← Text.size]
            omega
          cases hkeep : e.keepsBodyOf child with
          | true => exact hothers.keep hbody hkeep hlocate
          | false => exact hothers.replace hbody hkeep hstart hlocate

/-! ## Texts of an entity -/

/-- The bodies of definitions stand in a file where they say, between two bytes of it and, by the
starts of the definitions, one behind the other.  Nothing is asked of blank bodies. -/
structure BodiesStand (content : String) (first stop : Nat) (children : List Entity) : Prop where
  slice : ∀ c ∈ children, c.hasVisibleBody →
    Text.sliceBytes? c.bodyStart (c.bodyStart + Text.size c.body) content.toList =
      some c.body.toList
  within : ∀ c ∈ children, c.hasVisibleBody →
    first ≤ c.bodyStart ∧ c.bodyStart + Text.size c.body ≤ stop
  apart : (inSourceOrder children).Pairwise fun c d => c.hasVisibleBody → d.hasVisibleBody →
    c.bodyStart + Text.size c.body ≤ d.bodyStart

theorem BodiesStand.standsIn {content : String} {stop : Nat} {own tail : List Char}
    (h : BodiesStand content e.span.startByte stop children)
    (hown : Text.sliceBytes? e.span.startByte stop content.toList = some own)
    (hsource : e.source.toList = own ++ tail) {c : Entity} (hc : c ∈ children)
    (hvisible : c.hasVisibleBody) : c.StandsIn e := by
  obtain ⟨hfirst, hstop⟩ := h.within c hc hvisible
  obtain ⟨before, after, rfl, hbefore⟩ :=
    Text.exists_of_sliceBytes?_within hown (h.slice c hc hvisible) hfirst hstop
  refine ⟨before, after ++ tail, ?_, by omega⟩
  rw [hsource]
  simp only [List.append_assoc]

/-- In a text of an entity the bodies that stand in the file as they say are replaced at the very
places where they stand, all but blank ones, those of assignments and that of the constructor of a
class.  The text may be the source of the entity with anything in front, without a piece before the
first body, and the source may go on behind the entity. -/
theorem redact_cutAtBodies (e : Entity) (children : List Entity) {content text : String}
    {stop : Nat} {own tail front left cut right : List Char}
    (hown : Text.sliceBytes? e.span.startByte stop content.toList = some own)
    (hsource : e.source.toList = own ++ tail)
    (hbodies : BodiesStand content e.span.startByte stop children)
    (hcut : e.source.toList = left ++ cut ++ right)
    (hfirst : ∀ c ∈ children, c.hasVisibleBody →
      e.span.startByte + Text.byteLength (left ++ cut) ≤ c.bodyStart)
    (htext : text.toList = front ++ left ++ right) :
    ∃ (patches : List Patch) (last : List Char),
      e.CutAtBodies (inSourceOrder children)
        (Text.byteLength front - Text.byteLength cut - e.span.startByte) text.toList patches last ∧
      (∀ placeholder, (e.redact placeholder text children).toList =
        patches.flatMap (Patch.replaced placeholder) ++ last) ∧
      (text = e.code → children ≠ [] → e.codeWithoutBody children =
        Text.trim (String.ofList
          (patches.flatMap (Patch.replaced fun owner _ => e.bodyPlaceholder owner) ++ last))) ∧
      (text = e.source → (e.analysisText children).toList =
        patches.flatMap (Patch.replaced e.rowPlaceholder) ++ last) := by
  have hmem : ∀ c ∈ inSourceOrder children, c ∈ children := fun c hc =>
    (inSourceOrder_perm children).mem_iff.mp hc
  obtain ⟨patches, last, hbodiesCut, hresult⟩ :=
    replacesInPlace (inSourceOrder children)
      (fun c hc hvisible => hbodies.standsIn hown hsource (hmem c hc) hvisible) hbodies.apart hcut
      (fun c hc => hfirst c (hmem c hc)) [] (front ++ left)
  have hredact : ∀ placeholder, (e.redact placeholder text children).toList =
      patches.flatMap (Patch.replaced placeholder) ++ last := by
    intro placeholder
    rw [redact, String.toList_ofList, htext]
    exact hresult placeholder []
  refine ⟨patches, last, ?_, hredact, ?_, ?_⟩
  · convert hbodiesCut using 1
    · simp only [Text.byteLength_append, List.nil_append]
      omega
    · rw [htext, List.nil_append]
  · rintro rfl hchildren
    rw [← hredact, String.ofList_toList]
    cases children with
    | nil => exact absurd rfl hchildren
    | cons child others => rfl
  · rintro rfl
    rw [← hredact]
    cases children with
    | nil => rw [redact, inSourceOrder, List.mergeSort_nil, String.toList_ofList]; rfl
    | cons child others => rfl

/-- The rows of a constructor and of two methods that end alike. -/
def alikeRows : String := "  def __init__(): p\n  def f(): p\n  def g(): 'e' p"

/-- The class of these methods, with a row in front of its code in place of its documentation and a
row behind it. -/
def alikeClass : Entity :=
  { ofCode "/a.py::A" .cls .python ("import p\n" ++ "class A:\n" ++ (alikeRows ++ "\nx = p")) with
    name := "A"
    span := ⟨2, 66, ⟨1, 0⟩, ⟨5, 16⟩⟩
    source := "class A:\n" ++ "  'd'\n" ++ (alikeRows ++ "\nx = p") }

/-- A method of the class. -/
def alikeMethod (name documentation body : String) (start bodyStart : Nat) : Entity :=
  { ofCode ("/a.py::A." ++ name) .method .python "" with
    name := "A." ++ name
    documentation := documentation
    body := body
    bodyStart := bodyStart
    span := ⟨start, bodyStart + Text.size body, default, default⟩ }

/-- The bodies of the two methods are replaced one byte behind their places in the file; the
constructor and the rows around the class stay. -/
theorem redact_cutAtBodies_alike :
    let content := "p\nclass A:\n  'd'\n" ++ alikeRows
    let init := alikeMethod "__init__" "" "p" 19 35
    let f := alikeMethod "f" "" "p" 39 48
    let g := alikeMethod "g" "'e'" "'e' p" 52 61
    BodiesStand content 2 66 [g, f, init] ∧
      ∃ (patches : List Patch) (last : List Char), patches.map (·.child) = [f, g] ∧
        Patch.Shifted 1 patches ∧
        alikeClass.code.toList = patches.flatMap Patch.original ++ last ∧
        ∀ placeholder, (alikeClass.redact placeholder alikeClass.code [g, f, init]).toList =
          patches.flatMap (Patch.replaced placeholder) ++ last := by
  intro content init f g
  have horder : inSourceOrder [g, f, init] = [init, f, g] := by
    rw [inSourceOrder, Sorting.mergeSort_key]
    decide +kernel
  have hbodies : BodiesStand content 2 66 [g, f, init] := by
    refine ⟨by decide +kernel, by decide +kernel, ?_⟩
    rw [horder]
    decide +kernel
  have hown : Text.sliceBytes? 2 66 content.toList =
      some ("class A:\n  'd'\n" ++ alikeRows).toList := by decide +kernel
  have hsource : alikeClass.source.toList =
      ("class A:\n  'd'\n" ++ alikeRows).toList ++ "\nx = p".toList := by decide +kernel
  have hcut : alikeClass.source.toList = "class A:\n".toList ++ "  'd'\n".toList ++
      (alikeRows ++ "\nx = p").toList := by decide +kernel
  have htext : alikeClass.code.toList = "import p\n".toList ++ "class A:\n".toList ++
      (alikeRows ++ "\nx = p").toList := by decide +kernel
  obtain ⟨patches, last, hpatches, hresult, -, -⟩ :=
    redact_cutAtBodies alikeClass [g, f, init] hown hsource hbodies hcut (by decide +kernel) htext
  rw [horder] at hpatches
  have hchildren : patches.map (·.child) = [f, g] :=
    hpatches.children_eq.trans (by decide +kernel)
  exact ⟨hbodies, patches, last, hchildren, hpatches.shifted, hpatches.text_eq, hresult⟩

end Entity
end CodeAtlas
