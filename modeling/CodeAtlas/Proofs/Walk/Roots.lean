import CodeAtlas.Disk
import CodeAtlas.Proofs.Relocation.Paths

/-!
# Spellings of a folder

A folder can be written in many ways: with `..`, with segments that name nothing, with a slash at its
end.  On a disk all ways with the same normal form that lead to a folder at all lead to the same one,
since a trail is known by the names of its folders.  Made absolute, each of them is a *lead*, which
can stand in front of the paths of files, and perhaps a slash.  Without `..`, and without two slashes
at its start, the lead is known by the normal form.
-/

namespace CodeAtlas

/-! ## Trails -/

namespace Trail

variable {t u : Trail} {s : String}

theorem walk?_append (t : Trail) (before after : List String) :
    t.walk? (before ++ after) = (t.walk? before).bind (·.walk? after) := by
  induction before generalizing t with
  | nil => rfl
  | cons s before ih =>
      rw [List.cons_append, walk?, walk?, Option.bind_assoc]
      exact congrArg (t.step? s).bind (funext fun u => ih u)

theorem walk?_singleton (t : Trail) (s : String) : t.walk? [s] = t.step? s := by
  rw [walk?]
  exact Option.bind_fun_some (t.step? s)

theorem step?_of_ne (hs : s ≠ "..") (h : t.step? s = some u) :
    ∃ es, u = { t with entered := ⟨s, es⟩ :: t.entered } := by
  rw [step?, if_neg (by simpa using hs)] at h
  obtain ⟨es, -, rfl⟩ := Option.map_eq_some_iff.mp h
  exact ⟨es, rfl⟩

theorem names_up (t : Trail) : names { t with entered := t.entered.drop 1 } = t.names.dropLast := by
  rw [names, names, List.dropLast_reverse, List.drop_one, List.map_tail]

/-- The names of a trail change as the segments of a normal form do. -/
theorem names_step? (hs : Path.names s.toList = true) (h : t.step? s = some u) :
    u.names.map String.toList = Path.pushSegment (t.names.map String.toList) s.toList := by
  rw [Path.pushSegment, if_neg (by simp [hs])]
  by_cases hup : s = ".."
  · subst hup
    obtain rfl := Option.some.inj h
    rw [if_pos (by decide), names_up, List.map_dropLast]
  · obtain ⟨es, rfl⟩ := step?_of_ne hup h
    have hchars : s.toList ≠ ['.', '.'] := fun hdots =>
      hup (String.toList_injective (hdots.trans rfl))
    rw [if_neg (by simpa using hchars), names, names, List.map_cons, List.reverse_cons,
      List.map_append]
    rfl

theorem names_walk? {segments : List String} (hsegments : ∀ s ∈ segments, Path.names s.toList = true)
    (h : t.walk? segments = some u) :
    u.names.map String.toList =
      (segments.map String.toList).foldl Path.pushSegment (t.names.map String.toList) := by
  induction segments generalizing t with
  | nil =>
      obtain rfl := Option.some.inj h
      rfl
  | cons s segments ih =>
      rw [List.forall_mem_cons] at hsegments
      obtain ⟨v, hv, hu⟩ := Option.bind_eq_some_iff.mp h
      rw [ih hsegments.2 hu, names_step? hsegments.1 hv]
      rfl

/-- The trail is the one that leads along the names of its folders. -/
structure IsReached (d : Disk) (t : Trail) : Prop where
  stays : ∀ f ∈ t.entered, f.name ≠ ".."
  walk? : d.start.walk? t.names = some t

theorem IsReached.start (d : Disk) : IsReached d d.start := ⟨by simp [Disk.start], rfl⟩

theorem IsReached.step? {d : Disk} (h : IsReached d t) (hu : t.step? s = some u) :
    IsReached d u := by
  by_cases hup : s = ".."
  · subst hup
    obtain rfl := Option.some.inj hu
    refine ⟨fun f hf => h.stays f (List.mem_of_mem_drop hf), ?_⟩
    obtain ⟨entered, top⟩ := t
    cases entered with
    | nil => exact h.walk?
    | cons f entered =>
        -- the folder that is left was the last one to be entered
        have hnames : names ⟨f :: entered, top⟩ = names ⟨entered, top⟩ ++ [f.name] := by
          rw [names, List.map_cons, List.reverse_cons]
          rfl
        have hwalk := h.walk?
        rw [hnames, walk?_append] at hwalk
        obtain ⟨v, hv, hlast⟩ := Option.bind_eq_some_iff.mp hwalk
        rw [walk?_singleton] at hlast
        obtain ⟨es, hes⟩ := step?_of_ne (h.stays f List.mem_cons_self) hlast
        have hentered : entered = v.entered := List.tail_eq_of_cons_eq (congrArg Trail.entered hes)
        have htop : top = v.top := congrArg Trail.top hes
        rw [List.drop_one, List.tail_cons, hentered, htop]
        rw [hentered, htop] at hv
        exact hv
  · obtain ⟨es, rfl⟩ := step?_of_ne hup hu
    refine ⟨List.forall_mem_cons.mpr ⟨hup, h.stays⟩, ?_⟩
    have hnames : names { t with entered := ⟨s, es⟩ :: t.entered } = t.names ++ [s] := by
      rw [names, List.map_cons, List.reverse_cons]
      rfl
    rw [hnames, walk?_append, h.walk?, Option.bind_some, walk?_singleton, hu]

theorem IsReached.of_walk? {d : Disk} (h : IsReached d t) {segments : List String}
    (hu : t.walk? segments = some u) : IsReached d u := by
  induction segments generalizing t with
  | nil =>
      obtain rfl := Option.some.inj hu
      exact h
  | cons s segments ih =>
      obtain ⟨v, hv, hu⟩ := Option.bind_eq_some_iff.mp hu
      exact ih (h.step? hv) hu

end Trail

namespace Disk

variable {d : Disk} {p q : String} {t u : Trail}

theorem locate?_eq_folder_iff :
    d.locate? p = some (.folder t) ↔ d.start.walk? (segments p) = some t := by
  rw [locate?]
  split
  next v hv => simp [hv]
  next hnone =>
    rw [hnone]
    refine ⟨fun h => ?_, fun h => absurd h (by simp)⟩
    split at h
    next => exact absurd h (by simp)
    next =>
      split at h
      next => exact absurd h (by simp)
      next =>
        obtain ⟨v, -, h⟩ := Option.bind_eq_some_iff.mp h
        obtain ⟨content, -, h⟩ := Option.bind_eq_some_iff.mp h
        exact absurd h (by simp)

theorem map_toList_segments (p : String) :
    (segments p).map String.toList = (Path.rawSegments p).filter Path.names := by
  rw [segments, Text.map_toList_ofList]

theorem normalSegments_eq (p : String) :
    Path.normalSegments p = ((segments p).map String.toList).foldl Path.pushSegment [] := by
  rw [map_toList_segments, Path.normalSegments, List.foldl_filter]
  congr 1
  funext sofar s
  split
  next => rfl
  next hs => rw [Path.pushSegment, if_pos (by simpa using hs)]

/-- Paths with the same normal form do not lead to different folders. -/
theorem trail_eq_of_normalSegments (hp : d.locate? p = some (.folder t))
    (hq : d.locate? q = some (.folder u)) (h : Path.normalSegments p = Path.normalSegments q) :
    t = u := by
  have hnames : ∀ {p t}, d.start.walk? (segments p) = some t →
      t.names.map String.toList = Path.normalSegments p := by
    intro p t hwalk
    rw [normalSegments_eq]
    refine Trail.names_walk? (fun s hs => ?_) hwalk
    have hmem := List.mem_map_of_mem (f := String.toList) hs
    rw [map_toList_segments] at hmem
    exact (List.mem_filter.mp hmem).2
  rw [locate?_eq_folder_iff] at hp hq
  have htrails : t.names = u.names :=
    List.map_injective_iff.mpr (fun _ _ => String.toList_injective)
      ((hnames hp).trans (h.trans (hnames hq).symm))
  have ht := ((Trail.IsReached.start d).of_walk? hp).walk?
  have hu := ((Trail.IsReached.start d).of_walk? hq).walk?
  rw [htrails, hu] at ht
  exact (Option.some.inj ht).symm

end Disk

/-! ## Leads -/

namespace Path

variable {root here p q : String} {segments : List (List Char)} {s : List Char}

/-- The path of a folder without a slash at its end. -/
def lead (root : String) : String := (Text.dropEnding? "/" root).getD root

theorem endsWith_slash_iff : Text.endsWith p "/" = true ↔ p.toList.getLast? = some '/' := by
  rw [Text.endsWith, List.isSuffixOf_iff_suffix, List.getLast?_eq_some_iff]
  exact exists_congr fun front => eq_comm

theorem endsWith_append_slash (p : String) : Text.endsWith (p ++ "/") "/" = true := by
  simp [Text.endsWith]

theorem lead_append_slash (p : String) : lead (p ++ "/") = p := by
  rw [lead, Text.dropEnding?, if_pos (endsWith_append_slash p), Option.getD_some]
  apply String.toList_injective
  simp [← String.length_toList]

theorem lead_of_not_endsWith (h : Text.endsWith root "/" = false) : lead root = root := by
  rw [lead, Text.dropEnding?, h, if_neg (by simp), Option.getD_none]

/-- A path is its lead, perhaps with a slash. -/
theorem eq_lead_or (root : String) : root = lead root ++ "/" ∨
    (root = lead root ∧ Text.endsWith root "/" = false) := by
  cases hends : Text.endsWith root "/" with
  | false => exact .inr ⟨(lead_of_not_endsWith hends).symm, rfl⟩
  | true =>
      obtain ⟨front, hfront⟩ := List.getLast?_eq_some_iff.mp (endsWith_slash_iff.mp hends)
      have hroot : root = String.ofList front ++ "/" := by
        apply String.toList_injective
        rw [hfront]
        simp
      rw [hroot, lead_append_slash]
      exact .inl rfl

/-- Paths behind a folder do not depend on the slash at its end. -/
theorem append_eq_lead (hroot : root ≠ "") (hp : isRooted p = false) :
    append root p = lead root ++ "/" ++ p := by
  rw [append, hp, if_neg (by simp)]
  rcases eq_lead_or root with hslash | ⟨hsame, hends⟩
  · rw [hslash, endsWith_append_slash, if_pos (by simp), lead_append_slash]
  · rw [hends, if_neg (by simpa using hroot), ← hsame]

theorem append_congr {root' : String} (hroot : root ≠ "") (hroot' : root' ≠ "")
    (hlead : lead root = lead root') (p : String) : append root p = append root' p := by
  cases hp : isRooted p with
  | true => rw [append, append, hp, if_pos rfl, if_pos rfl]
  | false => rw [append_eq_lead hroot hp, append_eq_lead hroot' hp, hlead]

/-- The lead with given segments. -/
def leadOf (segments : List (List Char)) : String :=
  segments.foldl (fun front s => front ++ "/" ++ String.ofList s) ""

theorem leadOf_concat (segments : List (List Char)) (s : List Char) :
    leadOf (segments ++ [s]) = leadOf segments ++ "/" ++ String.ofList s := by
  rw [leadOf, List.foldl_append]
  rfl

theorem rawSegments_leadOf (h : ∀ s ∈ segments, '/' ∉ s) :
    rawSegments (leadOf segments) = [] :: segments := by
  induction segments using List.reverseRecOn with
  | nil => rfl
  | append_singleton segments s ih =>
      rw [List.forall_mem_append, List.forall_mem_singleton] at h
      rw [leadOf_concat, rawSegments_append_segment _ (by simpa using h.2), ih h.1,
        String.toList_ofList, List.cons_append]

theorem leadOf_eq_render (hne : segments ≠ []) : leadOf segments = render true segments := by
  induction segments using List.reverseRecOn with
  | nil => exact absurd rfl hne
  | append_singleton segments s ih =>
      rw [leadOf_concat]
      by_cases hnil : segments = []
      · subst hnil
        apply String.toList_injective
        simp [leadOf, render, Text.joinChars]
      · rw [ih hnil]
        apply String.toList_injective
        simp [render, Text.joinChars_append ['/'] hnil (List.cons_ne_nil s []), Text.joinChars]

theorem isRooted_leadOf (hne : segments ≠ []) : isRooted (leadOf segments) = true := by
  rw [leadOf_eq_render hne, isRooted_render]

theorem normalSegments_eq_of_normalize_eq (hp : isRooted p = true) (hq : isRooted q = true)
    (h : normalize p = normalize q) : normalSegments p = normalSegments q := by
  have hnormal : ∀ {p}, isRooted p = true → normalSegments (normalize p) = normalSegments p := by
    intro p hp
    rw [normalize, hp, normalSegments_render (isSegment_of_mem_normalSegments p)]
  rw [← hnormal hp, h, hnormal hq]

/-- A slash at the end of a path names nothing. -/
theorem filter_rawSegments_lead (root : String) :
    (rawSegments (lead root)).filter names = (rawSegments root).filter names := by
  rcases eq_lead_or root with hslash | ⟨hsame, -⟩
  · conv_rhs => rw [hslash, ← String.append_empty (s := lead root ++ "/"), rawSegments_append_slash]
    rw [List.filter_append]
    exact (List.append_nil _).symm
  · rw [← hsame]

/-! ## Absolute paths -/

/-- The segment names something or goes up. -/
def IsStep (s : List Char) : Prop := names s = true ∧ '/' ∉ s

theorem IsStep.ne_nil (h : IsStep s) : s ≠ [] := by
  rintro rfl
  exact absurd h.1 (by decide)

theorem IsStep.isRooted_eq (h : IsStep s) : isRooted (String.ofList s) = false := by
  cases s with
  | nil => rfl
  | cons c cs =>
      have hc : c ≠ '/' := fun hc => h.2 (hc ▸ List.mem_cons_self)
      simp [isRooted, hc]

theorem IsStep.endsWith_append (h : IsStep s) (front : String) :
    Text.endsWith (front ++ String.ofList s) "/" = false := by
  rw [Bool.eq_false_iff]
  intro hends
  rw [endsWith_slash_iff, String.toList_append, String.toList_ofList,
    List.getLast?_append_of_ne_nil _ h.ne_nil] at hends
  exact h.2 (List.mem_of_getLast? hends)

/-- Segments that are put behind a path one by one are put behind its lead. -/
theorem lead_foldl_append {before : List (List Char)} (hroot : root ≠ "")
    (hlead : lead root = leadOf before) (h : ∀ s ∈ segments, IsStep s) :
    segments.foldl (fun q s => append q (String.ofList s)) root ≠ "" ∧
      lead (segments.foldl (fun q s => append q (String.ofList s)) root) =
        leadOf (before ++ segments) ∧
      root.toList <+: (segments.foldl (fun q s => append q (String.ofList s)) root).toList := by
  induction segments generalizing root before with
  | nil => exact ⟨hroot, by rw [List.append_nil]; exact hlead, List.prefix_rfl⟩
  | cons s segments ih =>
      rw [List.forall_mem_cons] at h
      have happend := append_eq_lead hroot h.1.isRooted_eq
      have hnext : lead (append root (String.ofList s)) = leadOf (before ++ [s]) := by
        rw [happend, lead_of_not_endsWith (h.1.endsWith_append _), hlead, leadOf_concat]
      have hprefix : root.toList <+: (append root (String.ofList s)).toList := by
        rw [append, h.1.isRooted_eq, if_neg (by simp)]
        split <;> simp
      obtain ⟨hne, hrest, hlonger⟩ := ih (by rw [happend]; simp) hnext h.2
      rw [List.append_assoc] at hrest
      exact ⟨hne, hrest, hprefix.trans hlonger⟩

/-- The lead of a path: the steps to a folder, perhaps behind two slashes. -/
structure HasLead (root : String) (opening segments : List (List Char)) : Prop where
  ne_empty : root ≠ ""
  opens : opening = [] ∨ opening = [[]] ∧ "//".toList <+: root.toList
  isStep : ∀ s ∈ segments, IsStep s
  lead_eq : lead root = leadOf (opening ++ segments)

theorem IsNormal.exists_hasLead (h : IsNormal here) : ∃ segments, HasLead here [] segments := by
  obtain ⟨segments, hsegments, rfl⟩ := isNormal_iff_exists_segments.mp h
  refine ⟨segments, render_ne_empty segments, .inl rfl,
    fun s hs => ⟨(hsegments s hs).named, (hsegments s hs).slashless⟩, ?_⟩
  by_cases hne : segments = []
  · subst hne
    decide
  · rw [lead_of_not_endsWith (endsWith_render hne hsegments), List.nil_append, leadOf_eq_render hne]

theorem exists_hasLead_absolute (h : IsNormal here) (p : String) :
    ∃ opening segments, HasLead (absolute here p) opening segments := by
  have hsteps : ∀ s ∈ (rawSegments p).filter names, IsStep s := fun s hs =>
    ⟨(List.mem_filter.mp hs).2,
      Text.separator_not_mem_of_mem_splitChars (List.mem_filter.mp hs).1⟩
  have hbehind : ∀ {start opening segments}, HasLead start opening segments →
      HasLead (((rawSegments p).filter names).foldl (fun q s => append q (String.ofList s)) start)
        opening (segments ++ (rawSegments p).filter names) := by
    intro start opening segments hstart
    obtain ⟨hne, hlead, hprefix⟩ := lead_foldl_append hstart.ne_empty hstart.lead_eq hsteps
    refine ⟨hne, ?_, List.forall_mem_append.mpr ⟨hstart.isStep, hsteps⟩, ?_⟩
    · exact hstart.opens.imp_right fun hopens => ⟨hopens.1, hopens.2.trans hprefix⟩
    · rw [hlead, List.append_assoc]
  have hslash : ∀ {root opening segments}, HasLead root opening segments →
      Text.endsWith root "/" = false → HasLead (root ++ "/") opening segments := by
    intro root opening segments hroot hends
    refine ⟨by simp, ?_, hroot.isStep, ?_⟩
    · refine hroot.opens.imp_right fun hopens => ⟨hopens.1, hopens.2.trans ?_⟩
      rw [String.toList_append]
      exact List.prefix_append _ _
    · rw [lead_append_slash, ← hroot.lead_eq, lead_of_not_endsWith hends]
  obtain ⟨start, opening, segments, hstart, habsolute⟩ : ∃ start opening segments,
      HasLead start opening segments ∧ absolute here p =
        (let path :=
          ((rawSegments p).filter names).foldl (fun q s => append q (String.ofList s)) start
        if Text.endsWith p "/" && !Text.endsWith path "/" then path ++ "/" else path) := by
    have htop : HasLead "/" [] [] := ⟨by simp, .inl rfl, by simp, by decide⟩
    have hdouble : HasLead "//" [[]] [] :=
      ⟨by simp, .inr ⟨rfl, List.prefix_rfl⟩, by simp, by decide⟩
    obtain ⟨segments, hsegments⟩ := h.exists_hasLead
    rw [absolute]
    split
    next => exact ⟨_, _, _, htop, rfl⟩
    next =>
      split
      next => exact ⟨_, _, _, hdouble, rfl⟩
      next =>
        split
        next => exact ⟨_, _, _, htop, rfl⟩
        next => exact ⟨_, _, _, hsegments, rfl⟩
  rw [habsolute]
  refine ⟨opening, segments ++ (rawSegments p).filter names, ?_⟩
  dsimp only
  split
  next hends => exact hslash (hbehind hstart) (by simpa using (Bool.and_eq_true_iff.mp hends).2)
  next => exact hbehind hstart

namespace HasLead

variable {opening : List (List Char)} (h : HasLead root opening segments)

include h

theorem slashless : ∀ s ∈ opening ++ segments, '/' ∉ s := by
  refine List.forall_mem_append.mpr ⟨?_, fun s hs => (h.isStep s hs).2⟩
  rcases h.opens with rfl | ⟨rfl, -⟩ <;> simp

theorem rawSegments_lead : rawSegments (lead root) = [] :: (opening ++ segments) := by
  rw [h.lead_eq, rawSegments_leadOf h.slashless]

theorem isRooted_eq : isRooted root = true := by
  rcases eq_lead_or root with hslash | ⟨hsame, -⟩
  · rw [hslash, isRooted_append, h.lead_eq]
    split
    next => rfl
    next hne => exact isRooted_leadOf fun hnil => hne (by rw [hnil]; rfl)
  · rw [hsame, h.lead_eq]
    refine isRooted_leadOf fun hnil => h.ne_empty ?_
    rw [hsame, h.lead_eq, hnil]
    rfl

/-- The lead of a path can stand in front of the files below it. -/
theorem isFront (hfree : colonFree root) : IsFront (lead root) := by
  have hprefix : (lead root).toList <+: root.toList := by
    rcases eq_lead_or root with hslash | ⟨hsame, -⟩
    · conv_rhs => rw [hslash, String.toList_append]
      exact List.prefix_append _ _
    · rw [← hsame]
  refine ⟨?_, ?_, fun hcolons => hfree (hcolons.trans hprefix.isInfix)⟩
  · rw [h.lead_eq]
    by_cases hnil : opening ++ segments = []
    · exact .inl (by rw [hnil]; rfl)
    · exact .inr (isRooted_leadOf hnil)
  · rw [steps, h.rawSegments_lead, List.drop_one, List.tail_cons, h.lead_eq]
    rcases List.eq_nil_or_concat segments with hnil | ⟨before, last, hlast⟩
    · rw [hnil, List.append_nil]
      rcases h.opens with rfl | ⟨rfl, -⟩ <;> decide
    · have hnamed := (h.isStep last (by simp [hlast])).1
      have hne : leadOf (opening ++ (before ++ [last])) ≠ "" := by
        rw [← List.append_assoc, leadOf_concat]
        simp
      rw [hlast, List.concat_eq_append, folderUnder, if_pos ⟨rfl, hne⟩, ← List.append_assoc,
        trimSegments_of_names true hnamed, leadOf_eq_render (by simp)]

/-- A lead with neither `..` nor two slashes at its start is known by the normal form. -/
theorem lead_eq_of_plain (hup : ['.', '.'] ∉ rawSegments root)
    (hslashes : Text.startsWith root "//" = false) : lead root = leadOf (normalSegments root) := by
  have hopening : opening = [] := by
    rcases h.opens with hnil | ⟨-, hprefix⟩
    · exact hnil
    · rw [Text.startsWith, List.isPrefixOf_iff_prefix.mpr hprefix] at hslashes
      exact absurd hslashes (by simp)
  have hsegments : ∀ s ∈ segments, IsSegment s := by
    intro s hs
    refine ⟨(h.isStep s hs).1, ?_, (h.isStep s hs).2⟩
    rintro rfl
    have hmem : ['.', '.'] ∈ (rawSegments (lead root)).filter names := by
      rw [h.rawSegments_lead]
      exact List.mem_filter.mpr ⟨by simp [hs], rfl⟩
    rw [filter_rawSegments_lead] at hmem
    exact hup (List.mem_filter.mp hmem).1
  have hnormal : normalSegments root = segments := by
    rw [Disk.normalSegments_eq, Disk.map_toList_segments, ← filter_rawSegments_lead,
      h.rawSegments_lead, hopening, List.nil_append, List.filter_cons_of_neg (by decide),
      List.filter_eq_self.mpr fun s hs => (hsegments s hs).named, foldl_pushSegment hsegments,
      List.nil_append]
  rw [h.lead_eq, hopening, hnormal, List.nil_append]

end HasLead

end Path
end CodeAtlas
