import CodeAtlas.Proofs.Relocation.Paths

/-!
# The algebra of lexical paths

A path is a root or none, and the segments behind it.  Normalising keeps the root and goes through
the segments once: what names nothing is dropped, and `..` takes back the segment before it, if
there is one.  The paths that it leaves alone are those whose segments all name something and none
goes up.

Going through the segments of one path and then through those of another is going through both at
once.  So it does not matter whether a path is joined in one step or in two, even where the second
step takes back more than the first one has added.
-/

namespace CodeAtlas
namespace Path

variable {p base s t : String} {segments : List (List Char)}

/-! ## Roots and segments -/

/-- The segments of a path behind its root; the root alone and the empty path have none. -/
def parts (p : String) : List (List Char) :=
  if body p = [[]] then [] else body p

/-- A path is its root with its segments behind it. -/
theorem render_parts (p : String) : render (isRooted p) (parts p) = p := by
  conv_rhs => rw [← render_body p]
  rw [parts]
  split
  next hempty => rw [hempty]; rfl
  next => rfl

theorem isRooted_render_eq (rooted : Bool) (h : ∀ s ∈ segments, IsSegment s) :
    isRooted (render rooted segments) = rooted := by
  cases rooted with
  | true => exact isRooted_render segments
  | false =>
      cases segments with
      | nil => decide
      | cons s segments =>
          obtain ⟨c, cs, hs⟩ := List.exists_cons_of_ne_nil (h s List.mem_cons_self).ne_nil
          have hslash := (h s List.mem_cons_self).slashless
          obtain ⟨rest, hrest⟩ := Text.joinChars_prefix_append ['/'] [s] segments
          rw [hs, List.mem_cons, not_or] at hslash
          rw [Text.joinChars, hs, List.singleton_append] at hrest
          rw [isRooted, render, String.toList_ofList, if_neg (by simp), hs, ← hrest]
          simpa using Ne.symm hslash.1

theorem parts_render (rooted : Bool) (h : ∀ s ∈ segments, IsSegment s) :
    parts (render rooted segments) = segments := by
  by_cases hne : segments = []
  · subst hne
    cases rooted <;> decide
  · have hslash : ∀ s ∈ segments, '/' ∉ s := fun s hs => (h s hs).slashless
    have hbody : body (render rooted segments) = segments := by
      cases rooted with
      | true => exact body_render hne hslash
      | false =>
          rw [body, isRooted_render_eq false h, if_neg (by simp), rawSegments, render,
            String.toList_ofList, if_neg (by simp), Text.splitChars_joinChars hne hslash]
    rw [parts, hbody, if_neg]
    rintro rfl
    exact (h [] List.mem_cons_self).ne_nil rfl

theorem normalSegments_eq_foldl_parts (p : String) :
    normalSegments p = (parts p).foldl pushSegment [] := by
  have hbody : normalSegments p = (body p).foldl pushSegment [] := by
    cases hp : isRooted p with
    | true => rw [normalSegments, rawSegments_of_isRooted hp]; rfl
    | false => rw [normalSegments, body, hp]; rfl
  rw [hbody, parts]
  split
  next hempty => rw [hempty]; rfl
  next => rfl

theorem slashless_of_mem_parts {segment : List Char} (h : segment ∈ parts p) : '/' ∉ segment := by
  have hraw : segment ∈ rawSegments p := by
    rw [parts] at h
    split at h
    next => exact absurd h (by simp)
    next =>
      rw [body] at h
      split at h
      next => exact List.mem_of_mem_drop h
      next => exact h
  exact Text.separator_not_mem_of_mem_splitChars hraw

theorem exists_of_endsWith_slash (h : Text.endsWith p "/" = true) : ∃ front, p = front ++ "/" := by
  obtain ⟨front, hfront⟩ : ['/'] <:+ p.toList := by simpa [Text.endsWith] using h
  refine ⟨String.ofList front, String.toList_injective ?_⟩
  rw [String.toList_append, String.toList_ofList, ← hfront]
  rfl

theorem rawSegments_concat_slash (front : String) :
    rawSegments (front ++ "/") = rawSegments front ++ [[]] := by
  have hlast := rawSegments_append_slash front ""
  rwa [String.append_empty] at hlast

theorem body_ne_nil (p : String) : body p ≠ [] := by
  cases hp : isRooted p with
  | true =>
      obtain ⟨rest, rfl⟩ := exists_of_isRooted hp
      rw [body, if_pos hp, rawSegments_slash_append]
      exact Text.splitChars_ne_nil '/' _
  | false =>
      rw [body, hp]
      exact Text.splitChars_ne_nil '/' _

theorem body_concat_slash {front : String} (h : front ≠ "") :
    body (front ++ "/") = body front ++ [[]] := by
  rw [body, body, isRooted_append, if_neg h, rawSegments_concat_slash]
  split
  next hfront => rw [rawSegments_of_isRooted hfront]; rfl
  next => rfl

/-- A path that ends in a slash has an empty segment at its end, unless it is the root. -/
theorem nil_mem_parts (hends : Text.endsWith p "/" = true) (hroot : p ≠ "/") : [] ∈ parts p := by
  obtain ⟨front, rfl⟩ := exists_of_endsWith_slash hends
  have hfront : front ≠ "" := by
    rintro rfl
    exact hroot rfl
  rw [parts, body_concat_slash hfront, if_neg (by simpa using body_ne_nil front)]
  exact List.mem_append_right _ List.mem_cons_self

theorem isSegment_iff {segment : List Char} (h : segment ∈ parts p) :
    IsSegment segment ↔ segment ≠ [] ∧ segment ≠ ['.'] ∧ segment ≠ ['.', '.'] := by
  constructor
  · intro hsegment
    exact ⟨hsegment.ne_nil, by simpa [names, hsegment.ne_nil] using hsegment.named, hsegment.stays⟩
  · rintro ⟨hne, hdot, hup⟩
    exact ⟨by simp [names, hne, hdot], hup, slashless_of_mem_parts h⟩

/-! ## Normal forms -/

theorem isRooted_normalize (p : String) : isRooted (normalize p) = isRooted p :=
  isRooted_render_eq _ (isSegment_of_mem_normalSegments p)

theorem parts_normalize (p : String) : parts (normalize p) = normalSegments p :=
  parts_render _ (isSegment_of_mem_normalSegments p)

/-- The normal forms are the paths whose segments name something and do not go up. -/
theorem normalize_eq_self_iff : normalize p = p ↔ ∀ s ∈ parts p, IsSegment s := by
  constructor
  · intro h
    rw [← h, parts_normalize]
    exact isSegment_of_mem_normalSegments p
  · intro h
    rw [normalize, normalSegments_eq_foldl_parts, foldl_pushSegment h, List.nil_append,
      render_parts]

theorem normalize_normalize (p : String) : normalize (normalize p) = normalize p := by
  rw [normalize_eq_self_iff, parts_normalize]
  exact isSegment_of_mem_normalSegments p

theorem normalSegments_normalize (p : String) :
    normalSegments (normalize p) = normalSegments p := by
  rw [← parts_normalize, normalize_normalize, parts_normalize]

/-! ## Joining -/

theorem isRooted_append_slash (hs : s ≠ "") (t : String) :
    isRooted (s ++ "/" ++ t) = isRooted s := by
  rw [String.append_assoc, isRooted_append, if_neg hs]

theorem normalSegments_append_slash (s t : String) :
    normalSegments (s ++ "/" ++ t) = (rawSegments t).foldl pushSegment (normalSegments s) := by
  rw [normalSegments, rawSegments_append_slash, List.foldl_append]
  rfl

theorem append_of_isRooted (base : String) (hs : isRooted s = true) : append base s = s := by
  rw [append, if_pos hs]

/-- Behind a path, another one without a root starts at the root of the first, and its segments are
gone through after those of the first. -/
theorem append_of_not_isRooted (base : String) (hs : isRooted s = false) :
    isRooted (append base s) = isRooted base ∧
      normalSegments (append base s) = (rawSegments s).foldl pushSegment (normalSegments base) := by
  rw [append, hs, if_neg (by simp)]
  by_cases hbase : base = ""
  · subst hbase
    rw [if_pos (by decide), String.empty_append, hs]
    exact ⟨rfl, rfl⟩
  · by_cases hends : Text.endsWith base "/" = true
    · rw [if_pos (by simp [hends]), isRooted_append, if_neg hbase]
      obtain ⟨front, rfl⟩ := exists_of_endsWith_slash hends
      have hfront : normalSegments (front ++ "/") = normalSegments front := by
        rw [normalSegments, rawSegments_concat_slash, List.foldl_append]
        rfl
      rw [normalSegments_append_slash, hfront]
      exact ⟨rfl, rfl⟩
    · rw [if_neg (by simpa [hbase] using hends), isRooted_append_slash hbase,
        normalSegments_append_slash]
      exact ⟨rfl, rfl⟩

theorem join_normalize (p : String) (ht : isRooted t = false) :
    join (normalize p) t =
      render (isRooted p) ((rawSegments t).foldl pushSegment (normalSegments p)) := by
  obtain ⟨hrooted, hsegments⟩ := append_of_not_isRooted (normalize p) ht
  rw [join, normalize, hrooted, hsegments, isRooted_normalize, normalSegments_normalize]

/-- A path can be joined in one step or in two. -/
theorem join_join (base : String) (hs : s ≠ "") (ht : isRooted t = false) :
    join (join base s) t = join base (s ++ "/" ++ t) := by
  have hslash := isRooted_append_slash hs t
  have hsteps : join (join base s) t = _ := join_normalize (append base s) ht
  rw [hsteps, join, normalize]
  cases hrooted : isRooted s with
  | true =>
      rw [append_of_isRooted base hrooted, append_of_isRooted base (hslash.trans hrooted), hslash,
        normalSegments_append_slash]
  | false =>
      obtain ⟨hbase, hsegments⟩ := append_of_not_isRooted base hrooted
      obtain ⟨hbase', hsegments'⟩ := append_of_not_isRooted base (hslash.trans hrooted)
      rw [hbase, hsegments, hbase', hsegments', rawSegments_append_slash, List.foldl_append]

/-- Going up takes the last segment away. -/
theorem parts_join_up (p : String) : parts (join p "..") = (parts (normalize p)).dropLast := by
  rw [join, parts_normalize, parts_normalize, (append_of_not_isRooted p (by decide)).2]
  rfl

/-- Normalising keeps the root of a path and leaves segments that name something and do not go up,
with no slash at the end.  It changes nothing more when it is done again, and nothing at all on
exactly the paths of that form.  Going up takes the last segment away, where there is one, and a
path can be joined in one step or in two. -/
theorem normalize_algebra :
    (∀ p, normalize (normalize p) = normalize p ∧
      (∀ segment ∈ parts (normalize p), segment ≠ [] ∧ segment ≠ ['.'] ∧ segment ≠ ['.', '.']) ∧
      (normalize p ≠ "/" → Text.endsWith (normalize p) "/" = false) ∧
      isRooted (normalize p) = isRooted p ∧
      (normalize p = p ↔
        ∀ segment ∈ parts p, segment ≠ [] ∧ segment ≠ ['.'] ∧ segment ≠ ['.', '.']) ∧
      parts (join p "..") = (parts (normalize p)).dropLast) ∧
    ∀ base s t, s ≠ "" → isRooted t = false → join (join base s) t = join base (s ++ "/" ++ t) := by
  refine ⟨fun p => ?_, fun base s t => join_join base⟩
  have hparts : ∀ segment ∈ parts (normalize p), IsSegment segment := by
    rw [parts_normalize]
    exact isSegment_of_mem_normalSegments p
  refine ⟨normalize_normalize p, fun segment h => (isSegment_iff h).mp (hparts segment h), ?_,
    isRooted_normalize p, ?_, parts_join_up p⟩
  · intro hroot
    rw [Bool.eq_false_iff]
    intro hends
    exact (hparts [] (nil_mem_parts hends hroot)).ne_nil rfl
  · rw [normalize_eq_self_iff]
    exact forall₂_congr fun segment h => isSegment_iff h

/-- The second step goes up to the root, past what the first one has added. -/
theorem normalize_algebra_climbing :
    ("../b" ≠ "" ∧ isRooted "../../../c/." = false) ∧
      join (join "/a" "../b") "../../../c/." = join "/a" "../b/../../../c/." ∧
      join "/a" "../b/../../../c/." = "/c" :=
  ⟨⟨by decide, by decide⟩, normalize_algebra.2 "/a" "../b" "../../../c/." (by decide) (by decide),
    by decide +kernel⟩

end Path
end CodeAtlas
