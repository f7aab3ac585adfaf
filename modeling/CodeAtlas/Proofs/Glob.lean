import CodeAtlas.Glob.Reader
import CodeAtlas.Proofs.Text.Rows

/-!
# Plain file name patterns

A text without the signs of patterns stands for itself: it is read as its own characters, and they
match exactly those bytes that make them up.  Wildcards go through the bytes of a path one by one,
but no byte inside a character looks like the first byte of one, so in front of a plain text they
stop between two characters only.
-/

namespace CodeAtlas
namespace Glob

variable {style : Style} {k : List UInt8 → Bool} {s front tail rest : List UInt8}
  {cs xs ys name : List Char} {path : String}

/-! ## Bytes of characters -/

/-- The bytes of some characters. -/
def encode (cs : List Char) : List UInt8 := cs.flatMap String.utf8EncodeChar

theorem encode_append (xs ys : List Char) : encode (xs ++ ys) = encode xs ++ encode ys :=
  List.flatMap_append

theorem encode_eq_nil_iff : encode cs = [] ↔ cs = [] := by
  cases cs with
  | nil => exact ⟨fun _ => rfl, fun _ => rfl⟩
  | cons c cs => simp [encode, String.utf8EncodeChar_ne_nil]

/-- A beginning of the bytes of a text that is itself a text is a beginning of the text. -/
theorem exists_of_encode_append (h : encode ys = encode xs ++ rest) :
    ∃ zs, ys = xs ++ zs ∧ rest = encode zs := by
  have hbytes : xs.utf8Encode ++ rest.toByteArray = ys.utf8Encode := by
    rw [List.utf8Encode, List.utf8Encode, ← List.toByteArray_append]
    exact congrArg List.toByteArray h.symm
  obtain ⟨zs, rfl⟩ := List.isPrefix_of_utf8Encode_append_eq_utf8Encode _ hbytes
  rw [encode_append] at h
  exact ⟨zs, rfl, (List.append_cancel_left h).symm⟩

theorem encode_injective (h : encode xs = encode ys) : xs = ys := by
  obtain ⟨zs, rfl, hzs⟩ := exists_of_encode_append (h.trans (List.append_nil _).symm)
  rw [encode_eq_nil_iff.mp hzs.symm, List.append_nil]

/-- The bytes do not start inside a character. -/
def StartsCharacter (s : List UInt8) : Prop := ∀ b ∈ s.head?, b.IsUTF8FirstByte

theorem startsCharacter_encode_append (h : cs ≠ []) (rest : List UInt8) :
    StartsCharacter (encode cs ++ rest) := by
  obtain ⟨c, cs, rfl⟩ := List.exists_cons_of_ne_nil h
  intro b hb
  have hfirst := @UInt8.isUTF8FirstByte_getElem_zero_utf8EncodeChar c
  obtain ⟨d, ds, hchar⟩ := List.exists_cons_of_ne_nil (@String.utf8EncodeChar_ne_nil c)
  simp only [hchar, List.getElem_cons_zero] at hfirst
  rw [encode, List.flatMap_cons, hchar] at hb
  obtain rfl : d = b := by simpa using hb
  exact hfirst

/-- Bytes of a text that are cut where a character may start are cut between two characters. -/
theorem exists_of_encode_eq_append (h : encode cs = front ++ tail) (htail : StartsCharacter tail) :
    ∃ xs ys, cs = xs ++ ys ∧ front = encode xs ∧ tail = encode ys := by
  induction cs generalizing front with
  | nil =>
      obtain ⟨rfl, rfl⟩ := List.append_eq_nil_iff.mp h.symm
      exact ⟨[], [], rfl, rfl, rfl⟩
  | cons c cs ih =>
      by_cases hfront : front = []
      · subst hfront
        exact ⟨[], c :: cs, rfl, rfl, h.symm⟩
      · rw [encode, List.flatMap_cons] at h
        rcases List.append_eq_append_iff.mp h with ⟨more, rfl, hmore⟩ | ⟨inner, hchar, rfl⟩
        · obtain ⟨xs, ys, rfl, rfl, rfl⟩ := ih hmore
          exact ⟨c :: xs, ys, rfl, rfl, rfl⟩
        · cases inner with
          | nil =>
              rw [List.append_nil] at hchar
              exact ⟨[c], cs, rfl, by simp [encode, hchar], rfl⟩
          | cons b inner =>
              -- the cut is inside the character, where no first byte stands
              have hb : b.IsUTF8FirstByte := htail b rfl
              have hlength : front.length < (String.utf8EncodeChar c).length := by simp [hchar]
              have hat : (String.utf8EncodeChar c)[front.length] = b := by simp [hchar]
              rw [← hat, UInt8.isUTF8FirstByte_getElem_utf8EncodeChar] at hb
              exact absurd (List.length_eq_zero_iff.mp hb) hfront

theorem encode_suffix_iff : encode ys <:+ encode cs ↔ ys <:+ cs := by
  constructor
  · rintro ⟨front, h⟩
    by_cases hys : ys = []
    · rw [hys]
      exact List.nil_suffix
    · have hstart := startsCharacter_encode_append hys []
      rw [List.append_nil] at hstart
      obtain ⟨xs, zs, rfl, -, hzs⟩ := exists_of_encode_eq_append h.symm hstart
      rw [encode_injective hzs]
      exact List.suffix_append xs zs
  · rintro ⟨xs, rfl⟩
    exact ⟨encode xs, (encode_append xs ys).symm⟩

/-- The byte of a slash is a slash. -/
theorem exists_of_encode_eq_slash_cons (h : encode cs = slash :: rest) :
    ∃ zs, cs = '/' :: zs ∧ rest = encode zs :=
  exists_of_encode_append (show encode cs = encode ['/'] ++ rest from h)

theorem getLast?_encode_eq_slash_iff :
    (encode cs).getLast? = some slash ↔ cs.getLast? = some '/' := by
  rw [List.getLast?_eq_some_iff, List.getLast?_eq_some_iff]
  constructor
  · rintro ⟨front, h⟩
    have hslash : StartsCharacter [slash] := by
      rintro b hb
      cases hb
      exact Or.inl rfl
    obtain ⟨xs, ys, rfl, rfl, hys⟩ := exists_of_encode_eq_append h hslash
    obtain ⟨zs, rfl, hzs⟩ := exists_of_encode_eq_slash_cons hys.symm
    exact ⟨xs, by rw [encode_eq_nil_iff.mp hzs.symm]⟩
  · rintro ⟨xs, rfl⟩
    exact ⟨encode xs, encode_append xs ['/']⟩

/-! ## Matching -/

theorem stripBytes?_eq_some_iff {piece : List UInt8} :
    stripBytes? piece s = some rest ↔ s = piece ++ rest := by
  induction piece generalizing s with
  | nil => simp [stripBytes?]
  | cons a piece ih =>
      cases s with
      | nil => simp [stripBytes?]
      | cons b s =>
          rw [stripBytes?, List.cons_append, List.cons.injEq, ← ih]
          split
          · next h => simp [h]
          · next h => simp [Ne.symm h]

theorem mem_endings : tail ∈ endings s ↔ tail <:+ s := by
  induction s with
  | nil => simp [endings]
  | cons b s ih => rw [endings, List.mem_cons, ih, List.suffix_cons_iff]

theorem mem_behindSlashes : tail ∈ behindSlashes s ↔ ∃ front, s = front ++ slash :: tail := by
  induction s with
  | nil => simp [behindSlashes]
  | cons b s ih =>
      have hcons : (∃ front, b :: s = front ++ slash :: tail) ↔
          b = slash ∧ s = tail ∨ ∃ front, s = front ++ slash :: tail := by
        constructor
        · rintro ⟨front, h⟩
          cases front with
          | nil => exact Or.inl (List.cons.inj h)
          | cons a front => exact Or.inr ⟨front, (List.cons.inj h).2⟩
        · rintro (⟨rfl, rfl⟩ | ⟨front, rfl⟩)
          · exact ⟨[], rfl⟩
          · exact ⟨b :: front, rfl⟩
      rw [behindSlashes, hcons, ← ih]
      split
      · next hb => simp [hb, eq_comm]
      · next hb => simp [hb]

theorem tokensMatch_nil : tokensMatch style List.isEmpty [] s = true ↔ s = [] := by
  rw [tokensMatch, List.isEmpty_iff]

/-- Characters that stand for themselves match their own bytes. -/
theorem tokensMatch_literals (cs : List Char) (ts : List Token) :
    tokensMatch style k (cs.map .literal ++ ts) s = true ↔
      ∃ rest, s = encode cs ++ rest ∧ tokensMatch style k ts rest = true := by
  induction cs generalizing s with
  | nil => simp [encode]
  | cons c cs ih =>
      rw [List.map_cons, List.cons_append, tokensMatch, Token.accepts, Option.any_eq_true]
      simp only [stripBytes?_eq_some_iff, ih, encode, List.flatMap_cons, List.append_assoc]
      constructor
      · rintro ⟨_, rfl, rest, rfl, h⟩
        exact ⟨rest, rfl, h⟩
      · rintro ⟨rest, rfl, h⟩
        exact ⟨_, rfl, rest, rfl, h⟩

/-- Two stars in front of a pattern stand for folders, each with the slash behind it. -/
theorem tokensMatch_leading (ts : List Token) :
    tokensMatch style k (.leading :: ts) s = true ↔
      ∃ front rest, s = front ++ rest ∧ (front = [] ∨ front.getLast? = some slash) ∧
        tokensMatch style k ts rest = true := by
  rw [tokensMatch, Token.accepts, Bool.or_eq_true, List.any_eq_true]
  constructor
  · rintro (h | ⟨rest, hrest, h⟩)
    · exact ⟨[], s, rfl, Or.inl rfl, h⟩
    · obtain ⟨front, rfl⟩ := mem_behindSlashes.mp hrest
      exact ⟨front ++ [slash], rest, by simp, Or.inr (by simp), h⟩
  · rintro ⟨front, rest, rfl, rfl | hslash, h⟩
    · exact Or.inl h
    · obtain ⟨front, rfl⟩ := List.getLast?_eq_some_iff.mp hslash
      exact Or.inr ⟨rest, mem_behindSlashes.mpr ⟨front, by simp⟩, h⟩

/-- Where slashes are not special, a star stands for anything. -/
theorem tokensMatch_anyRun (hstyle : style.slashIsSpecial = false) (ts : List Token) :
    tokensMatch style k (.anyRun :: ts) s = true ↔
      ∃ front rest, s = front ++ rest ∧ tokensMatch style k ts rest = true := by
  rw [tokensMatch, Token.accepts, hstyle, List.any_eq_true]
  constructor
  · rintro ⟨rest, hrest, h⟩
    obtain ⟨front, rfl⟩ := mem_endings.mp hrest
    exact ⟨front, rest, rfl, h⟩
  · rintro ⟨front, rest, rfl, h⟩
    exact ⟨rest, mem_endings.mpr (List.suffix_append front rest), h⟩

/-- Two stars at the end of a pattern stand for everything behind a slash. -/
theorem tokensMatch_trailing :
    tokensMatch style List.isEmpty [.trailing] s = true ↔ ∃ rest, s = slash :: rest := by
  cases s with
  | nil => simp [tokensMatch, Token.accepts]
  | cons b s => simp [tokensMatch, Token.accepts, mem_endings]

/-- A plain text behind two stars starts a part of the path. -/
theorem tokensMatch_leading_literals (hname : name ≠ []) (ts : List Token) :
    tokensMatch style k (.leading :: (name.map .literal ++ ts)) (encode cs) = true ↔
      ∃ before after, cs = before ++ name ++ after ∧
        (before = [] ∨ before.getLast? = some '/') ∧
        tokensMatch style k ts (encode after) = true := by
  simp only [tokensMatch_leading, tokensMatch_literals]
  constructor
  · rintro ⟨front, _, hcs, hfront, rest, rfl, h⟩
    obtain ⟨before, tail, rfl, rfl, htail⟩ :=
      exists_of_encode_eq_append hcs (startsCharacter_encode_append hname rest)
    obtain ⟨after, rfl, rfl⟩ := exists_of_encode_append htail.symm
    rw [encode_eq_nil_iff, getLast?_encode_eq_slash_iff] at hfront
    exact ⟨before, after, (List.append_assoc _ _ _).symm, hfront, h⟩
  · rintro ⟨before, after, rfl, hbefore, h⟩
    rw [← encode_eq_nil_iff, ← getLast?_encode_eq_slash_iff] at hbefore
    exact ⟨encode before, _, by rw [List.append_assoc, encode_append], hbefore, encode after,
      encode_append name after, h⟩

/-! ## Reading -/

/-- The character has a meaning of its own in patterns. -/
def isSign (c : Char) : Bool :=
  c == '*' || c == '?' || c == '[' || c == ']' || c == '{' || c == '}' || c == '\\'

/-- The characters stand for themselves in patterns. -/
def IsPlain (cs : List Char) : Prop := ∀ c ∈ cs, isSign c = false

instance (cs : List Char) : Decidable (IsPlain cs) :=
  List.decidableBAll (fun c => isSign c = false) cs

/-- Adds characters that stand for themselves. -/
def Reading.pushPlain (r : Reading) (cs : List Char) : Reading :=
  cs.foldl (fun r c => r.push (.literal c) c) r

theorem Reading.branch_pushPlain (r : Reading) (cs : List Char) :
    (r.pushPlain cs).branch = (cs.map .literal).reverse ++ r.branch := by
  induction cs generalizing r with
  | nil => rfl
  | cons c cs ih =>
      rw [pushPlain, List.foldl_cons, ← pushPlain, ih]
      simp [push]

theorem Reading.groups_pushPlain (r : Reading) (cs : List Char) :
    (r.pushPlain cs).groups = r.groups := by
  induction cs generalizing r with
  | nil => rfl
  | cons c cs ih => exact ih (r.push (.literal c) c)

theorem Reading.pushPlain_concat (r : Reading) (cs : List Char) (c : Char) :
    r.pushPlain (cs ++ [c]) = (r.pushPlain cs).push (.literal c) c := by
  rw [pushPlain, List.foldl_append]
  rfl

theorem readFrom_cons_plain (style : Style) {c : Char} (hc : isSign c = false) {r : Reading}
    (hr : r.groups = []) (fuel : Nat) (rest : List Char) :
    readFrom style (fuel + 1) r (c :: rest) =
      readFrom style fuel (r.push (.literal c) c) rest := by
  simp only [isSign, Bool.or_eq_false_iff, beq_eq_false_iff_ne] at hc
  obtain ⟨⟨⟨⟨⟨⟨hstar, hany⟩, hbracket⟩, -⟩, hopen⟩, hclose⟩, hbackslash⟩ := hc
  by_cases hcomma : c = ','
  · -- outside of braces a comma stands for itself
    rw [hcomma, readFrom, Reading.nextBranch, hr]
  · rw [readFrom, if_neg (by simp [hbracket])]
    all_goals
      intros
      contradiction

/-- Plain characters are read as they are, one after the other. -/
theorem readFrom_plain (style : Style) (hcs : IsPlain cs) {r : Reading} (hr : r.groups = [])
    (fuel : Nat) (rest : List Char) :
    readFrom style (cs.length + fuel) r (cs ++ rest) =
      readFrom style fuel (r.pushPlain cs) rest := by
  induction cs generalizing r with
  | nil => simp [Reading.pushPlain]
  | cons c cs ih =>
      rw [IsPlain, List.forall_mem_cons] at hcs
      have hrest := ih hcs.2 (show (r.push (.literal c) c).groups = [] from hr)
      rw [List.length_cons, Nat.add_right_comm, List.cons_append,
        readFrom_cons_plain style hcs.1 hr, hrest]
      rfl

end Glob
end CodeAtlas
