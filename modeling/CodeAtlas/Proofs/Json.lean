import CodeAtlas.Json
import Mathlib.Data.List.TakeDrop

/-!
# Reading JSON back

The reader gives back every value that the writer puts down, as long as the numbers in it are
natural numbers: a number is written as its literal is, and the reader refuses most literals.  A
value is read back in front of any text that does not go on a number, so that the items of an array
and the members of an object are read one after the other.
-/

namespace CodeAtlas
namespace Json

variable {c : Char} {cs rest : List Char} {fuel : Nat} {v : Json}

/-! ## Texts -/

theorem hexValue?_hexDigit : ∀ n < 16, hexValue? (hexDigit n) = some n := by
  decide

/-- The escape of a control character is read back. -/
theorem readUnicode_escape (h : c.toNat < 32) (rest : List Char) :
    readUnicode ('0' :: '0' :: hexDigit (c.toNat / 16) :: hexDigit (c.toNat % 16) :: rest) =
      some (c, rest) := by
  have hzero : hexValue? '0' = some 0 := by decide
  have hhigh := hexValue?_hexDigit (c.toNat / 16) (by omega)
  have hlow := hexValue?_hexDigit (c.toNat % 16) (by omega)
  have hchar : ((0 * 16 + 0) * 16 + c.toNat / 16) * 16 + c.toNat % 16 = c.toNat := by omega
  have hhex : readHex4 ('0' :: '0' :: hexDigit (c.toNat / 16) :: hexDigit (c.toNat % 16) :: rest) =
      some (c.toNat, rest) := by
    simp only [readHex4, hzero, hhigh, hlow, Option.bind_eq_bind, Option.bind_some, hchar]
  simp only [readUnicode, hhex, Option.bind_eq_bind, Option.bind_some]
  rw [if_neg (by simp; omega), if_neg (by simp; omega), Char.ofNat_toNat]

theorem readString_unescape {e : Char} (hu : e ≠ 'u') (h : unescape? e = some c) (fuel : Nat)
    (rest : List Char) :
    readString (fuel + 1) ('\\' :: e :: rest) =
      (readString fuel rest).map fun p => (c :: p.1, p.2) := by
  rw [readString, h, Option.bind_some]
  exact hu

/-- A character that is written as it is is read as it is. -/
theorem readString_cons (hquote : c ≠ '"') (hslash : c ≠ '\\') (hcontrol : 32 ≤ c.toNat)
    (fuel : Nat) (rest : List Char) :
    readString (fuel + 1) (c :: rest) = (readString fuel rest).map fun p => (c :: p.1, p.2) := by
  have hplain : (decide (c.toNat < 32) || c == '\\') = false := by
    simp [hslash, hcontrol]
  rw [readString, hplain, if_neg (by decide)]
  · exact hquote
  · exact fun _ h => absurd h hslash
  · exact fun _ _ h => absurd h hslash

theorem readString_escapeChar (fuel : Nat) (c : Char) (rest : List Char) :
    readString (fuel + 1) (escapeChar c ++ rest) =
      (readString fuel rest).map fun p => (c :: p.1, p.2) := by
  rw [escapeChar]
  split_ifs with hquote hslash hn hr ht hb hf hcontrol
  · exact readString_unescape (by decide) (by rw [hquote]; rfl) fuel rest
  · exact readString_unescape (by decide) (by rw [hslash]; rfl) fuel rest
  · exact readString_unescape (by decide) (by rw [hn]; rfl) fuel rest
  · exact readString_unescape (by decide) (by rw [hr]; rfl) fuel rest
  · exact readString_unescape (by decide) (by rw [ht]; rfl) fuel rest
  · exact readString_unescape (by decide) (by rw [hb]; rfl) fuel rest
  · exact readString_unescape (by decide) (by rw [hf]; rfl) fuel rest
  · simp only [List.cons_append, List.nil_append]
    rw [readString, readUnicode_escape hcontrol, Option.bind_some]
  · exact readString_cons hquote hslash (by omega) fuel rest

/-- What stands between quotes is read back, in front of any text. -/
theorem readString_flatMap_escapeChar (cs rest : List Char) (h : cs.length < fuel) :
    readString fuel (cs.flatMap escapeChar ++ '"' :: rest) = some (cs, rest) := by
  induction cs generalizing fuel with
  | nil =>
      cases fuel with
      | zero => exact absurd h (Nat.lt_irrefl 0)
      | succ fuel => rw [List.flatMap_nil, List.nil_append, readString]
  | cons c cs ih =>
      cases fuel with
      | zero => exact absurd h (Nat.not_lt_zero _)
      | succ fuel =>
          rw [List.flatMap_cons, List.append_assoc, readString_escapeChar,
            ih (Nat.lt_of_succ_lt_succ h), Option.map_some]

theorem length_le_length_flatMap_escapeChar (cs : List Char) :
    cs.length ≤ (cs.flatMap escapeChar).length := by
  induction cs with
  | nil => exact Nat.le_refl 0
  | cons c cs ih =>
      have hpos : 0 < (escapeChar c).length := by
        rw [escapeChar]
        split_ifs <;> simp
      rw [List.flatMap_cons, List.length_append, List.length_cons]
      omega

/-- A quoted text opens with a quote, and what follows it is read back. -/
theorem exists_quote_eq (s : String) (rest : List Char) :
    ∃ tail, quote s ++ rest = '"' :: tail ∧
      readString (tail.length + 1) tail = some (s.toList, rest) := by
  refine ⟨s.toList.flatMap escapeChar ++ '"' :: rest, by simp [quote], ?_⟩
  apply readString_flatMap_escapeChar
  have hlength := length_le_length_flatMap_escapeChar s.toList
  rw [List.length_append]
  omega

/-! ## Numbers -/

/-- The text does not go on a number in front of it. -/
def EndsNumber (rest : List Char) : Prop :=
  ∀ c ∈ rest.head?, c.isDigit = false ∧ c ≠ '.' ∧ c ≠ 'e' ∧ c ≠ 'E'

theorem endsNumber_cons (h : c.isDigit = false ∧ c ≠ '.' ∧ c ≠ 'e' ∧ c ≠ 'E') (cs : List Char) :
    EndsNumber (c :: cs) := by
  intro d hd
  obtain rfl : c = d := Option.some.inj hd
  exact h

theorem readDigits_append (hne : cs ≠ []) (hcs : ∀ c ∈ cs, c.isDigit = true)
    (hrest : EndsNumber rest) : readDigits (cs ++ rest) = some (cs, rest) := by
  have hspan : (cs ++ rest).span Char.isDigit = (cs, rest) := by
    rw [List.span_eq_takeWhile_dropWhile, List.takeWhile_append_of_pos hcs,
      List.dropWhile_append_of_pos hcs]
    cases rest with
    | nil => simp
    | cons c rest =>
        have hc := (hrest c rfl).1
        simp [hc]
  rw [readDigits, hspan]
  cases cs with
  | nil => exact absurd rfl hne
  | cons c cs => rfl

theorem isDigit_of_mem_toDigits {n : Nat} (h : c ∈ Nat.toDigits 10 n) : c.isDigit = true :=
  Nat.isDigit_of_mem_toDigits (by decide) (by decide) h

/-- A natural number starts with a digit. -/
theorem exists_toDigits_eq (n : Nat) :
    ∃ d ds, Nat.toDigits 10 n = d :: ds ∧ d.isDigit = true := by
  obtain ⟨d, ds, hdigits⟩ := List.exists_cons_of_ne_nil (Nat.toDigits_ne_nil (b := 10) (n := n))
  refine ⟨d, ds, hdigits, isDigit_of_mem_toDigits (n := n) ?_⟩
  rw [hdigits]
  exact List.mem_cons_self

/-- Only the number zero starts with a zero. -/
theorem head?_toDigits_ne_zero {n : Nat} (h : n ≠ 0) : (Nat.toDigits 10 n).head? ≠ some '0' := by
  induction n using Nat.strongRecOn with
  | _ n ih =>
      by_cases hn : n < 10
      · have hdigit : ∀ n < 10, n ≠ 0 → [Nat.digitChar n].head? ≠ some '0' := by decide
        rw [Nat.toDigits_of_lt_base hn]
        exact hdigit n hn h
      · obtain ⟨d, ds, hcons, -⟩ := exists_toDigits_eq (n / 10)
        have hhead := ih (n / 10) (by omega) (by omega)
        rw [hcons] at hhead
        rw [Nat.toDigits_of_base_le (by decide) (by omega), hcons]
        exact hhead

theorem readWhole_toDigits (n : Nat) (hrest : EndsNumber rest) :
    readWhole (Nat.toDigits 10 n ++ rest) = some (Nat.toDigits 10 n, rest) := by
  by_cases hn : n = 0
  · rw [hn]
    rfl
  · have hdigits := readDigits_append Nat.toDigits_ne_nil
      (fun _ hc => isDigit_of_mem_toDigits (n := n) hc) hrest
    have hzero := head?_toDigits_ne_zero hn
    obtain ⟨d, ds, hcons, -⟩ := exists_toDigits_eq n
    rw [hcons] at hdigits hzero ⊢
    rw [List.cons_append, readWhole]
    · exact hdigits
    · intro _ hsame
      rw [(List.cons.inj hsame).1] at hzero
      exact hzero rfl

/-- A natural number is read back whole. -/
theorem readNumber_toDigits (n : Nat) (hrest : EndsNumber rest) :
    readNumber (Nat.toDigits 10 n ++ rest) = some (Nat.toDigits 10 n, rest) := by
  have hsign : readSign (Nat.toDigits 10 n ++ rest) = ([], Nat.toDigits 10 n ++ rest) := by
    obtain ⟨d, ds, hcons, hd⟩ := exists_toDigits_eq n
    rw [hcons, List.cons_append, readSign]
    intro _ hsame
    rw [(List.cons.inj hsame).1] at hd
    exact absurd hd (by decide)
  have hfraction : readFraction rest = some ([], rest) := by
    cases rest with
    | nil => rfl
    | cons c rest =>
        rw [readFraction]
        intro _ hsame
        exact (hrest c rfl).2.1 (List.cons.inj hsame).1
  have hexponent : readExponent rest = some ([], rest) := by
    cases rest with
    | nil => rfl
    | cons c rest =>
        obtain ⟨-, -, he, hE⟩ := hrest c rfl
        rw [readExponent.eq_def]
        exact if_neg (by simp [he, hE])
  simp only [readNumber, hsign, readWhole_toDigits n hrest, hfraction, hexponent, Option.bind_some,
    Option.map_some, List.nil_append, List.append_nil]

/-! ## Values -/

/-- Every number in the value is a natural number. -/
inductive Natural : Json → Prop
  | null : Natural null
  | bool (b : Bool) : Natural (bool b)
  | ofNat (n : Nat) : Natural (ofNat n)
  | string (s : String) : Natural (string s)
  | array (items : List Json) (h : ∀ v ∈ items, Natural v) : Natural (array items)
  | object (members : List (String × Json)) (h : ∀ m ∈ members, Natural m.2) :
      Natural (object members)

/-- The value is read back from where it is written, in front of what does not go on a number. -/
def ReadsBack (v : Json) : Prop :=
  ∀ depth fuel rest, (prettyAt depth v).length < fuel → EndsNumber rest →
    readValue fuel (prettyAt depth v ++ rest) = some (v, rest)

theorem skipSpace_newRow_append (depth : Nat) (cs : List Char) :
    skipSpace (newRow depth ++ cs) = skipSpace cs := by
  have hblank : ∀ c ∈ newRow depth, isSpace c = true := by
    intro c hc
    rcases List.mem_cons.mp hc with rfl | hc
    · rfl
    · rw [(List.mem_replicate.mp hc).2]
      rfl
  rw [skipSpace, List.dropWhile_append_of_pos hblank]
  rfl

theorem skipSpace_cons (h : isSpace c = false) (cs : List Char) : skipSpace (c :: cs) = c :: cs := by
  rw [skipSpace, List.dropWhile_cons_of_neg (by simp [h])]

/-- Spaces in front of a value do not matter. -/
theorem readValue_newRow_append (fuel depth : Nat) (cs : List Char) :
    readValue fuel (newRow depth ++ cs) = readValue fuel cs := by
  cases fuel with
  | zero => rw [readValue, readValue]
  | succ fuel => rw [readValue, readValue, skipSpace_newRow_append]

theorem endsNumber_newRow_append (depth : Nat) (cs : List Char) :
    EndsNumber (newRow depth ++ cs) :=
  endsNumber_cons (by decide) _

/-- The first character of a value is neither blank nor the end of an array. -/
theorem exists_prettyAt_eq (h : Natural v) (depth : Nat) :
    ∃ c cs, prettyAt depth v = c :: cs ∧ isSpace c = false ∧ c ≠ ']' := by
  cases h with
  | null => exact ⟨'n', _, rfl, by decide, by decide⟩
  | bool b => cases b <;> exact ⟨_, _, rfl, by decide, by decide⟩
  | ofNat n =>
      obtain ⟨d, ds, hcons, hd⟩ := exists_toDigits_eq n
      refine ⟨d, ds, hcons, ?_, ?_⟩
      · rw [isSpace]
        simp only [Bool.or_eq_false_iff, beq_eq_false_iff_ne]
        refine ⟨⟨⟨?_, ?_⟩, ?_⟩, ?_⟩ <;> rintro rfl <;> exact absurd hd (by decide)
      · rintro rfl
        exact absurd hd (by decide)
  | string s => exact ⟨'"', _, rfl, by decide, by decide⟩
  | array items => cases items <;> exact ⟨'[', _, rfl, by decide, by decide⟩
  | object members => cases members <;> exact ⟨'{', _, rfl, by decide, by decide⟩

theorem readsBack_ofNat (n : Nat) : ReadsBack (ofNat n) := by
  intro depth fuel rest hfuel hrest
  have hread := readNumber_toDigits n hrest
  obtain ⟨d, ds, hcons, hd⟩ := exists_toDigits_eq n
  obtain ⟨c, cs, hpretty, hspace, -⟩ := exists_prettyAt_eq (.ofNat n) depth
  have hskip : skipSpace (Nat.toDigits 10 n ++ rest) = Nat.toDigits 10 n ++ rest := by
    have hfirst : Nat.toDigits 10 n = c :: cs := hpretty
    rw [hfirst, List.cons_append, skipSpace_cons hspace]
  cases fuel with
  | zero => exact absurd hfuel (Nat.not_lt_zero _)
  | succ fuel =>
      change readValue (fuel + 1) (Nat.toDigits 10 n ++ rest) = _
      rw [readValue, hskip]
      split
      -- a digit opens nothing but a number
      case h_7 => rw [hread]; rfl
      all_goals
        next heq =>
          rw [hcons] at heq
          rw [(List.cons.inj heq).1] at hd
          exact absurd hd (by decide)

theorem readsBack_string (s : String) : ReadsBack (string s) := by
  intro depth fuel rest hfuel hrest
  obtain ⟨tail, hquote, hread⟩ := exists_quote_eq s rest
  cases fuel with
  | zero => exact absurd hfuel (Nat.not_lt_zero _)
  | succ fuel =>
      rw [prettyAt, hquote, readValue, skipSpace_cons (by decide)]
      simp only [hread, Option.map_some, String.ofList_toList]

/-! ## Arrays -/

theorem skipSpace_newRow_cons (depth : Nat) (h : isSpace c = false) (cs : List Char) :
    skipSpace (newRow depth ++ c :: cs) = c :: cs := by
  rw [skipSpace_newRow_append, skipSpace_cons h]

/-- The items of an array are read back, one after the other. -/
theorem readItems_append {vs : List Json} (h : ∀ w ∈ v :: vs, ReadsBack w) (depth fuel : Nat)
    (hfuel : (prettyAt depth v).length + (prettyItems depth vs).length + 1 < fuel) (outer : Nat)
    (rest : List Char) :
    readItems fuel (newRow depth ++ (prettyAt depth v ++ (prettyItems depth vs ++
      (newRow outer ++ ']' :: rest)))) = some (v :: vs, rest) := by
  induction vs generalizing v fuel with
  | nil =>
      cases fuel with
      | zero => exact absurd hfuel (Nat.not_lt_zero _)
      | succ fuel =>
          have hv := h v List.mem_cons_self depth fuel (newRow outer ++ ']' :: rest) (by omega)
            (endsNumber_newRow_append outer _)
          rw [prettyItems, List.nil_append, readItems, readValue_newRow_append, hv]
          simp only [Option.bind_some, skipSpace_newRow_cons outer (show isSpace ']' = false by decide)]
  | cons w ws ih =>
      cases fuel with
      | zero => exact absurd hfuel (Nat.not_lt_zero _)
      | succ fuel =>
          simp only [prettyItems, List.length_cons, List.length_append] at hfuel
          have hws := ih (fun u hu => h u (List.mem_cons_of_mem v hu)) fuel (by omega)
          have hv := h v List.mem_cons_self depth fuel (',' :: (newRow depth ++ (prettyAt depth w ++
            (prettyItems depth ws ++ (newRow outer ++ ']' :: rest))))) (by omega)
            (endsNumber_cons (by decide) _)
          simp only [prettyItems, List.cons_append, List.append_assoc]
          rw [readItems, readValue_newRow_append, hv, Option.bind_some]
          simp only [skipSpace_cons (show isSpace ',' = false by decide), hws, Option.map_some]

theorem readsBack_array {items : List Json} (hnatural : ∀ v ∈ items, Natural v)
    (h : ∀ v ∈ items, ReadsBack v) : ReadsBack (array items) := by
  intro depth fuel rest hfuel hrest
  cases fuel with
  | zero => exact absurd hfuel (Nat.not_lt_zero _)
  | succ fuel =>
      cases items with
      | nil => rfl
      | cons v vs =>
          have hlength : (newRow (depth + 1)).length = 2 * (depth + 1) + 1 := by simp [newRow]
          have hitems := readItems_append h (depth + 1) fuel (by
            simp only [prettyAt, List.length_cons, List.length_append, hlength] at hfuel
            omega) depth rest
          obtain ⟨c, cs, hpretty, hspace, hclose⟩ :=
            exists_prettyAt_eq (hnatural v List.mem_cons_self) (depth + 1)
          simp only [prettyAt, List.cons_append, List.append_assoc, List.nil_append]
          rw [readValue, skipSpace_cons (by decide)]
          simp only [hitems, skipSpace_newRow_append]
          rw [hpretty, List.cons_append, skipSpace_cons hspace]
          split
          · next heq => exact absurd (List.cons.inj heq).1 hclose
          · rfl

/-! ## Objects -/

theorem readKey_quote (depth : Nat) (k : String) (rest : List Char) :
    readKey (newRow depth ++ (quote k ++ (':' :: ' ' :: rest))) = some (k, ' ' :: rest) := by
  obtain ⟨tail, hquote, hread⟩ := exists_quote_eq k (':' :: ' ' :: rest)
  rw [hquote, readKey, skipSpace_newRow_cons depth (by decide)]
  simp only [hread, Option.bind_some, skipSpace_cons (show isSpace ':' = false by decide),
    String.ofList_toList]

/-- A space in front of a value does not matter. -/
theorem readValue_space_cons (fuel : Nat) (cs : List Char) :
    readValue fuel (' ' :: cs) = readValue fuel cs := by
  cases fuel with
  | zero => rw [readValue, readValue]
  | succ fuel =>
      have hskip : skipSpace (' ' :: cs) = skipSpace cs := rfl
      rw [readValue, readValue, hskip]

/-- The members of an object are read back, one after the other. -/
theorem readMembers_append {k : String} {ms : List (String × Json)}
    (h : ∀ m ∈ (k, v) :: ms, ReadsBack m.2) (depth fuel : Nat)
    (hfuel : (prettyAt depth v).length + (prettyMembers depth ms).length + 1 < fuel)
    (outer : Nat) (rest : List Char) :
    readMembers fuel (newRow depth ++ (quote k ++ (':' :: ' ' :: (prettyAt depth v ++
      (prettyMembers depth ms ++ (newRow outer ++ '}' :: rest)))))) = some ((k, v) :: ms, rest) := by
  induction ms generalizing k v fuel with
  | nil =>
      cases fuel with
      | zero => exact absurd hfuel (Nat.not_lt_zero _)
      | succ fuel =>
          have hv := h (k, v) List.mem_cons_self depth fuel (newRow outer ++ '}' :: rest)
            (by dsimp only; omega) (endsNumber_newRow_append outer _)
          rw [prettyMembers, List.nil_append, readMembers, readKey_quote, Option.bind_some]
          simp only [readValue_space_cons, hv, Option.bind_some,
            skipSpace_newRow_cons outer (show isSpace '}' = false by decide)]
  | cons m ms ih =>
      cases fuel with
      | zero => exact absurd hfuel (Nat.not_lt_zero _)
      | succ fuel =>
          obtain ⟨l, w⟩ := m
          simp only [prettyMembers, List.length_cons, List.length_append] at hfuel
          have hms := ih (fun m hm => h m (List.mem_cons_of_mem (k, v) hm)) fuel (by omega)
          have hv := h (k, v) List.mem_cons_self depth fuel (',' :: (newRow depth ++ (quote l ++
            (':' :: ' ' :: (prettyAt depth w ++ (prettyMembers depth ms ++
              (newRow outer ++ '}' :: rest))))))) (by dsimp only; omega)
            (endsNumber_cons (by decide) _)
          simp only [prettyMembers, List.cons_append, List.append_assoc, List.nil_append]
          rw [readMembers, readKey_quote, Option.bind_some]
          simp only [readValue_space_cons, hv, Option.bind_some,
            skipSpace_cons (show isSpace ',' = false by decide), hms, Option.map_some]

theorem readsBack_object {members : List (String × Json)} (h : ∀ m ∈ members, ReadsBack m.2) :
    ReadsBack (object members) := by
  intro depth fuel rest hfuel hrest
  cases fuel with
  | zero => exact absurd hfuel (Nat.not_lt_zero _)
  | succ fuel =>
      cases members with
      | nil => rfl
      | cons m ms =>
          obtain ⟨k, v⟩ := m
          have hmembers := readMembers_append h (depth + 1) fuel (by
            simp only [prettyAt, List.length_cons, List.length_append] at hfuel
            omega) depth rest
          have hopen : ∃ tail, quote k ++ (':' :: ' ' :: (prettyAt (depth + 1) v ++
              (prettyMembers (depth + 1) ms ++ (newRow depth ++ '}' :: rest)))) = '"' :: tail :=
            ⟨_, rfl⟩
          obtain ⟨tail, hopen⟩ := hopen
          simp only [prettyAt, List.cons_append, List.append_assoc, List.nil_append]
          rw [readValue, skipSpace_cons (by decide)]
          simp only [hmembers, skipSpace_newRow_append]
          rw [hopen, skipSpace_cons (by decide)]
          rfl

/-! ## Whole texts -/

theorem Natural.readsBack (h : Natural v) : ReadsBack v := by
  induction h with
  | null =>
      intro depth fuel rest hfuel _
      cases fuel with
      | zero => exact absurd hfuel (Nat.not_lt_zero _)
      | succ fuel => rfl
  | bool b =>
      intro depth fuel rest hfuel _
      cases fuel with
      | zero => exact absurd hfuel (Nat.not_lt_zero _)
      | succ fuel => cases b <;> rfl
  | ofNat n => exact readsBack_ofNat n
  | string s => exact readsBack_string s
  | array items h ih => exact readsBack_array h ih
  | object members _ ih => exact readsBack_object ih

/-- A value whose numbers are natural numbers is read back from its text. -/
theorem read?_pretty (h : Natural v) : read? v.pretty = some v := by
  have hread := h.readsBack 0 ((prettyAt 0 v).length + 1) [] (Nat.lt_succ_self _) nofun
  rw [List.append_nil] at hread
  simp only [read?, pretty, String.toList_ofList, hread]
  rfl

end Json
end CodeAtlas
