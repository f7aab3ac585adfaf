import CodeAtlas.Syntax.Mending
import Mathlib.Data.List.Basic

/-!
# Names are words

The nodes that stand for names are read as one word each, so that the text of such a node has no
character in it that cannot continue a word.  This is kept by every way of putting parsers together:
a parser packs nodes into others, gives them roles and leaves them on a list, but it makes a node for
a name only where it has just read a word.

The lemmas on `Keeps` follow the combinators, so that a grammar is checked by terms of the shape of
its productions.
-/

namespace CodeAtlas
namespace Syntax

/-! ## Properties of all nodes -/

namespace Tree

mutual

/-- A property of kinds, roles and places holds of the node and of everything below it. -/
def All (P : String → String → Nat → Nat → Prop) : Tree → Prop
  | node kind field first stop cs => P kind field first stop ∧ AllIn P cs

/-- A property holds of all nodes of several trees. -/
def AllIn (P : String → String → Nat → Nat → Prop) : List Tree → Prop
  | [] => True
  | t :: rest => t.All P ∧ AllIn P rest

end

variable {P : String → String → Nat → Nat → Prop}

theorem allIn_iff {ts : List Tree} : AllIn P ts ↔ ∀ t ∈ ts, t.All P := by
  induction ts with
  | nil => simp [AllIn]
  | cons t ts ih => rw [AllIn, ih, List.forall_mem_cons]

theorem all_node {kind field : String} {first stop : Nat} {cs : List Tree} :
    (node kind field first stop cs).All P ↔ P kind field first stop ∧ ∀ t ∈ cs, t.All P := by
  rw [All, allIn_iff]

theorem All.head {t : Tree} (h : t.All P) : P t.kind t.field t.first t.stop := by
  cases t
  exact (all_node.mp h).1

theorem All.children {t : Tree} (h : t.All P) : ∀ c ∈ t.children, c.All P := by
  cases t
  exact (all_node.mp h).2

/-- A node may change its role, if the property stands the change. -/
theorem All.withField {t : Tree} (h : t.All P) {name : String}
    (hname : P t.kind name t.first t.stop) : (t.withField name).All P := by
  cases t
  exact all_node.mpr ⟨hname, (all_node.mp h).2⟩

mutual

theorem All.insert {new : Tree} (hnew : new.All P) : ∀ {t : Tree}, t.All P → (new.insert t).All P
  | node kind field first stop cs, h => by
      rw [Tree.insert, all_node, ← allIn_iff]
      obtain ⟨hhead, hcs⟩ := all_node.mp h
      exact ⟨hhead, All.insertAmong hnew (allIn_iff.mpr hcs)⟩

theorem All.insertAmong {new : Tree} (hnew : new.All P) :
    ∀ {ts : List Tree}, AllIn P ts → AllIn P (insertAmong new ts)
  | [], _ => ⟨hnew, trivial⟩
  | t :: ts, h => by
      rw [Tree.insertAmong]
      split
      · exact ⟨All.insert hnew h.1, h.2⟩
      · split
        · exact ⟨hnew, h⟩
        · exact ⟨h.1, All.insertAmong hnew h.2⟩

end

end Tree

theorem all_attachComments {P : String → String → Nat → Nat → Prop} {t : Tree} (ht : t.All P)
    {comments : List Tree} (h : ∀ c ∈ comments, c.All P) : (attachComments t comments).All P := by
  induction comments with
  | nil => exact ht
  | cons c comments ih =>
      rw [List.forall_mem_cons] at h
      exact Tree.All.insert h.1 (ih h.2)

/-! ## Words of a source -/

/-- The node stands for a name, by its kind or its role. -/
def isName (kind field : String) : Bool :=
  kind == "identifier" || kind == "type_identifier" || field == "name"

/-- The words of a language are made of characters that continue words, and a comment is no
name. -/
structure Lexis.Regular (l : Lexis) : Prop where
  starts : ∀ c, l.startsWord c = true → l.continuesWord c = true
  comment : ∀ source i kind j, l.comment? source i = some (kind, j) → isName kind "" = false

/-- All characters between two places continue words. -/
def Env.WordBetween (e : Env) (first stop : Nat) : Prop :=
  ∀ i, first ≤ i → i < stop → ∃ c, e.source.get? i = some c ∧ e.lexis.continuesWord c = true

/-- A node that stands for a name covers characters of words only. -/
def Env.NamesWord (e : Env) (kind field : String) (first stop : Nat) : Prop :=
  isName kind field = true → e.WordBetween first stop

theorem Source.get?_of_lt_skipWhile {s : Source} {p : Char → Bool} {fuel i k : Nat} (hi : i ≤ k)
    (hk : k < s.skipWhile p fuel i) : ∃ c, s.get? k = some c ∧ p c = true := by
  induction fuel generalizing i with
  | zero => exact absurd hk (by simp [skipWhile, hi])
  | succ fuel ih =>
      rw [skipWhile] at hk
      split at hk
      next c hc =>
        split at hk
        next hp =>
          rcases Nat.eq_or_lt_of_le hi with rfl | hlt
          · exact ⟨c, hc, hp⟩
          · exact ih hlt hk
        next => exact absurd hk (Nat.not_lt_of_le hi)
      next => exact absurd hk (Nat.not_lt_of_le hi)

theorem Env.wordBetween_wordEnd {e : Env} (he : e.lexis.Regular) (i : Nat) :
    e.WordBetween i (e.wordEnd i) := by
  intro k hi hk
  rw [wordEnd] at hk
  split at hk
  next c hc =>
    split at hk
    next hstarts =>
      rcases Nat.eq_or_lt_of_le hi with rfl | hlt
      · exact ⟨c, hc, he.starts c hstarts⟩
      · exact Source.get?_of_lt_skipWhile hlt hk
    next => exact absurd hk (Nat.not_lt_of_le hi)
  next => exact absurd hk (Nat.not_lt_of_le hi)

theorem Env.all_pass {e : Env} (he : e.lexis.Regular) (rows : Bool) (fuel i : Nat)
    {found : List Tree} (h : ∀ t ∈ found, t.All e.NamesWord) :
    ∀ t ∈ (e.pass rows fuel i found).2, t.All e.NamesWord := by
  induction fuel generalizing i found with
  | zero => exact h
  | succ fuel ih =>
      rw [pass]
      split
      next => exact h
      next c hc =>
        split
        next => exact ih _ h
        next =>
          split
          next => exact h
          next =>
            split
            next => exact ih _ h
            next =>
              split
              next kind j hcomment =>
                split
                next => exact h
                next =>
                  refine ih _ (List.forall_mem_cons.mpr ⟨?_, h⟩)
                  rw [Tree.all_node]
                  refine ⟨fun hname => ?_, by simp⟩
                  rw [he.comment e.source i kind j hcomment] at hname
                  exact absurd hname (by simp)
              next => exact h

/-! ## Parsers that keep names words -/

/-- The nodes that are finished so far name words. -/
structure State.Sound (e : Env) (s : State) : Prop where
  out : ∀ t ∈ s.out, t.All e.NamesWord
  comments : ∀ t ∈ s.comments, t.All e.NamesWord

/-- Whatever a parser adds to the finished nodes names words again. -/
def Keeps {α : Type} (p : Parser α) : Prop :=
  ∀ (e : Env) (s s' : State) (a : α), e.lexis.Regular → s.Sound e → p e s = .done a s' → s'.Sound e

namespace Keeps

open CodeAtlas.Syntax.Parser (consumeTo word)

variable {α β : Type} {p q : Parser α} {f : α → Parser β} {kind field : String}

/-- A parser that finishes no node keeps everything. -/
theorem of_same (h : ∀ e s s' a, p e s = .done a s' → s'.out = s.out ∧ s'.comments = s.comments) :
    Keeps p := by
  intro e s s' a _ hs hdone
  obtain ⟨hout, hcomments⟩ := h e s s' a hdone
  exact ⟨hout ▸ hs.out, hcomments ▸ hs.comments⟩

theorem pure (a : α) : Keeps (pure a : Parser α) := by
  refine of_same fun e s s' b h => ?_
  obtain ⟨rfl, rfl⟩ := Outcome.done.inj h
  exact ⟨rfl, rfl⟩

theorem bind (hp : Keeps p) (hf : ∀ a, Keeps (f a)) : Keeps (p >>= f) := by
  intro e s s' b he hs hdone
  change Parser.bind p f e s = _ at hdone
  rw [Parser.bind] at hdone
  split at hdone
  next a s₁ h₁ => exact hf a e s₁ s' b he (hp e s s₁ a he hs h₁) hdone
  next => exact absurd hdone (by simp)

theorem seq {q : Parser β} (hp : Keeps p) (hq : Keeps q) : Keeps (p >>= fun _ => q) :=
  bind hp fun _ => hq

theorem orElse (hp : Keeps p) (hq : Keeps q) : Keeps (p <|> q) := by
  intro e s s' a he hs hdone
  change Parser.orElse p (fun _ => q) e s = _ at hdone
  rw [Parser.orElse] at hdone
  split at hdone
  next b s₁ h₁ =>
    obtain ⟨rfl, rfl⟩ := Outcome.done.inj hdone
    exact hp e s _ _ he hs h₁
  next far _ => exact hq e { s with far := max s.far far } s' a he ⟨hs.out, hs.comments⟩ hdone

theorem fail : Keeps (Parser.fail : Parser α) := by
  intro e s s' a _ _ hdone
  exact absurd hdone (by simp [Parser.fail])

theorem ite {c : Prop} [Decidable c] (hp : Keeps p) (hq : Keeps q) :
    Keeps (if c then p else q) := by
  split
  · exact hp
  · exact hq

/-- A step that is left out under some condition. -/
theorem when {c : Prop} [Decidable c] (hp : Keeps p) (hf : ∀ a, Keeps (f a)) (a : α) :
    Keeps (if c then p >>= f else f a) :=
  ite (bind hp hf) (hf a)

theorem check (b : Bool) : Keeps (Parser.check b) := ite (pure ()) fail

theorem opt {p : Parser Unit} (hp : Keeps p) : Keeps (Parser.opt p) := orElse hp (pure ())

theorem manyUpTo {p : Parser Unit} (hp : Keeps p) (fuel : Nat) :
    Keeps (Parser.manyUpTo p fuel) := by
  induction fuel with
  | zero => exact pure ()
  | succ fuel ih =>
      intro e s s' a he hs hdone
      rw [Parser.manyUpTo] at hdone
      beta_reduce at hdone
      split at hdone
      next b s₁ h₁ =>
        split at hdone
        · obtain ⟨-, rfl⟩ := Outcome.done.inj hdone
          exact hs
        · exact ih e s₁ s' a he (hp e s s₁ b he hs h₁) hdone
      next =>
        obtain ⟨-, rfl⟩ := Outcome.done.inj hdone
        exact ⟨hs.out, hs.comments⟩

theorem many {p : Parser Unit} (hp : Keeps p) : Keeps (Parser.many p) :=
  fun e s s' a he hs hdone => hp.manyUpTo (e.source.size + 1) e s s' a he hs hdone

theorem many1 {p : Parser Unit} (hp : Keeps p) : Keeps (Parser.many1 p) :=
  bind hp fun _ => many hp

theorem sepBy1 {p separator : Parser Unit} (hp : Keeps p) (hs : Keeps separator) :
    Keeps (Parser.sepBy1 p separator) :=
  bind hp fun _ => many (bind hs fun _ => hp)

theorem sepBy {p separator : Parser Unit} (hp : Keeps p) (hs : Keeps separator) :
    Keeps (Parser.sepBy p separator) :=
  opt (sepBy1 hp hs)

/-! ### Looking and reading -/

theorem ahead (p : Parser Unit) : Keeps (Parser.ahead p) := by
  refine of_same fun e s s' b h => ?_
  rw [Parser.ahead] at h
  split at h
  all_goals
    obtain ⟨-, rfl⟩ := Outcome.done.inj h
    exact ⟨rfl, rfl⟩

theorem peek (p : Parser Unit) : Keeps (Parser.peek p) :=
  bind (ahead p) fun b => check b

theorem no (p : Parser Unit) : Keeps (Parser.no p) :=
  bind (ahead p) fun b => check (!b)

theorem of_look {g : Env → State → α} : Keeps (fun e s => .done (g e s) s : Parser α) := by
  refine of_same fun e s s' b h => ?_
  obtain ⟨-, rfl⟩ := Outcome.done.inj h
  exact ⟨rfl, rfl⟩

theorem here : Keeps Parser.here := of_look

theorem source : Keeps Parser.source := of_look

theorem env : Keeps Parser.env := of_look

theorem position : Keeps Parser.position := of_look

theorem nextChar : Keeps Parser.nextChar := of_look

theorem nextWord : Keeps Parser.nextWord := of_look

theorem nextSign : Keeps Parser.nextSign := of_look

theorem atEnd : Keeps Parser.atEnd := of_look

theorem lastKind : Keeps Parser.lastKind := of_look

theorem consumeTo (j : Nat) : Keeps (Parser.consumeTo j) := by
  intro e s s' a he hs hdone
  obtain ⟨-, rfl⟩ := Outcome.done.inj hdone
  have hpassed : ∀ t ∈ (s.ahead e).2, t.All e.NamesWord :=
    Env.all_pass he s.rows (e.source.size + 1) s.pos (List.forall_mem_nil _)
  exact ⟨hs.out, List.forall_mem_append.mpr ⟨hpassed, hs.comments⟩⟩

theorem jumpTo (j : Nat) : Keeps (Parser.jumpTo j) := by
  refine of_same fun e s s' b h => ?_
  obtain ⟨-, rfl⟩ := Outcome.done.inj h
  exact ⟨rfl, rfl⟩

theorem lexeme (scan : Source → Nat → Option Nat) : Keeps (Parser.lexeme scan) := by
  refine bind here fun i => bind source fun s => ?_
  split
  · exact consumeTo _
  · exact fail

theorem sign (text : String) : Keeps (Parser.sign text) := by
  refine bind here fun i => bind env fun e => ?_
  exact ite (consumeTo _) (check _)

theorem word (text : String) : Keeps (Parser.word text) := by
  refine bind here fun i => bind env fun e => ?_
  exact ite (consumeTo _) fail

theorem wordIn (texts : List String) : Keeps (Parser.wordIn texts) :=
  bind nextWord fun w => ite (word w) fail

theorem freeWord (reserved : List String) : Keeps (Parser.freeWord reserved) :=
  bind nextWord fun w => ite fail (word w)

theorem between (opening closing : String) {p : Parser Unit} (hp : Keeps p) :
    Keeps (Parser.between opening closing p) :=
  bind (sign opening) fun _ => bind hp fun _ => sign closing

end Keeps

/-! ### Finishing nodes -/

/-- A parser that reads the next word and finishes no node. -/
def ReadsWord (p : Parser Unit) : Prop :=
  Keeps p ∧ ∀ e s s' a, p e s = .done a s' → s'.out = s.out ∧ s'.last = e.wordEnd (s.next e)

/-- What a parser returns satisfies a property. -/
def Returns {α : Type} (Q : α → Prop) (p : Parser α) : Prop :=
  ∀ e s s' a, p e s = .done a s' → Q a

namespace ReadsWord

theorem word (text : String) : ReadsWord (Parser.word text) := by
  refine ⟨Keeps.word text, fun e s s' a hdone => ?_⟩
  change (if _ then Parser.consumeTo _ else Parser.fail) e s = _ at hdone
  split at hdone
  · obtain ⟨-, rfl⟩ := Outcome.done.inj hdone
    exact ⟨rfl, rfl⟩
  · exact absurd hdone (by simp [Parser.fail])

theorem wordIn (texts : List String) : ReadsWord (Parser.wordIn texts) := by
  refine ⟨Keeps.wordIn texts, fun e s s' a hdone => ?_⟩
  change (if _ then Parser.word _ else Parser.fail) e s = _ at hdone
  split at hdone
  · exact (word _).2 e s s' a hdone
  · exact absurd hdone (by simp [Parser.fail])

theorem freeWord (reserved : List String) : ReadsWord (Parser.freeWord reserved) := by
  refine ⟨Keeps.freeWord reserved, fun e s s' a hdone => ?_⟩
  change (if _ then Parser.fail else Parser.word _) e s = _ at hdone
  split at hdone
  · exact absurd hdone (by simp [Parser.fail])
  · exact (word _).2 e s s' a hdone

end ReadsWord

namespace Returns

variable {α β : Type} {Q : β → Prop} {R : α → Prop}

theorem pure {b : β} (h : Q b) : Returns Q (pure b : Parser β) := by
  intro e s s' a hdone
  obtain ⟨rfl, -⟩ := Outcome.done.inj hdone
  exact h

theorem bind_of {p : Parser α} {f : α → Parser β} (hp : Returns R p)
    (hf : ∀ a, R a → Returns Q (f a)) : Returns Q (p >>= f) := by
  intro e s s' b hdone
  change Parser.bind p f e s = _ at hdone
  rw [Parser.bind] at hdone
  split at hdone
  next a s₁ h₁ => exact hf a (hp e s s₁ a h₁) e s₁ s' b hdone
  next => exact absurd hdone (by simp)

theorem bind {p : Parser α} {f : α → Parser β} (hf : ∀ a, Returns Q (f a)) :
    Returns Q (p >>= f) :=
  bind_of (R := fun _ => True) (fun _ _ _ _ _ => trivial) fun a _ => hf a

theorem ite {c : Prop} [Decidable c] {p q : Parser β} (hp : Returns Q p)
    (hq : Returns Q q) : Returns Q (if c then p else q) := by
  split
  · exact hp
  · exact hq

theorem when {c : Prop} [Decidable c] {p : Parser α} {f : α → Parser β}
    (hf : ∀ a, Returns Q (f a)) (a : α) : Returns Q (if c then p >>= f else f a) :=
  ite (bind hf) (hf a)

end Returns

theorem isName_of_isName {kind name field : String} (hname : (name == "name") = false)
    (h : isName kind name = true) : isName kind field = true := by
  simp only [isName, hname, Bool.or_false] at h
  rw [isName, h, Bool.true_or]

namespace Keeps

variable {α : Type} {p : Parser Unit} {kind name : String}

theorem all_withField {e : Env} {t : Tree} (h : t.All e.NamesWord)
    (hname : (name == "name") = false) : (t.withField name).All e.NamesWord :=
  h.withField fun hisName => h.head (isName_of_isName hname hisName)

/-- What packing into one node does: the node is empty, or it reaches from the next lexeme to the
last one. -/
theorem exists_of_node {e : Env} {s s' : State} {a : Unit}
    (hdone : Parser.node kind p e s = .done a s') :
    ∃ s₁ first stop, p e { s with out := [] } = .done () s₁ ∧
      s' = { s₁ with out := Tree.node kind "" first stop s₁.out.reverse :: s.out } ∧
      (first = stop ∨ first = s.next e ∧ stop = s₁.last) := by
  rw [Parser.node] at hdone
  split at hdone
  next => exact absurd hdone (by simp)
  next s₁ h₁ =>
    obtain ⟨-, rfl⟩ := Outcome.done.inj hdone
    by_cases hpos : s₁.pos = s.pos
    · exact ⟨s₁, s.last, s.last, h₁, by simp [hpos], Or.inl rfl⟩
    · exact ⟨s₁, s.next e, s₁.last, h₁, by simp [hpos], Or.inr ⟨rfl, rfl⟩⟩

theorem node (hkind : isName kind "" = false) (hp : Keeps p) : Keeps (Parser.node kind p) := by
  intro e s s' a he hs hdone
  obtain ⟨s₁, first, stop, h₁, rfl, -⟩ := exists_of_node hdone
  have hsound := hp e { s with out := [] } s₁ () he ⟨List.forall_mem_nil _, hs.comments⟩ h₁
  refine ⟨List.forall_mem_cons.mpr ⟨?_, hs.out⟩, hsound.comments⟩
  rw [Tree.all_node]
  refine ⟨fun hname => ?_, fun t ht => hsound.out t (List.mem_reverse.mp ht)⟩
  rw [hkind] at hname
  exact absurd hname (by simp)

/-- A node around one word names a word, whatever its kind is. -/
theorem made_word {e : Env} {s s' : State} (he : e.lexis.Regular) (hs : s.Sound e)
    (hp : ReadsWord p) {a : Unit} (hdone : Parser.node kind p e s = .done a s') :
    ∃ t, s'.out = t :: s.out ∧ t.All e.NamesWord ∧ e.WordBetween t.first t.stop ∧
      ∀ c ∈ s'.comments, c.All e.NamesWord := by
  obtain ⟨s₁, first, stop, h₁, rfl, hplace⟩ := exists_of_node hdone
  have hsound := hp.1 e { s with out := [] } s₁ () he ⟨List.forall_mem_nil _, hs.comments⟩ h₁
  obtain ⟨hout, hlast⟩ := hp.2 e { s with out := [] } s₁ () h₁
  have hword : e.WordBetween first stop := by
    rcases hplace with rfl | ⟨rfl, rfl⟩
    · exact fun i hi hlt => absurd hlt (Nat.not_lt_of_le hi)
    · rw [hlast]
      exact Env.wordBetween_wordEnd he (s.next e)
  refine ⟨_, rfl, ?_, hword, hsound.comments⟩
  rw [Tree.all_node, hout]
  exact ⟨fun _ => hword, List.forall_mem_nil _⟩

theorem node_word (hp : ReadsWord p) : Keeps (Parser.node kind p) := by
  intro e s s' a he hs hdone
  obtain ⟨t, hout, ht, -, hcomments⟩ := made_word he hs hp hdone
  exact ⟨hout ▸ List.forall_mem_cons.mpr ⟨ht, hs.out⟩, hcomments⟩

theorem nodeOf {p : Parser String} (hp : Keeps p)
    (hkind : Returns (fun kind => isName kind "" = false) p) : Keeps (Parser.nodeOf p) := by
  intro e s s' a he hs hdone
  rw [Parser.nodeOf] at hdone
  split at hdone
  next => exact absurd hdone (by simp)
  next kind s₁ h₁ =>
    have hsound := hp e { s with out := [] } s₁ kind he ⟨List.forall_mem_nil _, hs.comments⟩ h₁
    obtain ⟨-, rfl⟩ := Outcome.done.inj hdone
    refine ⟨List.forall_mem_cons.mpr ⟨?_, hs.out⟩, hsound.comments⟩
    rw [Tree.all_node]
    refine ⟨fun hname => ?_, fun t ht => hsound.out t (List.mem_reverse.mp ht)⟩
    rw [hkind e _ s₁ kind h₁] at hname
    exact absurd hname (by simp)

theorem extend (hkind : isName kind "" = false) (hname : (name == "name") = false)
    (hp : Keeps p) : Keeps (Parser.extend kind name p) := by
  intro e s s' a he hs hdone
  rw [Parser.extend] at hdone
  split at hdone
  next => exact absurd hdone (by simp)
  next t rest hout =>
    obtain ⟨ht, hrest⟩ := List.forall_mem_cons.mp (hout ▸ hs.out)
    split at hdone
    next => exact absurd hdone (by simp)
    next b s₁ h₁ =>
      have hsound := hp e { s with out := [t.withField name] } s₁ b he
        ⟨List.forall_mem_singleton.mpr (all_withField ht hname), hs.comments⟩ h₁
      obtain ⟨-, rfl⟩ := Outcome.done.inj hdone
      refine ⟨List.forall_mem_cons.mpr ⟨?_, hrest⟩, hsound.comments⟩
      rw [Tree.all_node]
      refine ⟨fun hisName => ?_, fun u hu => hsound.out u (List.mem_reverse.mp hu)⟩
      rw [hkind] at hisName
      exact absurd hisName (by simp)

theorem field (hname : (name == "name") = false) (hp : Keeps p) :
    Keeps (Parser.field name p) := by
  intro e s s' a he hs hdone
  rw [Parser.field] at hdone
  split at hdone
  next => exact absurd hdone (by simp)
  next b s₁ h₁ =>
    have hsound := hp e { s with out := [] } s₁ b he ⟨List.forall_mem_nil _, hs.comments⟩ h₁
    obtain ⟨-, rfl⟩ := Outcome.done.inj hdone
    refine ⟨List.forall_mem_append.mpr ⟨?_, hs.out⟩, hsound.comments⟩
    exact List.forall_mem_map.mpr fun t ht => all_withField (hsound.out t ht) hname

theorem field_node_word (hp : ReadsWord p) :
    Keeps (Parser.field name (Parser.node kind p)) := by
  intro e s s' a he hs hdone
  rw [Parser.field] at hdone
  split at hdone
  next => exact absurd hdone (by simp)
  next b s₁ h₁ =>
    obtain ⟨t, hout, ht, hword, hcomments⟩ :=
      made_word (s := { s with out := [] }) he ⟨List.forall_mem_nil _, hs.comments⟩ hp h₁
    obtain ⟨-, rfl⟩ := Outcome.done.inj hdone
    refine ⟨List.forall_mem_append.mpr ⟨?_, hs.out⟩, hcomments⟩
    rw [hout, List.forall_mem_map, List.forall_mem_singleton]
    exact ht.withField fun _ => hword

/-! ### Whole texts -/

/-- A grammar whose productions keep names words does so at any depth. -/
theorem run {R : Type} {g : Grammar R}
    (hg : ∀ r : R → Parser Unit, (∀ rule, Keeps (r rule)) → ∀ rule, Keeps (g r rule))
    (fuel : Nat) (rule : R) : Keeps (g.run fuel rule) := by
  induction fuel generalizing rule with
  | zero => exact fail
  | succ fuel ih => exact hg (g.run fuel) ih rule

end Keeps

/-- The nodes of a tree that stand for names are words of the text. -/
def Tree.NamesWords (lexis : Lexis) (source : Source) (t : Tree) : Prop :=
  t.All (Env.NamesWord ⟨source, lexis, ⟨[], []⟩⟩)

theorem namesWords_parseWhole {lexis : Lexis} {source : Source} {repair : Repair} {rows : Bool}
    {kind : String} {p : Parser Unit} {t : Tree} (hlexis : lexis.Regular)
    (hkind : isName kind "" = false) (hp : Keeps p)
    (h : parseWhole lexis source repair rows (Parser.node kind p) = .ok t) :
    t.NamesWords lexis source := by
  rw [parseWhole] at h
  dsimp only at h
  split at h
  next => exact absurd h (by simp)
  next a s hdone =>
    have hsound := Keeps.node hkind hp ⟨source, lexis, repair⟩ (State.initial rows) s a hlexis
      ⟨List.forall_mem_nil _, List.forall_mem_nil _⟩ hdone
    obtain ⟨s₁, first, stop, -, rfl, -⟩ := Keeps.exists_of_node hdone
    split at h
    next => exact absurd h (by simp)
    next =>
      -- the root is made to cover the whole text, and it is no name
      obtain rfl := Except.ok.inj h
      apply all_attachComments
      · obtain ⟨hroot, -⟩ := List.forall_mem_cons.mp hsound.out
        rw [Tree.all_node] at hroot ⊢
        refine ⟨fun hname => ?_, hroot.2⟩
        rw [hkind] at hname
        exact absurd hname (by simp)
      · refine List.forall_mem_append.mpr ⟨?_, hsound.comments⟩
        exact Env.all_pass (e := ⟨source, lexis, repair⟩) hlexis false (source.size + 1) s₁.pos
          (List.forall_mem_nil _)

/-- What holds of the tree of every attempt holds of the tree of a mended text. -/
theorem of_mend {lexis : Lexis} {source : Source} {attempt : Repair → Except Nat Tree}
    {P : Tree → Prop} (h : ∀ repair t, attempt repair = .ok t → P t) {t : Tree}
    (ht : mend lexis source attempt = some t) : P t := by
  have hfrom : ∀ starts fuel repair, mendFrom attempt starts fuel repair = some t → P t := by
    intro starts fuel
    induction fuel with
    | zero => exact fun repair ht => absurd ht (by simp [mendFrom])
    | succ fuel ih =>
        intro repair ht
        rw [mendFrom] at ht
        split at ht
        next t' hok => exact Option.some.inj ht ▸ h repair t' hok
        next =>
          split at ht
          · exact absurd ht (by simp)
          · exact ih _ ht
  rw [mend] at ht
  dsimp only at ht
  split at ht
  next t' hok => exact Option.some.inj ht ▸ h _ t' hok
  next => exact hfrom _ _ _ ht

end Syntax
end CodeAtlas
