import CodeAtlas.Proofs.Syntax.Words
import CodeAtlas.Syntax

/-!
# Names in C

Every production of the C grammar keeps names words: the kinds of nodes that stand for names, and
the role of a name, occur only around a single word.  So a name in a C text has no dot in it.

A production is checked by a term of its own shape, given that the rules it refers to are.
-/

namespace CodeAtlas
namespace Syntax
namespace C

/-! ## Lexical rules -/

theorem isName_comment? {source : Source} {i j : Nat} {kind : String}
    (h : comment? source i = some (kind, j)) : isName kind "" = false := by
  have hkind : kind = "comment" ∨ kind = "" := by
    rw [comment?] at h
    split at h
    · exact Or.inl (Prod.mk.inj (Option.some.inj h)).1.symm
    · split at h
      · exact Or.inl (Prod.mk.inj (Option.some.inj h)).1.symm
      · split at h
        · exact Or.inr (Prod.mk.inj (Option.some.inj h)).1.symm
        · split at h
          · exact Or.inr (Prod.mk.inj (Option.some.inj h)).1.symm
          · exact absurd h (by simp)
  rcases hkind with rfl | rfl <;> decide

theorem regular_lexis : lexis.Regular where
  starts c hc := by
    simp only [lexis, Bool.or_eq_true, Bool.and_eq_true] at hc ⊢
    exact hc.imp_left And.left
  comment _ _ _ _ h := isName_comment? h

/-! ## Types and declarators -/

variable {r : Rule → Parser Unit}

theorem keeps_name : Keeps name := .node_word (.freeWord _)

theorem keeps_typeName : Keeps typeName := .node_word (.freeWord _)

theorem keeps_qualifier : Keeps qualifier := .node rfl (.wordIn _)

theorem keeps_attributeList (hr : ∀ rule, Keeps (r rule)) : Keeps (attributeList r) :=
  .node rfl <| .seq (.wordIn _) <| .seq (.sign _) <| .seq
    (.node rfl <| .seq (.sign _) <| .seq (.sepBy (hr _) (.sign _)) (.sign _))
    (.sign _)

theorem keeps_attributes (hr : ∀ rule, Keeps (r rule)) : Keeps (Parser.many (attributeList r)) :=
  .many (keeps_attributeList hr)

theorem keeps_modifier (hr : ∀ rule, Keeps (r rule)) : Keeps (modifier r) :=
  .orElse (.node rfl (.wordIn _)) <| .orElse keeps_qualifier <|
    .orElse (keeps_attributeList hr) .fail

theorem keeps_memberList (hr : ∀ rule, Keeps (r rule)) : Keeps (memberList r) :=
  .node rfl <| .seq (.sign _) <| .seq (.many (hr _)) (.sign _)

theorem keeps_aggregate (hr : ∀ rule, Keeps (r rule)) {kind : String}
    (hkind : isName kind "" = false) (w : String) : Keeps (aggregate r kind w) :=
  have hbody : Keeps (Parser.field "body" (memberList r)) := .field rfl (keeps_memberList hr)
  have hparts := Keeps.orElse hbody <| .seq (.field_node_word (.freeWord _)) (.opt hbody)
  .node hkind <| .seq (.word _) <| .seq (keeps_attributes hr) <|
    .seq hparts (keeps_attributes hr)

theorem keeps_enumeration (hr : ∀ rule, Keeps (r rule)) : Keeps (enumeration r) := by
  have hbody : Keeps (Parser.field "body" (Parser.node "enumerator_list" (do
      Parser.sign openBrace
      Parser.sepBy (Parser.node "enumerator" (do
        Parser.field "name" name
        Parser.opt (do Parser.sign "="; Parser.field "value" (r .expression)))) comma
      Parser.opt comma
      Parser.sign closeBrace))) :=
    .field rfl <| .node rfl <| .seq (.sign _) <| .seq
      (.sepBy (.node rfl <| .seq (.field_node_word (.freeWord _)) <|
        .opt (.seq (.sign _) (.field rfl (hr _)))) (.sign _)) <|
      .seq (.opt (.sign _)) (.sign _)
  exact .node rfl <| .seq (.word _) <| .seq
    (.orElse hbody <| .seq (.field_node_word (.freeWord _)) <|
      .seq (.opt <| .seq (.sign _) (.field rfl (.node rfl (.wordIn _)))) (.opt hbody))
    (keeps_attributes hr)

theorem keeps_specifier (hr : ∀ rule, Keeps (r rule)) : Keeps (specifier r) := by
  refine .bind .nextWord fun w => ?_
  split
  · exact keeps_aggregate hr rfl _
  · exact keeps_aggregate hr rfl _
  · exact keeps_enumeration hr
  · refine .ite (.bind (.ahead _) fun _ => .ite ?_ (.node rfl (.word _))) (.ite ?_ keeps_typeName)
    · exact .node rfl <| .seq (.field rfl (.node rfl (.word _))) <|
        .many1 (.seq (.many keeps_qualifier) (.wordIn _))
    · exact .node rfl <| .seq (.many1 (.wordIn _)) <| .seq (.many keeps_qualifier) <|
        .opt <| .seq (.field rfl (.node rfl (.wordIn _))) (.many (.wordIn _))

theorem keeps_specifiers (hr : ∀ rule, Keeps (r rule)) : Keeps (specifiers r) :=
  .seq (.many (keeps_modifier hr)) <| .seq (.field rfl (hr _)) (.many (keeps_modifier hr))

theorem keeps_leaf (l : Leaf) : Keeps (leaf l) := by
  cases l with
  | name => exact keeps_name
  | member => exact .node rfl (.freeWord _)
  | type =>
      exact .orElse keeps_typeName <| .orElse (.node rfl (.wordIn _)) (.node_word (.wordIn _))

theorem keeps_dimension (hr : ∀ rule, Keeps (r rule)) : Keeps (dimension r) :=
  .seq (.sign _) <| .seq (.many (.orElse keeps_qualifier (.word _))) <| .seq
    (.opt <| .field rfl <| .orElse (.seq (.sign _) (.peek _)) (hr _))
    (.sign _)

theorem keeps_declarator (hr : ∀ rule, Keeps (r rule)) (l : Leaf) : Keeps (declarator r l) := by
  refine .bind (.ahead _) fun _ => .ite ?_ ?_
  · exact .node rfl <| .seq (.sign _) <|
      .seq (.many (.orElse keeps_qualifier (keeps_attributeList hr))) (.field rfl (hr _))
  · exact .seq
      (.orElse (.seq (.peek _) <| .node rfl <| .seq (.sign _) <| .seq (hr _) (.sign _))
        (keeps_leaf l))
      (.seq
        (.many <| .orElse (.extend rfl rfl <| .seq (.field rfl (hr _)) (keeps_attributes hr)) <|
          .orElse (.extend rfl rfl (keeps_dimension hr)) .fail)
        (.many <| .extend rfl rfl (.many1 (keeps_attributeList hr))))

theorem keeps_abstractDeclarator (hr : ∀ rule, Keeps (r rule)) :
    Keeps (abstractDeclarator r) := by
  refine .bind (.ahead _) fun _ => .ite ?_ ?_
  · exact .node rfl <| .seq (.sign _) <| .seq (.many keeps_qualifier) (.opt (.field rfl (hr _)))
  · exact .seq
      (.orElse (.node rfl <| .seq (.sign _) <| .seq (hr _) (.sign _)) <|
        .orElse (.node rfl (.field rfl (hr _))) <| .orElse (.node rfl (keeps_dimension hr)) .fail)
      (.many <| .orElse (.extend rfl rfl (.field rfl (hr _))) <|
        .orElse (.extend rfl rfl (keeps_dimension hr)) .fail)

theorem keeps_parameters (hr : ∀ rule, Keeps (r rule)) : Keeps (parameters r) :=
  .node rfl <| .seq (.sign _) <| .seq
    (.sepBy
      (.orElse (.node rfl (.sign _)) <| .node rfl <| .seq (keeps_specifiers hr) <| .seq
        (.opt <| .field rfl <| .orElse (.seq (hr _) (.no _)) <| .orElse (hr _) .fail)
        (keeps_attributes hr))
      (.sign _))
    (.sign _)

theorem keeps_typeDescriptor (hr : ∀ rule, Keeps (r rule)) : Keeps (typeDescriptor r) :=
  .node rfl <| .seq (.many keeps_qualifier) <| .seq (.field rfl (hr _)) <|
    .seq (.many keeps_qualifier) (.opt (.field rfl (hr _)))

/-! ## Expressions -/

theorem keeps_number : Keeps number := .node rfl (.lexeme _)

theorem keeps_piece {kind : String} (hkind : isName kind "" = false) (first stop : Nat) :
    Keeps (piece kind first stop) := by
  intro e s s' a _ hs hdone
  obtain ⟨-, rfl⟩ := Outcome.done.inj hdone
  refine ⟨List.forall_mem_cons.mpr ⟨?_, hs.out⟩, hs.comments⟩
  rw [Tree.all_node]
  refine ⟨fun hname => ?_, List.forall_mem_nil _⟩
  rw [hkind] at hname
  exact absurd hname (by simp)

theorem keeps_quotedBody (quote : Char) {kind : String} (hkind : isName kind "" = false)
    (fuel : Nat) : Keeps (quotedBody quote kind fuel) := by
  induction fuel with
  | zero => exact .fail
  | succ fuel ih =>
      refine .bind .position fun i => .bind .source fun s => ?_
      split
      · exact .fail
      · exact .ite (.jumpTo _) <| .ite .fail <|
          .ite (.seq (keeps_piece rfl _ _) ih) (.seq (keeps_piece hkind _ _) ih)

theorem keeps_quoted (quote : Char) {kind inner : String} (hkind : isName kind "" = false)
    (hinner : isName inner "" = false) : Keeps (quoted quote kind inner) :=
  .bind .here fun _ => .bind .source fun _ => .seq (.check _) <|
    .node hkind <| .seq (.consumeTo _) (keeps_quotedBody quote hinner _)

theorem keeps_string : Keeps string := keeps_quoted _ rfl rfl

theorem keeps_character : Keeps (quoted '\'' "char_literal" "character") :=
  keeps_quoted _ rfl rfl

theorem keeps_strings : Keeps strings :=
  .seq keeps_string <| .bind (.ahead _) fun _ =>
    .ite (.extend rfl rfl (.many1 (.orElse keeps_string keeps_name))) (.pure ())

theorem keeps_arguments (hr : ∀ rule, Keeps (r rule)) : Keeps (arguments r) :=
  .node rfl <| .seq (.sign _) <| .seq (.sepBy (.orElse (hr _) (hr _)) (.sign _)) (.sign _)

theorem keeps_initializerList (hr : ∀ rule, Keeps (r rule)) : Keeps (initializerList r) :=
  .node rfl <| .seq (.sign _) <| .seq
    (.sepBy
      (.orElse
        (.node rfl <| .seq
          (.many1 <| .field rfl <|
            .orElse (.node rfl <| .seq (.sign _) (.node rfl (.freeWord _))) <|
            .orElse (.node rfl <| .seq (.sign _) <| .seq (hr _) (.sign _)) <|
            .orElse (.node rfl <| .seq (.sign _) <| .seq (hr _) <| .seq (.sign _) <|
              .seq (hr _) (.sign _)) .fail)
          (.seq (.sign _) (.field rfl (hr _))))
        (hr _))
      (.sign _)) <|
    .seq (.opt (.sign _)) (.sign _)

theorem keeps_cast (hr : ∀ rule, Keeps (r rule)) : Keeps (cast r) := by
  refine .bind (.ahead _) fun _ => .nodeOf ?_ ?_
  · refine .seq (.sign _) <| .seq (.field rfl (hr _)) <| .seq (.sign _) <|
      .bind (.ahead _) fun _ => .ite (.seq (.field rfl (keeps_initializerList hr)) (.pure _)) ?_
    have hvalue : Keeps (do
        Parser.field "value" (r (.operand 11))
        return "cast_expression") := .seq (.field rfl (hr _)) (.pure _)
    exact .ite (.bind .nextWord fun _ => .bind .nextChar fun _ => .seq (.check _) hvalue) hvalue
  · refine .bind fun _ => .bind fun _ => .bind fun _ => .bind fun _ =>
      .ite (.bind fun _ => .pure rfl) ?_
    have hkind : ∀ _ : Unit, Returns (fun kind => isName kind "" = false) (do
        Parser.field "value" (r (.operand 11))
        return "cast_expression") := fun _ => .bind fun _ => .pure rfl
    exact .ite (.bind fun _ => .bind fun _ => .bind hkind) (hkind ())

theorem keeps_definedTest : Keeps definedTest := by
  intro e s s' a he hs hdone
  rw [definedTest] at hdone
  split at hdone
  · refine Keeps.node rfl ?_ e s s' a he hs hdone
    exact .seq (.word _) (.orElse (.between _ _ keeps_name) keeps_name)
  · exact absurd hdone (by simp)

theorem keeps_assembly (hr : ∀ rule, Keeps (r rule)) : Keeps (assembly r) :=
  .node rfl <| .seq (.wordIn _) <| .seq (.many (.node rfl (.wordIn _))) <| .seq (.sign _) <|
    .seq (.field rfl keeps_strings) <| .seq
      (.many <| .seq (.sign _) <| .sepBy
        (.seq (.opt (.between _ _ keeps_name)) <| .seq (.orElse keeps_string keeps_name) <|
          .opt (.between _ _ (hr _)))
        (.sign _))
      (.sign _)

theorem keeps_genericExpression (hr : ∀ rule, Keeps (r rule)) : Keeps (genericExpression r) :=
  .node rfl <| .seq (.word _) <| .seq (.sign _) <| .seq (hr _) <| .seq (.sign _) <| .seq
    (.sepBy1 (.seq (.orElse (.word _) (hr _)) <| .seq (.sign _) (hr _)) (.sign _))
    (.sign _)

theorem keeps_sizeOf (hr : ∀ rule, Keeps (r rule)) : Keeps (C.sizeOf r) :=
  .node rfl <| .seq (.word _) <| .orElse
    (.seq (.peek _) <| .seq (.sign _) <| .seq (.field rfl (hr _)) (.sign _))
    (.field rfl (hr _))

theorem keeps_atom (hr : ∀ rule, Keeps (r rule)) : Keeps (atom r) := by
  refine .bind .nextWord fun w => ?_
  split
  · refine .bind .nextChar fun c => ?_
    split
    · exact .orElse (keeps_cast hr) <| .orElse (.node rfl (.between _ _ (hr _))) <|
        .orElse (.node rfl (.between _ _ (hr _))) .fail
    · exact keeps_strings
    · exact keeps_character
    · exact keeps_number
  case h_8 => exact keeps_sizeOf hr
  case h_9 =>
    exact .node rfl <| .seq (.word _) <| .seq (.sign _) <| .seq (.field rfl (hr _)) <|
      .seq (.sign _) <| .seq (.field rfl (.node rfl (.freeWord _))) (.sign _)
  case h_10 | h_11 | h_12 | h_13 | h_14 =>
    exact .node rfl <| .seq (.word _) (.between _ _ (.field rfl (hr _)))
  case h_15 => exact keeps_genericExpression hr
  case h_16 | h_17 | h_18 => exact keeps_assembly hr
  case h_19 => exact .orElse keeps_definedTest keeps_name
  case h_20 => exact .orElse keeps_strings <| .orElse keeps_character <| .orElse keeps_name .fail
  all_goals exact .node rfl (.word _)

theorem keeps_trailer (hr : ∀ rule, Keeps (r rule)) : Keeps (trailer r) := by
  refine .bind .nextSign fun s => ?_
  split
  case h_1 | h_2 => exact .extend rfl rfl <| .seq (.sign _) (.field rfl (.node rfl (.freeWord _)))
  case h_3 => exact .extend rfl rfl <| .seq (.sign _) <| .seq (.field rfl (hr _)) (.sign _)
  case h_4 => exact .extend rfl rfl (.field rfl (keeps_arguments hr))
  case h_5 | h_6 => exact .extend rfl rfl (.sign _)
  case h_7 => exact .fail

theorem keeps_signed (hr : ∀ rule, Keeps (r rule)) : Keeps (signed r) := by
  refine .bind .nextSign fun s => ?_
  split
  case h_9 => exact .seq (keeps_atom hr) (.many (keeps_trailer hr))
  all_goals exact .node rfl <| .seq (.sign _) (.field rfl (hr _))

theorem keeps_operand (hr : ∀ rule, Keeps (r rule)) (level : Nat) : Keeps (operand r level) :=
  .seq (keeps_signed hr) <| .ite
    (.many <| .bind .nextSign fun _ => .seq (.check _) <|
      .extend rfl rfl <| .seq (.sign _) (.field rfl (hr _)))
    (.pure ())

theorem keeps_expression (hr : ∀ rule, Keeps (r rule)) : Keeps (expression r) := by
  refine .seq (keeps_operand hr 1) <| .bind .nextSign fun s => ?_
  split
  · exact .extend rfl rfl <| .seq (.sign _) <| .seq (.opt (.field rfl (hr _))) <|
      .seq (.sign _) (.field rfl (hr _))
  · exact .bind .lastKind fun _ =>
      .ite (.extend rfl rfl <| .seq (.sign _) (.field rfl (hr _))) (.pure ())

theorem keeps_expressions (hr : ∀ rule, Keeps (r rule)) : Keeps (expressions r) :=
  .seq (hr _) <| .opt <| .extend rfl rfl <| .seq (.sign _) (.field rfl (hr _))

theorem keeps_initializer (hr : ∀ rule, Keeps (r rule)) : Keeps (initializer r) :=
  .bind (.ahead _) fun _ => .ite (keeps_initializerList hr) (hr _)

/-! ## Directives -/

theorem keeps_withinRow {p : Parser Unit} (hp : Keeps p) : Keeps (withinRow p) := by
  intro e s s' a he hs hdone
  rw [withinRow] at hdone
  split at hdone
  next => exact absurd hdone (by simp)
  next b s₁ h₁ =>
    have hsound := hp e { s with rows := true } s₁ b he ⟨hs.out, hs.comments⟩ h₁
    obtain ⟨-, rfl⟩ := Outcome.done.inj hdone
    exact ⟨hsound.out, hsound.comments⟩

theorem keeps_rowEnd : Keeps rowEnd :=
  keeps_withinRow <| .bind .here fun _ => .bind .source fun _ =>
    .ite (.pure ()) <| .seq (.check _) (.consumeTo _)

theorem keeps_directiveText {role : String} (hrole : (role == "name") = false) :
    Keeps (directiveText role) :=
  keeps_withinRow <| .bind .here fun _ => .bind .source fun _ =>
    .ite (.field hrole (.node rfl (.consumeTo _))) (.pure ())

theorem keeps_inclusion (hr : ∀ rule, Keeps (r rule)) : Keeps (inclusion r) :=
  .node rfl <| .seq (.lexeme _) <| .seq
    (keeps_withinRow <| .field rfl <| .orElse keeps_string <| .orElse (.node rfl (.lexeme _)) <|
      .orElse (.seq keeps_name <| .opt <| .extend rfl rfl <| .field rfl (keeps_arguments hr)) .fail)
    keeps_rowEnd

theorem keeps_define : Keeps define := by
  refine .nodeOf ?_ ?_
  · refine .seq (.lexeme _) <| .bind ?_ fun kind => .when ?_ (fun _ => ?_) ()
    · intro e s s' a he hs hdone
      beta_reduce at hdone
      split at hdone
      next => exact absurd hdone (by simp)
      next b s₁ h₁ =>
        obtain ⟨-, rfl⟩ := Outcome.done.inj hdone
        exact keeps_withinRow (.field_node_word (.freeWord _)) e s s₁ b he hs h₁
    · exact keeps_withinRow <| .field rfl <| .node rfl <| .seq (.sign _) <|
        .seq (.sepBy (.orElse keeps_name (.node rfl (.sign _))) (.sign _)) (.sign _)
    · exact .seq (keeps_directiveText rfl) <| .seq keeps_rowEnd (.pure _)
  · refine .bind fun _ => .bind_of (R := fun kind => isName kind "" = false) ?_ fun kind hkind =>
      .when (fun _ => .bind fun _ => .bind fun _ => ?_) ()
    · intro e s s' a hdone
      beta_reduce at hdone
      split at hdone
      next => exact absurd hdone (by simp)
      next =>
        obtain ⟨rfl, -⟩ := Outcome.done.inj hdone
        split <;> decide
    · exact .pure hkind

theorem keeps_call : Keeps call :=
  .node rfl <| .seq (.field rfl (.node rfl (.lexeme _))) <|
    .seq (keeps_directiveText rfl) keeps_rowEnd

theorem keeps_directiveCondition (hr : ∀ rule, Keeps (r rule)) : Keeps (directiveCondition r) :=
  .seq (.field rfl (keeps_withinRow (hr _))) keeps_rowEnd

theorem keeps_alternative (hr : ∀ rule, Keeps (r rule)) {item : Parser Unit} (hitem : Keeps item)
    (depth : Nat) : Keeps (alternative r item depth) := by
  induction depth with
  | zero => exact .fail
  | succ depth ih =>
      have hrest : Keeps (do
          Parser.many item
          Parser.opt (Parser.field "alternative" (alternative r item depth))) :=
        .seq (.many hitem) (.opt (.field rfl ih))
      exact .orElse (.node rfl <| .seq (.lexeme _) (.many hitem)) <|
        .orElse (.node rfl <| .seq (.lexeme _) <| .seq (keeps_directiveCondition hr) hrest) <|
        .orElse (.node rfl <| .seq (.lexeme _) <|
          .seq (.field_node_word (.freeWord _)) hrest) .fail

theorem keeps_conditional (hr : ∀ rule, Keeps (r rule)) {item : Parser Unit}
    (hitem : Keeps item) : Keeps (conditional r item) :=
  have hrest : Keeps (do
      Parser.many item
      Parser.opt (Parser.field "alternative" (alternative r item 256))
      directive ["endif"]) :=
    .seq (.many hitem) <| .seq (.opt (.field rfl (keeps_alternative hr hitem 256))) (.lexeme _)
  .orElse (.node rfl <| .seq (.lexeme _) <| .seq (keeps_directiveCondition hr) hrest) <|
    .orElse (.node rfl <| .seq (.lexeme _) <| .seq (.field_node_word (.freeWord _)) hrest) .fail

theorem keeps_anyDirective (hr : ∀ rule, Keeps (r rule)) {item : Parser Unit}
    (hitem : Keeps item) : Keeps (anyDirective r item) :=
  .orElse (keeps_inclusion hr) <| .orElse keeps_define <|
    .orElse (keeps_conditional hr hitem) <| .orElse keeps_call .fail

/-! ## Declarations and statements -/

theorem keeps_semicolon : Keeps semicolon :=
  .bind .atEnd fun _ => .ite (.sign _) (.pure ())

theorem keeps_initDeclarator (hr : ∀ rule, Keeps (r rule)) : Keeps (initDeclarator r) :=
  .seq (hr _) <| .seq (.opt (keeps_assembly hr)) <| .opt <| .extend rfl rfl <|
    .seq (.sign _) (.field rfl (hr _))

theorem keeps_emptyDeclaration (hr : ∀ rule, Keeps (r rule)) : Keeps (emptyDeclaration r) :=
  .seq (.peek _) <| .seq (hr _) keeps_semicolon

theorem keeps_typeDefinition (hr : ∀ rule, Keeps (r rule)) : Keeps (typeDefinition r) :=
  .node rfl <| .seq (.opt (.word _)) <| .seq (.word _) <| .seq (.many keeps_qualifier) <|
    .seq (.field rfl (hr _)) <| .seq (.many keeps_qualifier) <|
    .seq (.sepBy1 (.field rfl (hr _)) (.sign _)) <| .seq (keeps_attributes hr) (.sign _)

theorem keeps_declaration (hr : ∀ rule, Keeps (r rule)) : Keeps (declaration r) := by
  refine .nodeOf ?_ ?_
  · refine .seq (keeps_specifiers hr) <| .bind .lastKind fun _ => .when (.no _) (fun _ => ?_) ()
    have hdeclarator : Keeps (Parser.field "declarator" (initDeclarator r)) :=
      .field rfl (keeps_initDeclarator hr)
    exact .seq hdeclarator <| .seq
      (.opt <| .bind .nextWord fun _ => .seq (.check _) <| .seq (.many1 (hr _)) (.peek _)) <|
      .bind (.ahead _) fun _ => .ite (.seq (.field rfl (hr _)) (.pure _)) <|
        .seq (.many <| .seq (.sign _) hdeclarator) <| .seq (keeps_attributes hr) <|
        .seq (.sign _) (.pure _)
  · refine .bind fun _ => .bind fun _ => .when (fun _ => ?_) ()
    exact .bind fun _ => .bind fun _ => .bind fun _ => .ite (.bind fun _ => .pure rfl) <|
      .bind fun _ => .bind fun _ => .bind fun _ => .pure rfl

theorem keeps_linkage (hr : ∀ rule, Keeps (r rule)) : Keeps (linkage r) :=
  .node rfl <| .seq (.word _) <| .seq (.field rfl keeps_string) <| .field rfl <| .orElse
    (.node rfl <| .seq (.sign _) <| .seq (.many (hr _)) (.sign _))
    (keeps_declaration hr)

theorem keeps_memberItem (hr : ∀ rule, Keeps (r rule)) : Keeps (memberItem r) := by
  have hbits : Keeps (Parser.opt (Parser.node "bitfield_clause" (do
      Parser.sign ":"
      r .expression))) := .opt <| .node rfl <| .seq (.sign _) (hr _)
  exact .bind .nextChar fun _ => .ite (keeps_anyDirective hr (hr _)) <| .orElse (.sign _) <|
    .node rfl <| .seq (keeps_specifiers hr) <| .seq hbits <|
      .seq (.sepBy (.seq (.field rfl (hr _)) hbits) (.sign _)) <|
        .seq (keeps_attributes hr) (.sign _)

theorem keeps_condition (hr : ∀ rule, Keeps (r rule)) : Keeps (condition r) :=
  .node rfl (.between _ _ (hr _))

theorem keeps_compound (hr : ∀ rule, Keeps (r rule)) : Keeps (compound r) :=
  .node rfl <| .seq (.sign _) <| .seq (.many (hr _)) (.sign _)

theorem keeps_expressionStatement (hr : ∀ rule, Keeps (r rule)) : Keeps (expressionStatement r) :=
  .node rfl <| .seq (.opt (hr _)) (.sign _)

theorem keeps_forStatement (hr : ∀ rule, Keeps (r rule)) : Keeps (forStatement r) :=
  .node rfl <| .seq (.word _) <| .seq (.sign _) <|
    .seq (.orElse (.field rfl (keeps_declaration hr)) <|
      .seq (.opt (.field rfl (hr _))) (.sign _)) <|
    .seq (.opt (.field rfl (hr _))) <| .seq (.sign _) <| .seq (.opt (.field rfl (hr _))) <|
    .seq (.sign _) (.field rfl (hr _))

theorem keeps_statement (hr : ∀ rule, Keeps (r rule)) : Keeps (statement r) := by
  have hcondition : Keeps (Parser.field "condition" (condition r)) :=
    .field rfl (keeps_condition hr)
  have hbranch : Keeps (Parser.many (do
      Parser.no (Parser.wordIn ["case", "default"])
      r .blockItem)) := .many <| .seq (.no _) (hr _)
  have hlabel : Keeps (Parser.field "label"
      (Parser.node "statement_identifier" (Parser.freeWord keywords))) :=
    .field rfl (.node rfl (.freeWord _))
  refine .bind .nextWord fun w => ?_
  split
  · exact .node rfl <| .seq (.word _) <| .seq hcondition <| .seq (.field rfl (hr _)) <|
      .opt <| .field rfl <| .node rfl <| .seq (.word _) (hr _)
  · exact .node rfl <| .seq (.word _) <| .seq hcondition (.field rfl (hr _))
  · exact .node rfl <| .seq (.word _) <| .seq (.field rfl (hr _)) <| .seq (.word _) <|
      .seq hcondition (.sign _)
  · exact keeps_forStatement hr
  · exact .node rfl <| .seq (.word _) <| .seq hcondition (.field rfl (hr _))
  · exact .node rfl <| .seq (.word _) <| .seq (.field rfl (hr _)) <|
      .seq (.opt <| .seq (.sign _) (hr _)) <| .seq (.sign _) hbranch
  · exact .node rfl <| .seq (.word _) <| .seq (.sign _) hbranch
  · exact .node rfl <| .seq (.word _) (.sign _)
  · exact .node rfl <| .seq (.word _) (.sign _)
  · exact .node rfl <| .seq (.word _) <| .seq (.opt (hr _)) (.sign _)
  · exact .node rfl <| .seq (.word _) <| .seq hlabel (.sign _)
  · exact .bind (.ahead _) fun _ => .ite (hr _) <| .bind (.ahead _) fun _ =>
      .ite (.node rfl <| .seq hlabel <| .seq (.sign _) (hr _)) (keeps_expressionStatement hr)

theorem keeps_items (hr : ∀ rule, Keeps (r rule)) :
    Keeps (Parser.oneOf [emptyDeclaration r, declaration r, r .statement]) :=
  .orElse (keeps_emptyDeclaration hr) <| .orElse (keeps_declaration hr) <| .orElse (hr _) .fail

theorem keeps_blockItem (hr : ∀ rule, Keeps (r rule)) : Keeps (blockItem r) :=
  .bind .nextChar fun _ => .ite (keeps_anyDirective hr (hr _)) <|
    .bind (.ahead _) fun _ => .ite (keeps_typeDefinition hr) <|
    .bind (.ahead _) fun _ => .ite (hr _) (keeps_items hr)

theorem keeps_topItem (hr : ∀ rule, Keeps (r rule)) : Keeps (topItem r) :=
  .bind .nextChar fun _ => .ite (keeps_anyDirective hr (hr _)) <|
    .bind (.ahead _) fun _ => .ite (.sign _) <|
    .bind (.ahead _) fun _ => .ite (keeps_linkage hr) <|
    .bind (.ahead _) fun _ => .ite (keeps_typeDefinition hr) (keeps_items hr)

/-! ## Whole texts -/

theorem keeps_grammar (hr : ∀ rule, Keeps (r rule)) (rule : Rule) : Keeps (grammar r rule) := by
  cases rule with
  | topItem => exact keeps_topItem hr
  | blockItem => exact keeps_blockItem hr
  | memberItem => exact keeps_memberItem hr
  | statement => exact keeps_statement hr
  | compound => exact keeps_compound hr
  | expressions => exact keeps_expressions hr
  | expression => exact keeps_expression hr
  | operand level => exact keeps_operand hr level
  | initializer => exact keeps_initializer hr
  | specifier => exact keeps_specifier hr
  | typeDescriptor => exact keeps_typeDescriptor hr
  | declarator l => exact keeps_declarator hr l
  | abstractDeclarator => exact keeps_abstractDeclarator hr
  | parameters => exact keeps_parameters hr
  | oldParameter => exact keeps_declaration hr

end C

/-- The names in the tree of a C text are words. -/
theorem namesWords_parse_c (content : String) :
    (parse .c content).tree.NamesWords C.lexis (parse .c content).source := by
  have hattempt : ∀ repair t, attempt .c (Source.ofString content) repair = .ok t →
      t.NamesWords C.lexis (Source.ofString content) := by
    intro repair t ht
    refine namesWords_parseWhole C.regular_lexis (by decide) ?_ ht
    exact .many (.run (fun _ hr => C.keeps_grammar hr) _ _)
  rw [parse]
  cases hmend : mend (lexisOf .c) (Source.ofString content)
      (attempt .c (Source.ofString content)) with
  | some t => exact of_mend hattempt hmend
  | none =>
      exact Tree.all_node.mpr ⟨fun h => absurd h (by decide), List.forall_mem_nil _⟩

end Syntax
end CodeAtlas
