import Hooq.Library.Program
import Hooq.Script.Arguments

/-!
# Statements are read back

What the script engine makes of the text of a statement: the calls of its item, or, where a
part of the item does not come out of its text, something else.
-/

namespace Hooq

open Hooq.Library Hooq.Library.StringLiteral

namespace XmlToQtScript

section

variable (tables : CharacterTables) (qt : QtNamespace)

/-- A unit that the lexical grammar sees. -/
def IsSource (unit : QChar) : Prop :=
  tables.isFormat unit = false

/-- The argument of a call with the given parameters. -/
def argumentValue : QVariant → Option Expression.Value
  | .invalid => none
  | parameters => some (parameterValue parameters)

/-- The calls that an item stands for. -/
def calls (item : Item) : List Expression.Call :=
  match item.target with
  | .path path =>
      [⟨lookupWord, some (.string path)⟩, ⟨item.method, argumentValue item.parameters⟩]
  | _ => [⟨item.method, argumentValue item.parameters⟩]

/-- There are no parameters, or they come out of the text that they are printed as. -/
def AreKept (parameters : QVariant) : Prop :=
  parameters = .invalid ∨ IsPreserved tables qt parameters

/-- The parts of an item come out of the text of its statement. -/
def IsKept (item : Item) : Prop :=
  match item.target with
  | .null => item.method ∈ scriptFunctions ∧ IsPreserved tables qt item.parameters
  | .path path => IsCopied tables path item.method ∧ AreKept tables qt item.parameters
  | .variable _ => False

/-- A text is read as a statement of a script exactly under a condition. -/
abbrev IsScriptStatement (text : QString) (calls : List Expression.Call) (condition : Prop) :
    Prop :=
  Expression.IsStatement tables.alphabet qt.environment (IsSource tables)
    (tables.sourceText text) calls condition

/-! ## Parameters in parentheses -/

variable {tables} {qt}

theorem isSource_of_mem {text : QString} {unit : QChar} (member : unit ∈ tables.sourceText text) :
    IsSource tables unit := by
  have kept := (List.mem_filter.mp member).2
  rwa [Bool.not_eq_true'] at kept

theorem sourceText_of_source {text : QString} (source : ∀ unit ∈ text, IsSource tables unit) :
    tables.sourceText text = text := by
  apply List.filter_eq_self.mpr
  intro unit member
  rw [source unit member]
  rfl

theorem isSource_semicolon : IsSource tables Expression.semicolon :=
  tables.isFormat_ascii (by decide)

theorem sourceText_ending :
    tables.sourceText [Expression.closeParenthesis, Expression.semicolon] =
      [Expression.closeParenthesis, Expression.semicolon] :=
  tables.sourceText_ascii (by decide)

theorem delimited_parenthesis (rest : QString) :
    Expression.Delimited (Expression.closeParenthesis :: rest) := by
  rintro _ ⟨⟩
  decide

/-- Parameters are read as the argument that they are exactly if they are kept. -/
theorem arguments_parameters {parameters : QVariant}
    (known : parameters = .invalid ∨ isParameter parameters = true) {fuel : Nat}
    (enough : Suffices tables qt fuel parameters) {rest : QString}
    (source : ∀ unit ∈ rest, IsSource tables unit) :
    (AreKept tables qt parameters →
      Expression.arguments tables.alphabet qt.environment fuel
        (Expression.openParenthesis :: (tables.sourceText (printed tables qt parameters) ++
          Expression.closeParenthesis :: rest)) = some (argumentValue parameters, rest)) ∧
    ∀ behind, Expression.arguments tables.alphabet qt.environment fuel
        (Expression.openParenthesis :: (tables.sourceText (printed tables qt parameters) ++
          Expression.closeParenthesis :: rest)) = some (argumentValue parameters, behind) →
      AreKept tables qt parameters := by
  by_cases none : parameters = .invalid
  · subst none
    exact ⟨fun _ => Expression.arguments_empty fuel rest, fun _ _ => .inl rfl⟩
  · have isParameter := known.resolve_left none
    have value : argumentValue parameters = some (parameterValue parameters) := by
      cases parameters <;> first | rfl | exact absurd rfl none
    have reads := readsBack parameters isParameter fuel (Expression.closeParenthesis :: rest)
      (delimited_parenthesis rest) enough
    have text : tables.sourceText (printed tables qt parameters ++
        Expression.closeParenthesis :: rest) = tables.sourceText (printed tables qt parameters) ++
          Expression.closeParenthesis :: rest := by
      rw [tables.sourceText_append, tables.sourceText_cons (by decide),
        sourceText_of_source source]
    rw [value]
    constructor
    · intro kept
      have read := reads.complete (kept.resolve_left none)
      rw [readExpression, text, tables.sourceText_cons (by decide),
        sourceText_of_source source] at read
      exact Expression.arguments_of_expression read
    · intro behind read
      obtain ⟨after, isExpression⟩ := Expression.expression_of_arguments read
      right
      apply reads.sound after
      rw [readExpression, text, isExpression]

/-! ## Statements without a target -/

theorem begins_of_name {name : QString} (isName : Expression.isName name = true) (rest : QString) :
    ∃ unit more, name ++ rest = unit :: more ∧ tables.alphabet.isSpace unit = false := by
  cases name with
  | nil => cases isName
  | cons first name =>
      rw [Expression.isName, Bool.and_eq_true] at isName
      refine ⟨first, name ++ rest, rfl, ?_⟩
      rw [tables.alphabet.isSpace_ascii (Expression.lt_of_isLetter isName.1)]
      exact (Expression.not_of_isLetter isName.1).1

theorem sourceText_name {name : QString} (isName : Expression.isName name = true) :
    tables.sourceText name = name :=
  tables.sourceText_ascii (ascii_name isName)

theorem isFunction_iff {name : QString} :
    qt.environment.isFunction name = true ↔ name ∈ scriptFunctions :=
  decide_eq_true_iff

/-- The call of a function. -/
theorem isStatement_call {method : QString} (isName : Expression.isName method = true)
    {parameters : QVariant} (known : isParameter parameters = true) :
    IsScriptStatement tables qt
      (method ++ Expression.openParenthesis :: (printed tables qt parameters ++
        [Expression.closeParenthesis, Expression.semicolon]))
      [⟨method, some (parameterValue parameters)⟩]
      (method ∈ scriptFunctions ∧ IsPreserved tables qt parameters) := by
  have none : parameters ≠ .invalid := by
    rintro rfl
    cases known
  have value : argumentValue parameters = some (parameterValue parameters) := by
    cases parameters <;> first | rfl | exact absurd rfl none
  have text : tables.sourceText (method ++ Expression.openParenthesis ::
      (printed tables qt parameters ++ [Expression.closeParenthesis, Expression.semicolon])) =
        method ++ Expression.openParenthesis :: (tables.sourceText (printed tables qt parameters) ++
          [Expression.closeParenthesis, Expression.semicolon]) := by
    rw [tables.sourceText_append, sourceText_name isName, tables.sourceText_cons (by decide),
      tables.sourceText_append, sourceText_ending]
  have size : (tables.sourceText (printed tables qt parameters)).length + 3 ≤
      (tables.sourceText (method ++ Expression.openParenthesis :: (printed tables qt parameters ++
        [Expression.closeParenthesis, Expression.semicolon]))).length := by
    rw [text]
    simp only [List.length_append, List.length_cons, List.length_nil]
    omega
  have shape (rest : QString) : tables.sourceText (method ++ Expression.openParenthesis ::
      (printed tables qt parameters ++ [Expression.closeParenthesis, Expression.semicolon])) ++
        rest = method ++ Expression.openParenthesis ::
          (tables.sourceText (printed tables qt parameters) ++ Expression.closeParenthesis ::
            Expression.semicolon :: rest) := by
    rw [text]
    simp
  have arguments (fuel : Nat) (enough : (tables.sourceText (printed tables qt parameters)).length +
      2 ≤ fuel) (rest : QString) (source : ∀ unit ∈ rest, IsSource tables unit) :=
    have whole : ∀ unit ∈ Expression.semicolon :: rest, IsSource tables unit :=
      List.forall_mem_cons.mpr ⟨isSource_semicolon, source⟩
    arguments_parameters (.inr known) enough whole
  constructor
  · rw [text]
    exact begins_of_name isName _
  · exact fun unit member => isSource_of_mem member
  · intro kept fuel rest enough source
    obtain ⟨fuel, rfl⟩ := Nat.exists_eq_add_of_le' ((Nat.le_add_left 1 _).trans enough)
    have read := (arguments fuel (by omega) rest source).1 (.inr kept.2)
    rw [value] at read
    rw [shape]
    exact Expression.statement_of_chain (isFunction_iff.mpr kept.1)
      (Expression.chain_last isName read)
  · intro fuel rest behind enough source read
    obtain ⟨fuel, rfl⟩ := Nat.exists_eq_add_of_le' ((Nat.le_add_left 1 _).trans enough)
    obtain ⟨isFunction, after, isChain⟩ := Expression.chain_of_statement read
    rw [shape] at isChain
    obtain ⟨-, last, isArgument⟩ := Expression.arguments_of_chain isName isChain
    rw [← value] at isArgument
    have kept := (arguments fuel (by omega) rest source).2 last isArgument
    exact ⟨isFunction_iff.mp isFunction, kept.resolve_left none⟩

/-- A method without parentheses. -/
theorem isStatement_bare {method : QString} (isName : Expression.isName method = true)
    (calls : List Expression.Call) :
    IsScriptStatement tables qt (method ++ [Expression.semicolon]) calls False := by
  have text : tables.sourceText (method ++ [Expression.semicolon]) =
      method ++ [Expression.semicolon] := by
    rw [tables.sourceText_append, sourceText_name isName, tables.sourceText_ascii (by decide)]
  constructor
  · rw [text]
    exact begins_of_name isName _
  · exact fun unit member => isSource_of_mem member
  · exact fun impossible => impossible.elim
  · intro fuel rest behind enough _ read
    obtain ⟨fuel, rfl⟩ := Nat.exists_eq_add_of_le' ((Nat.le_add_left 1 _).trans enough)
    obtain ⟨-, after, isChain⟩ := Expression.chain_of_statement read
    rw [text, List.append_assoc, List.singleton_append,
      Expression.chain_semicolon isName] at isChain
    cases isChain

/-! ## Statements for the object at a path -/

section

variable {path method : QString} {parameters : QVariant}

/-- The text of a statement whose path is copied, without its format characters. -/
theorem sourceText_copied (copied : IsCopied tables path method)
    (isName : Expression.isName method = true) (rest : QString) :
    tables.sourceText (tables.insertions path method (printed tables qt parameters) ++
        [Expression.semicolon]) ++ rest =
      lookupWord ++ Expression.openParenthesis :: quote :: (path ++ quote ::
        Expression.closeParenthesis :: Expression.dot :: (method ++
          Expression.openParenthesis :: (tables.sourceText (printed tables qt parameters) ++
            Expression.closeParenthesis :: Expression.semicolon :: rest))) := by
  have whole : tables.sourceText path = path := by
    apply sourceText_of_source
    intro character member
    have verbatim := copied.verbatim character member
    rw [CharacterTables.isVerbatim, Bool.and_eq_true, Bool.not_eq_true'] at verbatim
    exact verbatim.2
  have text : tables.insertions path method (printed tables qt parameters) ++
      [Expression.semicolon] =
        CharacterTables.opening ++ (path ++ quote :: Expression.closeParenthesis ::
          Expression.dot :: (method ++ Expression.openParenthesis ::
            (printed tables qt parameters ++
              [Expression.closeParenthesis, Expression.semicolon]))) := by
    rw [tables.insertions_of_high copied.path_high copied.method_high, CharacterTables.slots]
    simp only [List.append_assoc, List.cons_append, List.nil_append]
    rfl
  rw [text, sourceText_opening, tables.sourceText_append, whole, tables.sourceText_cons (by decide),
    tables.sourceText_cons (by decide), tables.sourceText_cons (by decide),
    tables.sourceText_append method, sourceText_name isName, tables.sourceText_cons (by decide),
    tables.sourceText_append, sourceText_ending]
  simp

/-- The first call of a statement whose path is copied. -/
theorem chain_copied (copied : IsCopied tables path method)
    (isName : Expression.isName method = true) (fuel : Nat) (rest : QString) :
    Expression.chain tables.alphabet qt.environment (fuel + 3)
        (tables.sourceText (tables.insertions path method (printed tables qt parameters) ++
          [Expression.semicolon]) ++ rest) =
      (Expression.chain tables.alphabet qt.environment (fuel + 2) (method ++
        Expression.openParenthesis :: (tables.sourceText (printed tables qt parameters) ++
          Expression.closeParenthesis :: Expression.semicolon :: rest))).map
            fun read => (⟨lookupWord, some (.string path)⟩ :: read.1, read.2) := by
  have plain : ∀ character ∈ path, isPlain character = true := by
    intro character member
    have verbatim := copied.verbatim character member
    rw [CharacterTables.isVerbatim, Bool.and_eq_true] at verbatim
    exact verbatim.1
  rw [sourceText_copied copied isName]
  apply Expression.chain_cons (by decide) isName
  apply Expression.arguments_of_expression
  exact Expression.expression_of_operand
    (Expression.operand_string (characters_of_isPlain plain _)) (delimited_parenthesis _)

/-- A path that is read is copied. -/
theorem isCopied_of_chain (ordinary : IsOrdinary method (printed tables qt parameters))
    {fuel : Nat} {rest : QString} (source : ∀ unit ∈ rest, IsSource tables unit)
    {others : List Expression.Call} {behind : Expression.Text}
    (read : Expression.chain tables.alphabet qt.environment (fuel + 3)
      (tables.sourceText (tables.insertions path method (printed tables qt parameters) ++
        [Expression.semicolon]) ++ rest) =
          some (⟨lookupWord, some (.string path)⟩ :: others, behind)) :
    IsCopied tables path method := by
  obtain ⟨first, second, back, inserted, firstLow, secondLow, filled⟩ :=
    tables.insertions_eq ordinary.noPercent path (printed tables qt parameters)
  have whole : tables.sourceText (tables.insertions path method (printed tables qt parameters) ++
      [Expression.semicolon]) ++ rest =
        lookupWord ++ Expression.openParenthesis :: quote :: tables.sourceText
          (tables.fill second (printed tables qt parameters) (tables.fill first method path) ++
            quote :: (back ++ Expression.semicolon :: rest)) := by
    rw [← sourceText_opening, inserted]
    conv_lhs => rw [← sourceText_of_source source]
    rw [← tables.sourceText_append]
    simp
  rw [whole] at read
  obtain ⟨-, after, isArgument⟩ := Expression.arguments_of_chain (by decide) read
  obtain ⟨last, isExpression⟩ := Expression.expression_of_arguments isArgument
  obtain ⟨content, isContent, same⟩ := Expression.expression_quote isExpression
  cases same
  have kept := tables.of_read ordinary.methodTame ordinary.tame firstLow secondLow filled isContent
  have unmarked := tables.markers_inert ordinary.noPercent []
  rw [List.append_nil] at unmarked
  refine ⟨kept.1, kept.2, ?_⟩
  rw [unmarked]
  exact List.forall_mem_nil _

/-- The call of a method on the object at a path. -/
theorem isStatement_path (ordinary : IsOrdinary method (printed tables qt parameters))
    (isName : Expression.isName method = true)
    (known : parameters = .invalid ∨ isParameter parameters = true) :
    IsScriptStatement tables qt
      (tables.insertions path method (printed tables qt parameters) ++ [Expression.semicolon])
      [⟨lookupWord, some (.string path)⟩, ⟨method, argumentValue parameters⟩]
      (IsCopied tables path method ∧ AreKept tables qt parameters) := by
  obtain ⟨first, second, back, inserted, -⟩ :=
    tables.insertions_eq ordinary.noPercent path (printed tables qt parameters)
  have shape : tables.sourceText (tables.insertions path method (printed tables qt parameters) ++
      [Expression.semicolon]) = lookupWord ++ Expression.openParenthesis :: quote ::
        tables.sourceText (tables.fill second (printed tables qt parameters)
          (tables.fill first method path) ++ quote :: (back ++ [Expression.semicolon])) := by
    rw [← sourceText_opening, inserted]
    simp
  have long : 16 ≤ (tables.sourceText (tables.insertions path method
      (printed tables qt parameters) ++ [Expression.semicolon])).length := by
    have size : lookupWord.length = 14 := by decide
    rw [shape, List.length_append, size]
    simp only [List.length_cons]
    omega
  have room (copied : IsCopied tables path method) (fuel : Nat)
      (enough : (tables.sourceText (tables.insertions path method
        (printed tables qt parameters) ++ [Expression.semicolon])).length + 2 ≤ fuel + 3) :
      Suffices tables qt (fuel + 1) parameters := by
    have text : tables.sourceText (tables.insertions path method
        (printed tables qt parameters) ++ [Expression.semicolon]) ++ [] = _ :=
      sourceText_copied copied isName []
    rw [List.append_nil] at text
    rw [text] at enough
    simp only [List.length_append, List.length_cons, List.length_nil] at enough
    omega
  constructor
  · rw [shape]
    exact begins_of_name (by decide) _
  · exact fun unit member => isSource_of_mem member
  · rintro ⟨copied, kept⟩ fuel rest enough source
    obtain ⟨fuel, rfl⟩ := Nat.exists_eq_add_of_le' (show 3 ≤ fuel by omega)
    have read := (arguments_parameters known (room copied fuel enough)
      (List.forall_mem_cons.mpr ⟨isSource_semicolon, source⟩)).1 kept
    have member : lookupWord ∈ scriptFunctions := by decide
    apply Expression.statement_of_chain (isFunction_iff.mpr member)
    rw [chain_copied copied isName, Expression.chain_last isName read]
    rfl
  · intro fuel rest behind enough source read
    obtain ⟨fuel, rfl⟩ := Nat.exists_eq_add_of_le' (show 3 ≤ fuel by omega)
    obtain ⟨-, after, isChain⟩ := Expression.chain_of_statement read
    have copied := isCopied_of_chain ordinary source isChain
    rw [chain_copied copied isName] at isChain
    obtain ⟨later, isLater, same⟩ := Option.map_eq_some_iff.mp isChain
    obtain ⟨calls, last⟩ := later
    cases same
    obtain ⟨-, stop, isArgument⟩ := Expression.arguments_of_chain isName isLater
    exact ⟨copied, (arguments_parameters known (room copied fuel enough)
      (List.forall_mem_cons.mpr ⟨isSource_semicolon, source⟩)).2 stop isArgument⟩

end

end

end XmlToQtScript

end Hooq
