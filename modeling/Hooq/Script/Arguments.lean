import Hooq.Script.Parameters

/-!
# Parameters are read back

Maps and items are printed around other parameters.  With them, the parameters that the
script engine takes for what they are can be told by their parts.
-/

namespace Hooq

open Hooq.Library Hooq.Library.StringLiteral

namespace XmlToQtScript

section

variable (tables : CharacterTables) (qt : QtNamespace)

/-- What the fields of an object at the front of a text are read as. -/
def readFields (fuel : Nat) (text : QString) :
    Option (Expression.Fields × Expression.Text) :=
  Expression.fields tables.alphabet qt.environment fuel (tables.sourceText text)

/-- The text of the entries of a map. -/
abbrev entriesText (map : QVariantMap) : QString :=
  Library.Separator.join (QString.ofString ", ") (entryStrings tables qt.keyName map)

/-- The entries of a map are read back, up to the closing brace. -/
structure FieldsReadBack (map : QVariantMap) (fuel : Nat) (rest : QString) : Prop where
  complete : ArePreserved tables qt map →
    readFields tables qt fuel
        (entriesText tables qt map ++ Expression.closeBrace :: rest) =
      some (parameterFields map, tables.sourceText rest)
  sound : ∀ behind, readFields tables qt fuel
      (entriesText tables qt map ++ Expression.closeBrace :: rest) =
    some (parameterFields map, behind) → ArePreserved tables qt map

section

variable {tables} {qt} {parameter : QVariant} {fuel : Nat} {rest : QString}

/-! ## Maps -/

/-- What stands for an entry of a map. -/
def entryText (key value : QString) : QString :=
  quote :: (key ++ quote :: Expression.colon :: 32 :: value)

/-- The characters of names stand for themselves. -/
theorem plain_of_mem_name {name : QString} (isName : Expression.isName name = true)
    {character : QChar} (member : character ∈ name) :
    character ∉ ([92, 34, 13, 10, 0x25] : List QChar) ∧ isPlain character = true := by
  have ascii := of_decide_eq_true (List.all_eq_true.mp (ascii_name isName) character member)
  have part : (Expression.isLetter character || isDecimalDigit character ||
      character = 95) = true := by
    cases name with
    | nil => cases member
    | cons first name =>
        rw [Expression.isName, Bool.and_eq_true] at isName
        rcases List.mem_cons.mp member with rfl | later
        · rw [isName.1]
          rfl
        · exact List.all_eq_true.mp isName.2 character later
  have plain := of_ascii (fun character =>
    !(Expression.isLetter character || isDecimalDigit character || character = 95) ||
      (decide (character ∉ ([92, 34, 13, 10, 0x25] : List QChar)) && isPlain character))
    (by decide +kernel) ascii
  rw [part, Bool.not_true, Bool.false_or, Bool.and_eq_true, decide_eq_true_eq] at plain
  exact plain

theorem escapeString_name {name : QString} (isName : Expression.isName name = true) :
    escapeString name = name := by
  have plain : ∀ character ∈ name, escapeCharacter character = [character] := by
    intro character member
    have special := (plain_of_mem_name isName member).1
    simp only [List.mem_cons, List.not_mem_nil, or_false, not_or] at special
    simp [escapeCharacter, special]
  rw [escapeString_eq_flatMap]
  calc name.flatMap escapeCharacter
    _ = name.flatMap (fun character => [character]) := List.flatMap_congr plain
    _ = name := List.flatMap_singleton' name

theorem fill_place_two (inserted : QString) :
    tables.fill 2 inserted (CharacterTables.place 2) = inserted := by
  have marked : tables.marker (CharacterTables.place 2) = some (2, 2) := by
    have found := tables.stops_open.marker_place (show 2 < 10 by decide) []
    have nonempty : CharacterTables.place 2 ≠ [] := List.cons_ne_nil _ _
    exact (tables.stops_open.marker nonempty []).symm.trans found
  rw [CharacterTables.place] at marked ⊢
  rw [tables.fill_marked marked]
  exact List.append_nil inserted

theorem arg_entry {key : QString} (isName : Expression.isName key = true)
    (value : QString) :
    tables.arg (tables.arg (QString.ofString "\"%1\": %2") (escapeString key)) value =
      entryText key value := by
  have template : QString.ofString "\"%1\": %2" =
      [quote] ++ (CharacterTables.place 1 ++ quote :: ([Expression.colon, 32] ++
        CharacterTables.place 2)) := by
    decide
  have keyFree : 0x25 ∉ key := by
    intro member
    exact (plain_of_mem_name isName member).1 (by decide)
  have first : tables.arg (QString.ofString "\"%1\": %2") key =
      ([quote] ++ key ++ [quote, Expression.colon, 32]) ++ CharacterTables.place 2 := by
    have numbers : tables.markers (QString.ofString "\"%1\": %2") = [1, 2] := by
      rw [template, tables.markers_inert (by decide),
        tables.stops_quote.markers_place (by decide), tables.markers_cons_of_ne (by decide),
        tables.markers_inert (by decide), tables.markers_place (by decide)]
    have unfilled : tables.fill 1 key (CharacterTables.place 2) = CharacterTables.place 2 := by
      apply tables.fill_of_not_mem
      rw [tables.markers_place (by decide)]
      decide
    rw [tables.arg_eq_fill (show 1 ∈ _ by rw [numbers]; decide) (by rw [numbers]; decide),
      template, tables.fill_inert (by decide), tables.stops_quote.fill_place_self (by decide),
      tables.fill_cons_of_ne (by decide), tables.fill_inert (by decide), unfilled]
    simp only [List.append_assoc, List.cons_append, List.nil_append]
  have inert : 0x25 ∉ [quote] ++ key ++ [quote, Expression.colon, 32] := by
    rw [List.mem_append, List.mem_append, not_or, not_or]
    exact ⟨⟨by decide, keyFree⟩, by decide⟩
  have numbers : tables.markers (([quote] ++ key ++ [quote, Expression.colon, 32]) ++
      CharacterTables.place 2) = [2] := by
    rw [tables.markers_inert inert, tables.markers_place (by decide)]
  rw [escapeString_name isName, first,
    tables.arg_eq_fill (show 2 ∈ _ by rw [numbers]; decide) (by rw [numbers]; decide),
    tables.fill_inert inert, fill_place_two]
  simp only [entryText, List.append_assoc, List.cons_append, List.nil_append]

theorem entryText_append (key value rest : QString) :
    entryText key value ++ rest = entryText key (value ++ rest) := by
  simp only [entryText, List.cons_append, List.append_assoc]

theorem entriesText_last {key : QString} (isName : Expression.isName key = true)
    (value : QVariant) :
    entriesText tables qt (.entry key value .empty) = entryText key (printed tables qt value) := by
  rw [entriesText, entryStrings, arg_entry isName]
  rfl

theorem entriesText_cons {key : QString} (isName : Expression.isName key = true)
    (value : QVariant) {others : QVariantMap} (more : others ≠ .empty) :
    entriesText tables qt (.entry key value others) =
      entryText key (printed tables qt value ++
        Expression.comma :: 32 :: entriesText tables qt others) := by
  have some : entryStrings tables qt.keyName others ≠ [] := by
    cases others with
    | empty => exact absurd rfl more
    | entry key value rest =>
        rw [entryStrings]
        exact List.cons_ne_nil _ _
  rw [entriesText, entryStrings, arg_entry isName, Library.Separator.join_cons some,
    List.append_assoc, entryText_append]
  rfl

theorem sourceText_entry {key : QString} (isName : Expression.isName key = true)
    (text : QString) :
    tables.sourceText (entryText key text) = entryText key (tables.sourceText text) := by
  rw [entryText, tables.sourceText_cons (by decide), tables.sourceText_append,
    tables.sourceText_ascii (ascii_name isName), tables.sourceText_cons (by decide),
    tables.sourceText_cons (by decide), tables.sourceText_cons (by decide)]
  rfl

theorem readFields_entry {key : QString} (isName : Expression.isName key = true)
    (text : QString) :
    readFields tables qt (fuel + 1) (entryText key text) =
      match readExpression tables qt fuel text with
      | some (value, rest) =>
          match Expression.expect tables.alphabet Expression.comma rest with
          | some rest =>
              (Expression.fields tables.alphabet qt.environment fuel rest).map
                fun read => (.field key value read.1, read.2)
          | none =>
              (Expression.expect tables.alphabet Expression.closeBrace rest).map
                fun behind => (.field key value .none, behind)
      | none => none := by
  have plain : ∀ character ∈ key, isPlain character = true := fun character member =>
    (plain_of_mem_name isName member).2
  rw [readFields, sourceText_entry isName, entryText,
    Expression.fields_field (characters_of_isPlain plain _),
    Expression.expression_blank]
  rfl

/-- An entry whose field has the value of the parameter. -/
theorem exists_of_readFields {key : QString} (isName : Expression.isName key = true)
    {text : QString} {value : Expression.Value} {fields : Expression.Fields}
    {behind : QString}
    (found : readFields tables qt (fuel + 1) (entryText key text) =
      some (.field key value fields, behind)) :
    ∃ after, readExpression tables qt fuel text = some (value, after) ∧
      ∀ rest, Expression.expect tables.alphabet Expression.comma after =
        some rest → ∃ behind, Expression.fields tables.alphabet qt.environment fuel rest =
          some (fields, behind) := by
  rw [readFields_entry isName] at found
  split at found
  next shown after read =>
    split at found
    next rest isComma =>
      obtain ⟨read', isRead, same⟩ := Option.map_eq_some_iff.mp found
      cases same
      refine ⟨after, read, fun other isOther => ?_⟩
      rw [isComma, Option.some.injEq] at isOther
      exact isOther ▸ ⟨read'.2, isRead⟩
    next noComma =>
      obtain ⟨_, _, same⟩ := Option.map_eq_some_iff.mp found
      cases same
      refine ⟨after, read, fun other isOther => ?_⟩
      rw [noComma] at isOther
      cases isOther
  next => cases found

/-- The last entry of a map. -/
theorem fieldsReadBack_last {key : QString} (isName : Expression.isName key = true)
    {value : QVariant}
    (reads : ReadsBack tables qt value fuel (Expression.closeBrace :: rest)) :
    FieldsReadBack tables qt (.entry key value .empty) (fuel + 1) rest := by
  have text : entriesText tables qt (.entry key value .empty) ++
      Expression.closeBrace :: rest =
        entryText key (printed tables qt value ++ Expression.closeBrace :: rest) := by
    rw [entriesText_last isName, entryText_append]
  constructor
  · intro preserved
    rw [text, readFields_entry isName, reads.complete preserved.1,
      tables.sourceText_cons (by decide)]
    dsimp only
    rw [Expression.expect_other (by decide) (by decide),
      Expression.expect_simple (by decide)]
    rfl
  · intro behind found
    rw [text] at found
    obtain ⟨after, read, _⟩ := exists_of_readFields isName found
    exact ⟨reads.sound after read, trivial⟩

/-- An entry with others behind it. -/
theorem fieldsReadBack_cons {key : QString} (isName : Expression.isName key = true)
    {value : QVariant} {others : QVariantMap} (more : others ≠ .empty)
    (reads : ReadsBack tables qt value fuel
      (Expression.comma :: 32 :: (entriesText tables qt others ++
        Expression.closeBrace :: rest)))
    (further : FieldsReadBack tables qt others fuel rest) :
    FieldsReadBack tables qt (.entry key value others) (fuel + 1) rest := by
  have text : entriesText tables qt (.entry key value others) ++
      Expression.closeBrace :: rest =
        entryText key (printed tables qt value ++
          Expression.comma :: 32 :: (entriesText tables qt others ++
            Expression.closeBrace :: rest)) := by
    rw [entriesText_cons isName value more, entryText_append, List.append_assoc]
    rfl
  have behindComma : Expression.expect tables.alphabet Expression.comma
      (tables.sourceText (Expression.comma :: 32 :: (entriesText tables qt others ++
        Expression.closeBrace :: rest))) =
      some (32 :: tables.sourceText (entriesText tables qt others ++
        Expression.closeBrace :: rest)) := by
    rw [tables.sourceText_cons (by decide), tables.sourceText_cons (by decide)]
    exact Expression.expect_simple (by decide) _
  constructor
  · intro preserved
    have last := further.complete preserved.2
    rw [readFields] at last
    rw [text, readFields_entry isName, reads.complete preserved.1]
    dsimp only
    rw [behindComma]
    dsimp only
    rw [Expression.fields_blank, last]
    rfl
  · intro behind found
    rw [text] at found
    obtain ⟨after, read, later⟩ := exists_of_readFields isName found
    have preserved := reads.sound after read
    have same := (reads.complete preserved).symm.trans read
    cases same
    obtain ⟨end_, isRead⟩ := later _ behindComma
    rw [Expression.fields_blank] at isRead
    exact ⟨preserved, further.sound end_ isRead⟩

theorem exists_entryText (tables : CharacterTables) (qt : QtNamespace) {key : QString}
    (isName : Expression.isName key = true)
    (value : QVariant) (others : QVariantMap) (rest : QString) :
    ∃ text, entriesText tables qt (.entry key value others) ++ rest = entryText key text := by
  by_cases more : others = .empty
  · rw [more, entriesText_last isName, entryText_append]
    exact ⟨_, rfl⟩
  · rw [entriesText_cons isName value more, entryText_append]
    exact ⟨_, rfl⟩

/-- What is read behind the opening brace of a map with entries. -/
theorem object_entries {map : QVariantMap} (known : areParameters map = true)
    (more : map ≠ .empty) (rest : QString) :
    Expression.object tables.alphabet qt.environment (fuel + 1)
        (tables.sourceText (entriesText tables qt map ++ rest)) =
      (readFields tables qt fuel (entriesText tables qt map ++ rest)).map
        fun read => (.object read.1, read.2) := by
  cases map with
  | empty => exact absurd rfl more
  | entry key value others =>
      rw [areParameters, Bool.and_eq_true, Bool.and_eq_true] at known
      have isName := known.1.1
      obtain ⟨text, shape⟩ := exists_entryText tables qt isName value others rest
      rw [readFields, shape, sourceText_entry isName, entryText]
      exact Expression.object_fields _

theorem printed_map (map : QVariantMap) :
    printed tables qt (.map map) ++ rest = Expression.openBrace ::
      (entriesText tables qt map ++ Expression.closeBrace :: rest) := by
  rw [printed, parametersString, List.append_assoc, List.append_assoc]
  rfl

theorem readsBack_map {map : QVariantMap} (known : areParameters map = true)
    (delimited : Expression.Delimited rest)
    (reads : map ≠ .empty → FieldsReadBack tables qt map fuel rest) :
    ReadsBack tables qt (.map map) (fuel + 3) rest := by
  have ends : Expression.Delimited (tables.sourceText rest) :=
    delimited_sourceText delimited
  have opened : Expression.operand tables.alphabet qt.environment (fuel + 2)
      (tables.sourceText (printed tables qt (.map map) ++ rest)) =
        Expression.object tables.alphabet qt.environment (fuel + 1)
          (tables.sourceText (entriesText tables qt map ++
            Expression.closeBrace :: rest)) := by
    rw [printed_map, tables.sourceText_cons (by decide), Expression.operand_object]
  by_cases empty : map = .empty
  · subst empty
    apply readsBack_of_shown (.object .none)
    · apply Expression.expression_of_operand _ ends
      have nothing : entriesText tables qt .empty ++ Expression.closeBrace :: rest =
          Expression.closeBrace :: rest := by
        rw [entriesText, entryStrings]
        rfl
      rw [opened, nothing, tables.sourceText_cons (by decide)]
      exact Expression.object_empty fuel _
    · exact iff_of_true rfl trivial
  · have entries := reads empty
    rw [object_entries known empty] at opened
    constructor
    · intro preserved
      apply Expression.expression_of_operand _ ends
      rw [opened, entries.complete preserved]
      rfl
    · intro behind found
      have read := Expression.operand_of_expression found fun number same => by cases same
      rw [opened] at read
      obtain ⟨⟨fields, after⟩, isRead, same⟩ := Option.map_eq_some_iff.mp read
      rw [Prod.mk.injEq] at same
      have isFields : fields = parameterFields map :=
        Expression.Value.object.inj same.1
      exact entries.sound after (isFields ▸ isRead)

/-! ## Items -/

def dragWord : QString := "drag"

def lookupWord : QString := "objectFromPath"

theorem printed_item (path targetClass : QString) (parameters : QVariant) :
    printed tables qt (.item (.path path) targetClass dragWord parameters) =
      tables.insertions path dragWord (printed tables qt parameters) := by
  rw [printed, parametersString, statement, if_neg (by decide)]
  exact List.append_nil _

theorem opening_eq : CharacterTables.opening =
    lookupWord ++ Expression.openParenthesis :: [quote] := by
  decide

/-- What is behind the opening quote of a text that begins like an item. -/
theorem sourceText_opening (text : QString) :
    tables.sourceText (CharacterTables.opening ++ text) =
      lookupWord ++ Expression.openParenthesis :: quote :: tables.sourceText text := by
  rw [tables.sourceText_append, tables.sourceText_ascii (by decide), opening_eq,
    List.append_assoc]
  rfl

/-- The path of an item that is read back is copied. -/
theorem isCopied_of_read {path targetClass : QString} {map : QVariantMap}
    {value : Expression.Value} {behind : Expression.Text}
    (found : readExpression tables qt (fuel + 6)
      (printed tables qt (.item (.path path) targetClass dragWord (.map map)) ++ rest) =
        some (.method (.result lookupWord (.string path)) dragWord value, behind)) :
    IsCopied tables path dragWord := by
  have noPercent : 0x25 ∉ dragWord := by decide
  have ordinary : IsOrdinary dragWord (printed tables qt (.map map)) :=
    ⟨noPercent, by decide, tame_map tables qt.keyName map⟩
  obtain ⟨first, second, back, inserted, firstLow, secondLow, filled⟩ :=
    tables.insertions_eq noPercent path (printed tables qt (.map map))
  rw [readExpression, printed_item, inserted, List.append_assoc, List.append_assoc,
    List.cons_append, sourceText_opening] at found
  have read := Expression.operand_of_expression found fun number same => by cases same
  obtain ⟨content, after, isRead, receiver⟩ :=
    Expression.receiver_operand_call (by decide) (by decide) read
  have same : path = content := Expression.Value.string.inj
    (Expression.Value.result.inj receiver).2
  subst same
  have kept := tables.of_read ordinary.methodTame ordinary.tame firstLow secondLow filled isRead
  have unmarked := tables.markers_inert noPercent []
  rw [List.append_nil] at unmarked
  refine ⟨kept.1, kept.2, ?_⟩
  rw [unmarked]
  exact List.forall_mem_nil _

/-- The text of an item whose path is copied. -/
theorem sourceText_item {path targetClass : QString} {map : QVariantMap}
    (copied : IsCopied tables path dragWord) (rest : QString) :
    tables.sourceText
        (printed tables qt (.item (.path path) targetClass dragWord (.map map)) ++ rest) =
      lookupWord ++ Expression.openParenthesis :: quote :: (path ++ quote ::
        Expression.closeParenthesis :: Expression.dot :: (dragWord ++
          Expression.openParenthesis :: tables.sourceText (printed tables qt (.map map) ++
            Expression.closeParenthesis :: rest))) := by
  have whole : tables.sourceText path = path := by
    apply List.filter_eq_self.mpr
    intro character member
    have verbatim := copied.verbatim character member
    rw [CharacterTables.isVerbatim, Bool.and_eq_true] at verbatim
    exact verbatim.2
  have text : printed tables qt (.item (.path path) targetClass dragWord (.map map)) ++ rest =
      CharacterTables.opening ++ (path ++ quote :: Expression.closeParenthesis ::
        Expression.dot :: (dragWord ++ Expression.openParenthesis ::
          (printed tables qt (.map map) ++ Expression.closeParenthesis :: rest))) := by
    rw [printed_item, tables.insertions_of_high copied.path_high copied.method_high,
      CharacterTables.slots]
    simp only [List.append_assoc, List.cons_append, List.nil_append]
    rfl
  rw [text, sourceText_opening, tables.sourceText_append, whole, tables.sourceText_cons (by decide),
    tables.sourceText_cons (by decide), tables.sourceText_cons (by decide),
    tables.sourceText_append dragWord, tables.sourceText_ascii (by decide),
    tables.sourceText_cons (by decide)]

theorem operand_item {path targetClass : QString} {map : QVariantMap}
    (copied : IsCopied tables path dragWord) :
    Expression.operand tables.alphabet qt.environment (fuel + 5)
        (tables.sourceText
          (printed tables qt (.item (.path path) targetClass dragWord (.map map)) ++ rest)) =
      Expression.methods tables.alphabet qt.environment (fuel + 3)
        (.result lookupWord (.string path))
        (Expression.dot :: (dragWord ++ Expression.openParenthesis ::
          tables.sourceText (printed tables qt (.map map) ++
            Expression.closeParenthesis :: rest))) := by
  have plain : ∀ character ∈ path, isPlain character = true := by
    intro character member
    have verbatim := copied.verbatim character member
    rw [CharacterTables.isVerbatim, Bool.and_eq_true] at verbatim
    exact verbatim.1
  have member : lookupWord ∈ scriptFunctions := by decide
  have known : qt.environment.isFunction lookupWord = true := decide_eq_true member
  rw [sourceText_item copied]
  exact Expression.operand_call (by decide) (by decide) known
    (characters_of_isPlain plain _)

theorem readsBack_item {path targetClass : QString} {map : QVariantMap}
    (delimited : Expression.Delimited rest)
    (reads : IsCopied tables path dragWord → ReadsBack tables qt (.map map) (fuel + 1)
      (Expression.closeParenthesis :: rest)) :
    ReadsBack tables qt (.item (.path path) targetClass dragWord (.map map)) (fuel + 6) rest := by
  have ends : Expression.Delimited (tables.sourceText rest) :=
    delimited_sourceText delimited
  constructor
  · intro preserved
    apply Expression.expression_of_operand _ ends
    have argument := (reads preserved.1).complete preserved.2
    rw [readExpression] at argument
    rw [operand_item preserved.1, Expression.methods_method (by decide), argument,
      tables.sourceText_cons (by decide)]
    dsimp only
    rw [Expression.expect_simple (by decide)]
    exact Expression.methods_end _ ends
  · intro behind found
    have copied := isCopied_of_read found
    have read := Expression.operand_of_expression found fun number same => by cases same
    rw [operand_item copied] at read
    obtain ⟨after, argument⟩ := Expression.expression_of_methods (by decide) read
    exact ⟨copied, (reads copied).sound after argument⟩

/-! ## Fuel -/

theorem length_map (map : QVariantMap) :
    (tables.sourceText (printed tables qt (.map map))).length =
      (tables.sourceText (entriesText tables qt map)).length + 2 := by
  have text : printed tables qt (.map map) ++ [] = _ := printed_map map
  have closed : tables.sourceText [Expression.closeBrace] =
      [Expression.closeBrace] := tables.sourceText_ascii (by decide)
  rw [List.append_nil] at text
  rw [text, tables.sourceText_cons (by decide), tables.sourceText_append, List.length_cons,
    List.length_append, closed]
  rfl

theorem length_last (tables : CharacterTables) (qt : QtNamespace) {key : QString}
    (isName : Expression.isName key = true) (value : QVariant) :
    (tables.sourceText (printed tables qt value)).length + 4 ≤
      (tables.sourceText (entriesText tables qt (.entry key value .empty))).length := by
  rw [entriesText_last isName, sourceText_entry isName, entryText]
  simp only [List.length_cons, List.length_append]
  omega

theorem length_cons (tables : CharacterTables) (qt : QtNamespace) {key : QString}
    (isName : Expression.isName key = true) (value : QVariant) {others : QVariantMap}
    (more : others ≠ .empty) :
    (tables.sourceText (printed tables qt value)).length +
        (tables.sourceText (entriesText tables qt others)).length + 6 ≤
      (tables.sourceText (entriesText tables qt (.entry key value others))).length := by
  rw [entriesText_cons isName value more, sourceText_entry isName, entryText,
    tables.sourceText_append, tables.sourceText_cons (by decide),
    tables.sourceText_cons (by decide)]
  simp only [List.length_cons, List.length_append]
  omega

theorem length_item (qt : QtNamespace) {path : QString} (targetClass : QString)
    (map : QVariantMap) (copied : IsCopied tables path dragWord) :
    (tables.sourceText (printed tables qt (.map map))).length + 16 ≤ (tables.sourceText
      (printed tables qt (.item (.path path) targetClass dragWord (.map map)))).length := by
  have text : tables.sourceText
      (printed tables qt (.item (.path path) targetClass dragWord (.map map)) ++ []) = _ :=
    sourceText_item copied []
  rw [List.append_nil] at text
  have size : lookupWord.length = 14 := by decide
  rw [text, tables.sourceText_append]
  simp only [List.length_cons, List.length_append, size]
  omega

theorem length_opening (tables : CharacterTables) (qt : QtNamespace)
    (path targetClass : QString) (map : QVariantMap) :
    16 ≤ (tables.sourceText
      (printed tables qt (.item (.path path) targetClass dragWord (.map map)))).length := by
  obtain ⟨_, _, _, inserted, _⟩ :=
    tables.insertions_eq (by decide : 0x25 ∉ dragWord) path (printed tables qt (.map map))
  rw [printed_item, inserted, sourceText_opening]
  have size : lookupWord.length = 14 := by decide
  simp only [List.length_cons, List.length_append, size]
  omega

theorem arg_call {method : QString} (noPercent : 0x25 ∉ method) (parameters : QString) :
    tables.arg (tables.arg (QString.ofString "%1(%2)") method) parameters =
      method ++ 40 :: (parameters ++ [41]) := by
  have template : QString.ofString "%1(%2)" = CharacterTables.place 1 ++
      40 :: (CharacterTables.place 2 ++
        [41]) := by
    decide
  have inner : tables.markers (40 :: (CharacterTables.place 2 ++
      [41])) = [2] := by
    rw [tables.markers_cons_of_ne (by decide), tables.stops_close.markers_place (by decide)]
    rfl
  have first : tables.arg (QString.ofString "%1(%2)") method =
      method ++ 40 :: (CharacterTables.place 2 ++
        [41]) := by
    have numbers : tables.markers (QString.ofString "%1(%2)") = [1, 2] := by
      rw [template, tables.stops_open.markers_place (by decide), inner]
    rw [tables.arg_eq_fill (show 1 ∈ _ by rw [numbers]; decide) (by rw [numbers]; decide),
      template, tables.stops_open.fill_place_self (by decide),
      tables.fill_of_not_mem (by rw [inner]; decide)]
  have numbers : tables.markers (method ++ 40 ::
      (CharacterTables.place 2 ++ [41])) = [2] := by
    rw [tables.markers_inert noPercent, inner]
  rw [first, tables.arg_eq_fill (show 2 ∈ _ by rw [numbers]; decide) (by rw [numbers]; decide),
    tables.fill_inert noPercent, tables.fill_cons_of_ne (by decide),
    tables.stops_close.fill_place_self (by decide), tables.fill_cons_of_ne (by decide)]
  rfl

theorem printed_untargeted (targetClass : QString) (map : QVariantMap) :
    printed tables qt (.item .null targetClass dragWord (.map map)) =
      dragWord ++ Expression.openParenthesis ::
        (printed tables qt (.map map) ++ [Expression.closeParenthesis]) := by
  rw [printed, parametersString, statement, if_neg (by decide)]
  exact (List.append_nil _).trans (arg_call (by decide) _)

theorem length_call (tables : CharacterTables) (qt : QtNamespace) (targetClass : QString)
    (map : QVariantMap) :
    4 ≤ (tables.sourceText
      (printed tables qt (.item .null targetClass dragWord (.map map)))).length := by
  rw [printed_untargeted, tables.sourceText_append, tables.sourceText_ascii (by decide),
    List.length_append]
  exact Nat.le_add_right _ _

/-- An item without a target calls a function that scripts do not have. -/
theorem readsBack_untargeted (targetClass : QString) (map : QVariantMap) :
    ReadsBack tables qt (.item .null targetClass dragWord (.map map)) (fuel + 4) rest := by
  apply readsBack_of_none
  · rw [printed_untargeted, readExpression, List.append_assoc, tables.sourceText_append,
      tables.sourceText_ascii (by decide), List.cons_append, tables.sourceText_cons (by decide)]
    apply Expression.expression_of_operand_none
    apply Expression.operand_unknown (by decide) (by decide)
    have absent : dragWord ∉ scriptFunctions := by decide
    exact decide_eq_false absent
  · exact id

mutual

theorem readsBack : ∀ parameter : QVariant, isParameter parameter = true →
    ∀ (fuel : Nat) (rest : QString), Expression.Delimited rest →
      Suffices tables qt fuel parameter → ReadsBack tables qt parameter fuel rest
  | .bool value, _, _, _, delimited, enough => readsBack_bool value delimited enough
  | .int value, _, _, _, delimited, enough => readsBack_int value delimited enough
  | .string value, _, _, _, delimited, enough => readsBack_string value delimited enough
  | .map map, known, fuel, rest, delimited, enough => by
      rw [isParameter] at known
      rw [Suffices, length_map] at enough
      obtain ⟨fuel, rfl⟩ := Nat.exists_eq_add_of_le' ((Nat.le_add_left 3 _).trans
        ((Nat.succ_le_succ (Nat.le_refl _)).trans enough))
      apply readsBack_map known delimited
      intro more
      exact fieldsReadBack map known more fuel rest (by omega)
  | .focusReason value, _, _, _, delimited, enough => readsBack_focusReason value delimited enough
  | .key value, _, _, _, delimited, enough => readsBack_key value delimited enough
  | .mouseButton value, _, _, _, delimited, enough => readsBack_mouseButton value delimited enough
  | .mouseButtons value, _, _, _, delimited, enough => readsBack_mouseButtons value delimited enough
  | .orientation value, _, _, _, delimited, enough => readsBack_orientation value delimited enough
  | .keyboardModifier value, _, _, _, delimited, enough =>
      readsBack_keyboardModifier value delimited enough
  | .keyboardModifiers value, _, _, _, delimited, enough =>
      readsBack_keyboardModifiers value delimited enough
  | .item (.path path) targetClass method (.map map), known, fuel, rest, delimited, enough => by
      rw [isParameter, Bool.and_eq_true, decide_eq_true_eq] at known
      swap
      · exact nofun
      obtain ⟨isDrag, known⟩ := known
      have isDrag : method = dragWord := isDrag
      subst isDrag
      have long := length_opening tables qt path targetClass map
      obtain ⟨fuel, rfl⟩ := Nat.exists_eq_add_of_le' ((by decide : 6 ≤ 18).trans
        ((Nat.add_le_add_right long 2).trans enough))
      apply readsBack_item delimited
      intro copied
      have size := length_item qt targetClass map copied
      apply readsBack (.map map) known
      · rintro _ ⟨⟩
        decide
      · rw [Suffices] at enough ⊢
        omega
  | .item .null targetClass method (.map map), known, fuel, rest, _, enough => by
      rw [isParameter, Bool.and_eq_true, decide_eq_true_eq] at known
      swap
      · exact nofun
      obtain ⟨isDrag, known⟩ := known
      have isDrag : method = dragWord := isDrag
      subst isDrag
      have long := length_call tables qt targetClass map
      obtain ⟨fuel, rfl⟩ := Nat.exists_eq_add_of_le' ((by decide : 4 ≤ 6).trans
        ((Nat.add_le_add_right long 2).trans enough))
      exact readsBack_untargeted targetClass map

theorem fieldsReadBack : ∀ map : QVariantMap, areParameters map = true → map ≠ .empty →
    ∀ (fuel : Nat) (rest : QString),
      (tables.sourceText (entriesText tables qt map)).length + 1 ≤ fuel →
        FieldsReadBack tables qt map fuel rest
  | .empty, _, more, _, _, _ => absurd rfl more
  | .entry key value .empty, known, _, fuel, rest, enough => by
      rw [areParameters, Bool.and_eq_true, Bool.and_eq_true] at known
      have size := length_last tables qt known.1.1 value
      obtain ⟨fuel, rfl⟩ := Nat.exists_eq_add_of_le' ((Nat.le_add_left 1 _).trans enough)
      apply fieldsReadBack_last known.1.1
      apply readsBack value known.1.2
      · rintro _ ⟨⟩
        decide
      · rw [Suffices]
        omega
  | .entry key value (.entry next following others), known, _, fuel, rest, enough => by
      rw [areParameters, Bool.and_eq_true, Bool.and_eq_true] at known
      have more : QVariantMap.entry next following others ≠ .empty := nofun
      have size := length_cons tables qt known.1.1 value more
      obtain ⟨fuel, rfl⟩ := Nat.exists_eq_add_of_le' ((Nat.le_add_left 1 _).trans enough)
      apply fieldsReadBack_cons known.1.1 more
      · apply readsBack value known.1.2
        · rintro _ ⟨⟩
          decide
        · rw [Suffices]
          omega
      · exact fieldsReadBack _ known.2 more fuel rest (by omega)

end

/-- The script engine takes the text of a parameter for its value exactly if the parameter is
preserved. -/
theorem scriptValue_printed_iff (known : isParameter parameter = true) :
    scriptValue tables qt (printed tables qt parameter) = some (parameterValue parameter) ↔
      IsPreserved tables qt parameter := by
  have nothing : Expression.Delimited [] := by
    rintro _ ⟨⟩
  have reads : ReadsBack tables qt parameter
      ((tables.sourceText (printed tables qt parameter)).length + 2) [] :=
    readsBack parameter known _ [] nothing (Nat.le_refl _)
  constructor
  · intro found
    rw [scriptValue, Expression.evaluate] at found
    split at found
    next value rest read =>
      split at found
      next =>
        cases found
        apply reads.sound rest
        rw [readExpression, List.append_nil, read]
      next => cases found
    next => cases found
  · intro preserved
    have read := reads.complete preserved
    rw [readExpression, List.append_nil] at read
    rw [scriptValue, Expression.evaluate, read]
    rfl

end

/-- The parse functions build parameters, or none. -/
theorem isParameter_parse {element : Element} {item : Item}
    (parsed : parseElement element = some item) :
    item.parameters = .invalid ∨ isParameter item.parameters = true := by
  cases parses_of_parseElement parsed with
  | windowClosed => exact .inl rfl
  | dragAndDrop =>
      right
      simp only [parseDragAndDropEvent, targetOf]
      cases element.attributes.lookup (QString.ofString "source") <;> rfl
  | _ => exact .inr rfl

/-- What the parse functions build are parameters, and each of them is printed as an
expression with its value exactly if its strings can be held by a literal, its key and its
enumerators have names, its flags have only bits with names, and the path of its item is
copied. -/
theorem parameters_in_scripts :
    (∀ (element : Element) (item : Item), parseElement element = some item →
      item.parameters = .invalid ∨ isParameter item.parameters = true) ∧
    ∀ parameter : QVariant, isParameter parameter = true →
      (scriptValue tables qt (parametersString tables qt.keyName parameter) =
          some (parameterValue parameter) ↔
        IsPreserved tables qt parameter) :=
  ⟨fun _ _ => isParameter_parse, fun _ => scriptValue_printed_iff⟩

end

/-- The enumerators that the compiler names, and a single key. -/
def smallNamespace : QtNamespace where
  property name := if name = QString.ofString "Key_A" then some 0x41 else enumerators.lookup name
  keyName key := if key = 0x41 then some "Key_A" else none
  property_enumerator := by
    intro name value member
    have every : enumerators.all (fun entry =>
        (if entry.1 = QString.ofString "Key_A" then some 0x41 else enumerators.lookup entry.1) =
          some entry.2) = true := by
      decide +kernel
    exact of_decide_eq_true (List.all_eq_true.mp every (name, value) member)
  property_keyName := by
    intro key name named
    split at named
    next isA =>
      cases named
      rw [isA]
      decide
    next => cases named
  isName_keyName := by
    intro key name named
    split at named
    next =>
      cases named
      decide
    next => cases named

/-- A key with two modifiers. -/
def pressedKey : QVariant :=
  .map (.entry "key" (.key 0x41) (.entry "modifiers" (.keyboardModifiers 0x06000000)
    (.entry "text" (.string "\"") .empty)))

theorem pressedKey_in_script :
    scriptValue separatorTables smallNamespace
        (parametersString separatorTables smallNamespace.keyName pressedKey) =
      some (parameterValue pressedKey) := by
  apply ((parameters_in_scripts separatorTables smallNamespace).2 pressedKey
    (by decide +kernel)).mpr
  have modifiers : (0x06000000 : Int32) &&& modifierMask = 0x06000000 := by decide
  refine ⟨rfl, modifiers, ?_, trivial⟩
  intro character member
  rw [List.mem_singleton.mp member]
  decide

/-- A focus reason that Qt does not have is printed as another one. -/
theorem unknownReason_not_preserved :
    ¬ ∀ (tables : CharacterTables) (qt : QtNamespace) (element : Element) (item : Item),
      parseElement element = some item → item.parameters ≠ .invalid →
        scriptValue tables qt (parametersString tables qt.keyName item.parameters) =
          some (parameterValue item.parameters) := by
  intro always
  have parsed : parseElement ⟨"focusChanged", [("target", "window"), ("reason", "8")], []⟩ =
      some ⟨.path "window", [], "setFocus",
        .map (.entry "reason" (.focusReason 8) .empty)⟩ := by
    decide +kernel
  have preserved := (scriptValue_printed_iff (by decide +kernel)).mp
    (always separatorTables smallNamespace _ _ parsed nofun)
  have listed : (8 : Int32) ∈ ([0, 1, 2, 3, 4, 5, 6, 7] : List Int32) := preserved.1
  exact absurd listed (by decide)

end XmlToQtScript

end Hooq
