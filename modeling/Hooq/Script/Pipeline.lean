import Hooq.Script.Passes

/-!
# The pipeline of post-processors

Each `process` function as a post-processor, and the list of them that a set of
options enables.
-/

namespace Hooq

theorem FilterQtInternals.process_suffix {item : Item} {input : List Item} {outcome : Outcome}
    (processed : FilterQtInternals.process item input = .ok outcome) :
    outcome.rest <:+ input := by
  rcases FilterQtInternals.process_ok processed with ⟨_, rfl⟩ | ⟨_, first, rest, rfl, rfl⟩
  · exact List.suffix_rfl
  · dsimp only
    split
    · exact List.suffix_cons first rest
    · exact List.suffix_rfl

theorem StripMouseMovements.process_suffix {item : Item} {input : List Item} {outcome : Outcome}
    (processed : StripMouseMovements.process item input = .ok outcome) :
    outcome.rest <:+ input := by
  fun_induction StripMouseMovements.process item input with
  | case1 | case5 =>
      cases processed
      exact List.suffix_rfl
  | case2 | case4 => cases processed
  | case3 item _ msec next rest _ ih => exact (ih processed).trans ⟨[msec, next], rfl⟩

theorem SimplifyMouseMovements.collect_suffix (target : Target) (iterator : Item)
    (parameters : QVariantMap) (duration : Int32) (input : List Item) :
    (collect target iterator parameters duration input).rest <:+ input := by
  fun_induction collect target iterator parameters duration input with
  | case1 => exact List.suffix_rfl
  | case2 => exact List.nil_suffix
  | case3 => exact List.suffix_cons _ _
  | case4 iterator parameters duration msec next rest _ _ ih =>
      exact ih.trans ⟨[msec, next], rfl⟩

theorem SimplifyMouseMovements.process_suffix (item : Item) (input : List Item) :
    (SimplifyMouseMovements.process item input).rest <:+ input := by
  rw [SimplifyMouseMovements.process]
  split
  · exact collect_suffix _ _ _ _ _
  · exact List.suffix_rfl

theorem SimplifyStrings.collect_suffix {target : Target} {iterator : Item} {text : QString}
    {msec : Item} {input : List Item} {run : Run}
    (collected : collect target iterator text msec input = .ok run) : run.rest <:+ input := by
  fun_induction collect target iterator text msec input with
  | case1 | case2 | case3 | case5 =>
      cases collected
      exact List.suffix_rfl
  | case4 => cases collected
  | case6 iterator text msec parameters _ sleep next rest _ _ _ ih =>
      exact (ih collected).trans ⟨[sleep, next], rfl⟩
  | case7 iterator text msec parameters _ sleep next rest =>
      cases collected
      exact ⟨[sleep, next], rfl⟩

theorem SimplifyStrings.process_suffix {item : Item} {input : List Item} {outcome : Outcome}
    (processed : SimplifyStrings.process item input = .ok outcome) :
    outcome.rest <:+ input := by
  rcases SimplifyStrings.process_ok processed with ⟨_, rfl⟩ | ⟨_, run, collected, rfl⟩
  · exact List.suffix_rfl
  · exact collect_suffix collected

theorem ObjectVariables.process_rest {isLetterOrNumber : QChar → Bool} {known next : Variables}
    {item : Item} {input : List Item} {outcome : Outcome}
    (processed : ObjectVariables.process isLetterOrNumber known item input =
      .ok (next, outcome)) : outcome.rest = input := by
  rcases ObjectVariables.process_ok processed with
    ⟨_, _, rfl⟩ | ⟨path, _, ⟨name, _, _, rfl⟩ | ⟨_, _, rfl⟩⟩
  · rfl
  · rfl
  · rfl

theorem StringVariables.process_rest {known next : List QString} {item : Item}
    {input : List Item} {outcome : Outcome}
    (processed : StringVariables.process known item input = .ok (next, outcome)) :
    outcome.rest = input := by
  rcases StringVariables.process_ok processed with
    ⟨_, _, rfl⟩ | ⟨_, value, _, ⟨_, _, rfl⟩ | ⟨_, _, rfl⟩⟩
  · rfl
  · rfl
  · rfl

/-- A post-processor without members. -/
def PostProcessor.ofProcess (process : Item → List Item → Except Fault Outcome)
    (process_suffix : ∀ {item input outcome}, process item input = .ok outcome →
      outcome.rest <:+ input) : PostProcessor where
  State := Unit
  initial := ()
  process _ item input := (process item input).map fun outcome => ((), outcome)
  process_suffix := by
    intro state item input next outcome processed
    cases result : process item input with
    | error fault =>
        rw [result] at processed
        cases processed
    | ok found =>
        rw [result] at processed
        cases processed
        exact process_suffix result

def filterQtInternals : PostProcessor :=
  .ofProcess FilterQtInternals.process FilterQtInternals.process_suffix

def stripMouseMovements : PostProcessor :=
  .ofProcess StripMouseMovements.process StripMouseMovements.process_suffix

def simplifyMouseMovements : PostProcessor :=
  .ofProcess (fun item input => .ok (SimplifyMouseMovements.process item input)) (by
    intro item input outcome processed
    cases processed
    exact SimplifyMouseMovements.process_suffix item input)

def simplifyStrings : PostProcessor :=
  .ofProcess SimplifyStrings.process SimplifyStrings.process_suffix

def objectVariables (isLetterOrNumber : QChar → Bool) : PostProcessor where
  State := ObjectVariables.Variables
  initial := []
  process := ObjectVariables.process isLetterOrNumber
  process_suffix processed := ObjectVariables.process_rest processed ▸ List.suffix_rfl

def stringVariables : PostProcessor where
  State := List QString
  initial := []
  process := StringVariables.process
  process_suffix processed := StringVariables.process_rest processed ▸ List.suffix_rfl

/-- `XmlToQtScript::Options`. -/
structure Options where
  skipMouseMovements : Bool
  simplifyStrings : Bool
  objectVariables : Bool
  stringVariables : Bool
  simplifyMouseMovements : Bool
  filterQtInternals : Bool
  deriving DecidableEq, Repr

section

variable (isLetterOrNumber : QChar → Bool)

/-- The post-processors that `itemString` runs, in order. -/
def postProcessors (options : Options) : List PostProcessor :=
  (if options.filterQtInternals then [filterQtInternals] else []) ++
  (if options.skipMouseMovements then [stripMouseMovements] else []) ++
  (if options.simplifyMouseMovements then [simplifyMouseMovements] else []) ++
  (if options.simplifyStrings then [simplifyStrings] else []) ++
  (if options.objectVariables then [objectVariables isLetterOrNumber] else []) ++
  (if options.stringVariables then [stringVariables] else [])

/-- The items that `XmlToQtScript::itemString` serialises. -/
def postProcess (options : Options) (items : List Item) : Except Fault (List Item) :=
  runAll (postProcessors isLetterOrNumber options) items (.new [])

end

end Hooq
