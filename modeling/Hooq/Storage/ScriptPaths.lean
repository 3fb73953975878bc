import Hooq.Library.Separator
import Hooq.Qt.PlaceMarkers
import Hooq.Qt.Utf8
import Hooq.Storage.Confinement

/-!
# Where scripts are kept

The path of a test's script is made from the location of the test set and the name of the
test: from the name itself, where such a script exists, and from the digits of its bytes
otherwise.
-/

namespace Hooq

namespace FilePath

/-- `QDir::cleanPath`. -/
def cleanPath (path : QString) : QString :=
  if path.head? = some 0x2F then
    marks.rooted (marks.walk [] (marks.components path))
  else
    let cleaned := marks.clean (marks.components path)
    match List.replicate cleaned.ups [0x2E, 0x2E] ++ cleaned.names with
    | [] => if path = [] then [] else [0x2E]
    | names => Library.Separator.join [0x2F] names

/-- A component that is the name of a file or a directory. -/
def IsFileName (name : QString) : Prop :=
  marks.IsName name ∧ 0x2F ∉ name ∧ 0 ∉ name

instance (name : QString) : Decidable (IsFileName name) :=
  inferInstanceAs (Decidable (_ ∧ _ ∧ _))

theorem native_rooted {names : List QString} (solid : ∀ name ∈ names, 0 ∉ name) :
    native (marks.rooted names) = marks.rooted names := by
  have free : 0 ∉ marks.rooted names := by
    rw [Library.Paths.Marks.rooted]
    split
    · decide
    · intro member
      obtain ⟨name, isName, inside⟩ := List.mem_flatMap.mp member
      rcases List.mem_cons.mp inside with slash | inside
      · exact absurd slash (by decide)
      · exact solid name isName inside
  have whole := native_append free []
  rw [List.append_nil] at whole
  exact whole.trans (List.append_nil _)

/-- The system finds what a cleaned path leads to. -/
theorem locate_rooted (current : List QString) {names : List QString}
    (plain : ∀ name ∈ names, IsFileName name) : locate current (marks.rooted names) = names := by
  have head : (marks.rooted names).head? = some 0x2F := marks.head?_rooted names
  rw [locate, if_pos head, native_rooted fun name member => (plain name member).2.2]
  exact marks.walk_rooted (fun name member => (plain name member).1)
    fun name member => (plain name member).2.1

end FilePath

/-! ## Locations -/

namespace Locations

open FilePath

/-- `testSetsLocation`, in the directory that is meant for the data of the program. -/
def testSetsLocation (storageLocation : QString) : QString :=
  cleanPath (storageLocation ++ QString.ofString "/tests")

variable (tables : CharacterTables)

def testSetLocation (storageLocation testSet : QString) : QString :=
  if testSet = [] then
    []
  else
    cleanPath (testSetsLocation storageLocation ++ tables.arg "/%1/" testSet)

def scriptPath (storageLocation : QString) (fileExists : QString → Bool)
    (testSet testName : QString) : QString :=
  let location := testSetLocation tables storageLocation testSet
  let qs := cleanPath (tables.arg (tables.arg "%1/%2.qs" location) testName)
  if fileExists qs then
    qs
  else
    cleanPath (tables.arg (tables.arg "%1/%2.hs" location) testName.toUtf8.toHex)

end Locations

/-- The directory of a test set.  Storage locations are absolute, and a directory's path
has no null character. -/
structure TestSetPlace (tables : CharacterTables) where
  storageLocation : QString
  testSet : QString
  named : testSet ≠ []
  absolute : storageLocation = [] ∨ storageLocation.head? = some 0x2F
  solid : 0 ∉ Locations.testSetLocation tables storageLocation testSet

namespace TestSetPlace

open FilePath

variable {tables : CharacterTables} (place : TestSetPlace tables)

def location : QString :=
  Locations.testSetLocation tables place.storageLocation place.testSet

/-- The names on the way down to the directory. -/
def directory : List QString :=
  marks.walk [] (marks.components
    (Locations.testSetsLocation place.storageLocation ++ tables.arg "/%1/" place.testSet))

theorem location_eq : place.location = marks.rooted place.directory := by
  have start : (place.storageLocation ++ QString.ofString "/tests").head? = some 0x2F := by
    rcases place.absolute with none | absolute
    · rw [none]
      rfl
    · rw [List.head?_append, absolute]
      rfl
  have head : (Locations.testSetsLocation place.storageLocation ++
      tables.arg "/%1/" place.testSet).head? = some 0x2F := by
    rw [List.head?_append, Locations.testSetsLocation, cleanPath, if_pos start,
      marks.head?_rooted]
    rfl
  rw [location, Locations.testSetLocation, if_neg place.named, cleanPath, if_pos head]
  rfl

theorem isFileName_directory : ∀ name ∈ place.directory, IsFileName name := by
  intro name member
  obtain ⟨isName, start | component⟩ := marks.isName_of_mem_walk (by simp) member
  · exact nomatch start
  · refine ⟨isName, (marks.of_mem_components component).1, ?_⟩
    intro null
    apply place.solid
    have held := marks.mem_rooted member null
    rw [← place.location_eq] at held
    exact held

theorem head?_location : place.location.head? = some 0x2F := by
  rw [location_eq]
  exact marks.head?_rooted _

/-- Cleaned, a path through the directory goes on from there. -/
theorem cleanPath_location (text : QString) :
    cleanPath (place.location ++ 0x2F :: text) =
      marks.rooted (marks.walk place.directory (marks.components text)) := by
  have absolute : (place.location ++ 0x2F :: text).head? = some 0x2F := by
    rw [List.head?_append, place.head?_location]
    rfl
  have plain := place.isFileName_directory
  have components : marks.components (place.location ++ 0x2F :: text) =
      marks.components place.location ++ marks.components text :=
    marks.components_append place.location text
  have start : marks.walk [] (marks.components place.location) = place.directory := by
    rw [location_eq]
    exact marks.walk_rooted (fun name member => (plain name member).1)
      fun name member => (plain name member).2.1
  rw [cleanPath, if_pos absolute, components, Library.Paths.Marks.walk_append, start]

/-! ## Paths of scripts -/

/-- The place markers in the location are left alone. -/
def IsUnmarked : Prop :=
  ∀ number ∈ tables.markers place.location, 2 < number

instance : Decidable place.IsUnmarked :=
  inferInstanceAs (Decidable (∀ number ∈ _, _))

/-- The path that is made of a name and an extension. -/
def pathTo (name extension : QString) : QString :=
  cleanPath (place.location ++ 0x2F :: (name ++ extension))

theorem stops_slash (tables : CharacterTables) : tables.Stops 0x2F :=
  tables.stops_ascii (by decide) rfl (by decide)

theorem stops_dot (tables : CharacterTables) : tables.Stops 0x2E :=
  tables.stops_ascii (by decide) rfl (by decide)

/-- The place of the location, and the place of the name before an extension. -/
def template (extension : QString) : QString :=
  CharacterTables.place 1 ++ 0x2F :: (CharacterTables.place 2 ++ 0x2E :: extension)

/-- The two calls put the location and the name where they belong. -/
theorem arg_arg (unmarked : place.IsUnmarked) {back : QString} (inert : 0x25 ∉ back)
    (name : QString) :
    tables.arg (tables.arg (template back) place.location) name =
      place.location ++ 0x2F :: (name ++ 0x2E :: back) := by
  have behind : tables.markers (0x2E :: back) = [] := by
    rw [tables.markers_cons_of_ne (by decide)]
    have plain := tables.markers_inert inert []
    rw [List.append_nil] at plain
    exact plain
  have second : tables.markers (0x2F :: (CharacterTables.place 2 ++ 0x2E :: back)) = [2] := by
    rw [tables.markers_cons_of_ne (by decide), (stops_dot tables).markers_place (by decide), behind]
  have third : tables.markers (place.location ++ [0x2F]) = tables.markers place.location := by
    have split := (stops_slash tables).markers place.location []
    rw [tables.markers_cons_of_ne (by decide), CharacterTables.markers, List.append_nil] at split
    exact split
  have locationIn : tables.arg (template back) place.location =
      place.location ++ 0x2F :: (CharacterTables.place 2 ++ 0x2E :: back) := by
    have empty : ∀ number ∈ tables.markers [], 1 < number := List.forall_mem_nil _
    apply tables.arg_place (stops_slash tables) (by decide) empty
    rw [second]
    decide
  have nameIn :
      tables.arg ((place.location ++ [0x2F]) ++ (CharacterTables.place 2 ++ 0x2E :: back)) name =
        (place.location ++ [0x2F]) ++ (name ++ 0x2E :: back) := by
    apply tables.arg_place (stops_dot tables) (by decide)
    · rw [third]
      exact unmarked
    · rw [behind]
      exact List.forall_mem_nil _
  rw [locationIn]
  simpa using nameIn

theorem scriptPath_eq (unmarked : place.IsUnmarked) (fileExists : QString → Bool)
    (testName : QString) :
    Locations.scriptPath tables place.storageLocation fileExists place.testSet testName =
      if fileExists (place.pathTo testName ".qs") then
        place.pathTo testName ".qs"
      else
        place.pathTo testName.toUtf8.toHex ".hs" := by
  have qs : tables.arg (tables.arg "%1/%2.qs" place.location) testName =
      place.location ++ 0x2F :: (testName ++ QString.ofString ".qs") :=
    place.arg_arg unmarked (show 0x25 ∉ QString.ofString "qs" by decide) testName
  have hs : tables.arg (tables.arg "%1/%2.hs" place.location) testName.toUtf8.toHex =
      place.location ++ 0x2F :: (testName.toUtf8.toHex ++ QString.ofString ".hs") :=
    place.arg_arg unmarked (show 0x25 ∉ QString.ofString "hs" by decide) testName.toUtf8.toHex
  rw [pathTo, pathTo, ← qs, ← hs]
  rfl

/-- A name without a separator is that of a file in the directory. -/
theorem pathTo_eq {name extension : QString} (isName : IsFileName (name ++ extension)) :
    place.pathTo name extension = marks.rooted (place.directory ++ [name ++ extension]) := by
  have component : marks.components (name ++ extension) = [name ++ extension] :=
    marks.components_of_free isName.2.1
  rw [pathTo, cleanPath_location, component]
  exact congrArg marks.rooted (marks.walk_names _ (by simpa using isName.1))

theorem locate_pathTo {name extension : QString} (isName : IsFileName (name ++ extension)) :
    locate [] (place.pathTo name extension) = place.directory ++ [name ++ extension] := by
  rw [place.pathTo_eq isName]
  apply locate_rooted
  intro other member
  rcases List.mem_append.mp member with outside | last
  · exact place.isFileName_directory other outside
  · obtain rfl := List.mem_singleton.mp last
    exact isName

end TestSetPlace

end Hooq
