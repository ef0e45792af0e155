import Keyplan.OptionTable

/-!
Default option values as a project configures them: one table of names and values for each backend
name.
-/

namespace Keyplan

/-- A table of option values and the backend name it is addressed to. -/
structure DefaultTable (β : Type) where
  backend : β
  values : List (String × String)
  deriving DecidableEq, Repr

/-- The default options of each backend that has a table. -/
abbrev Defaults := List (DefaultTable Backend)

namespace Defaults

/-- What is said of a table that is addressed to no backend. -/
def unknownBackendMessage (name : String) : String :=
  "unknown backend: options." ++ name
    ++ match Suggestion.didYouMean name Backend.names with
      | [] => ""
      | best :: _ => " (did you mean " ++ best ++ "?)"

/-- The default options of tables; names are tried in order, and the first one that names no
backend is refused. -/
def ofTables (tables : List (DefaultTable String)) : Except String Defaults :=
  (tables.mergeSort fun a b => decide (a.backend ≤ b.backend)).mapM fun t =>
    match Backend.ofName? t.backend with
    | some b => .ok ⟨b, t.values⟩
    | none => .error (unknownBackendMessage t.backend)

/-- The default options one by one: backends in their order, names in order. -/
def options (d : Defaults) : List DefaultOption :=
  Backend.all.flatMap fun b =>
    (d.filter (·.backend = b)).flatMap fun t =>
      (t.values.mergeSort fun a b => decide (a.1 ≤ b.1)).map fun (name, value) => ⟨b, name, value⟩

end Defaults

end Keyplan
