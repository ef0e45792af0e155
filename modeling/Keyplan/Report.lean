import Keyplan.Snippet

/-!
Reports: what went wrong, where, and what may help, as shown to the author of a description.
-/

namespace Keyplan

/-- A second place that explains a report. -/
structure Label where
  span : Span
  message : String
  deriving DecidableEq, Repr

/-- A located message. Empty strings and empty lists are left out when it is shown. -/
structure Report where
  cause : String
  detail : String := ""
  span : Span := {}
  labels : List Label := []
  help : String := ""
  suggestions : List String := []
  deriving DecidableEq, Repr

/-- The source a report quotes: its name, which may be empty, and its text. -/
structure Origin where
  name : String := ""
  text : Text := []

namespace Report

/-- The snippet of a span on lines of its own, if there is one. -/
def quoteLines (source : Text) (span : Span) : Text :=
  match snippet source span with
  | [] => []
  | quoted => Text.lineFeed :: quoted

def headline (r : Report) (name : String) : String :=
  (if name = "" then "" else name ++ ": ")
    ++ (if r.span.isZero then "" else r.span.start.text ++ ": ")
    ++ "error: " ++ r.cause
    ++ (if r.detail = "" then "" else ": " ++ r.detail)

/-- A label and the source line it points at. -/
def labelLines (source : Text) (l : Label) : Text :=
  Text.ofString ("\n    " ++ l.span.start.text ++ ": " ++ l.message) ++ quoteLines source l.span

/-- The closing lines: help and suggestions. -/
def advice (r : Report) : String :=
  (if r.help = "" then "" else "\n    help: " ++ r.help)
    ++ (if r.suggestions = [] then ""
        else "\n    did you mean: " ++ ", ".intercalate r.suggestions)

def render (r : Report) (origin : Origin := {}) : Text :=
  Text.ofString (r.headline origin.name)
    ++ quoteLines origin.text r.span
    ++ r.labels.flatMap (labelLines origin.text)
    ++ Text.ofString r.advice

end Report

end Keyplan
