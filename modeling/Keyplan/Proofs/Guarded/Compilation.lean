import Keyplan.Proofs.Guarded.Diagram
import Keyplan.Proofs.Guarded.Firmware
import Keyplan.Proofs.Guarded.Format
import Keyplan.Proofs.Guarded.Placement

/-!
# Guarded compilation — no source makes a compilation miss

A description is read and resolved, and the keymap is emitted, with every look into a list guarded
and every loop of the parser bounded. What the targets look up rests on what holds of every keymap
that was read.
-/

namespace Keyplan

namespace Guarded

def emit (t : Target) (m : Keymap) : Guarded String :=
  match t with
  | .firmware => Firmware.Table.render <$> buildTable m
  | .diagram => (fun doc => String.ofList doc.render) <$> buildDocument m
  | .format => String.ofList <$> format m

/-- Compiles the description of a source to a target, or misses. -/
def compile (origin : Origin) (defaults : List DefaultOption) (t : Target) :
    Option (Except Failure String) :=
  (quoting origin) <$> ExceptT.run (do emit t (← read origin.text defaults))

theorem emit_follows (t : Target) {m : Keymap} (hm : m.WellFormed) :
    Follows Eq (emit t m) (t.emit m) := by
  cases t with
  | firmware => exact (buildTable_follows hm).map Firmware.Table.render
  | diagram =>
    have hrender := (buildDocument_follows hm).map fun doc => String.ofList doc.render
    exact hrender
  | format => exact (format_follows hm).map String.ofList

/-- What the keymap of a source gives is what it gives without guards. -/
theorem read_emit_eq (source : Text) (defaults : List DefaultOption) (t : Target) :
    (read source defaults >>= emit t) = plain (Keymap.read source defaults >>= t.emit) := by
  have hrun : Follows Eq (read source defaults >>= emit t)
      (Keymap.read source defaults >>= t.emit) := by
    refine (read_follows source defaults).bind fun m _ hm heq => ?_
    subst heq
    exact emit_follows t (Keymap.wellFormed_of_read hm)
  exact hrun.eq_plain

end Guarded

/-- Whatever bytes a source has, compiling it never looks outside of a list, never uses what is not
there and never goes round a loop without end: it ends with an artifact or with a failure. -/
theorem compile_never_misses (origin : Origin) (defaults : List DefaultOption) (t : Target) :
    Guarded.compile origin defaults t = some (compile origin defaults t) := by
  rw [Guarded.compile, Guarded.read_emit_eq, compile_eq_quoting]
  rfl

end Keyplan
