import Reparse.Keywords
import Reparse.LanguageVersion

/-!
What a single parse is asked for. The options decide what is reported and whether names are
listed; which statements there are, and where, does not depend on them.
-/

namespace Reparse

/-- The wishes of one parse. `indentation` is the severity of mixed tabs and spaces (`none`: not
reported), and `taskComments` are the keywords to report (`none`: no search). With `collect` off
nothing is reported at all. -/
structure Options where
  version : LanguageVersion
  bindNames : Bool
  indentation : Option Severity
  taskComments : Option Keywords
  collect : Bool
deriving DecidableEq

namespace Options

/-- The options that hold where nothing else is said. -/
def standard : Options where
  version := .standard
  bindNames := true
  indentation := some .warning
  taskComments := none
  collect := true

/-- Whether these are the standard options. -/
def isStandard (o : Options) : Bool :=
  o.version == .standard && o.bindNames && o.indentation == some .warning && o.taskComments.isNone
    && o.collect

end Options

end Reparse
