import Reparse.Options

/-!
Settings of a whole session. They are read when a request is accepted, so a change holds for later
requests only. The keywords of settings that come from a file or replace earlier ones are
sanitized.
-/

namespace Reparse

/-- Settings that hold for every parse. -/
structure Settings where
  indentation : Option Severity
  taskComments : Keywords
  bindNames : Bool
  version : LanguageVersion
deriving DecidableEq

namespace Settings

/-- The settings that hold where nothing else is said. -/
def standard : Settings where
  indentation := some .warning
  taskComments := .empty
  bindNames := true
  version := .standard

/-- Whether these are the standard settings. -/
def isStandard (s : Settings) : Bool :=
  s.indentation == some .warning && s.taskComments.isEmpty && s.bindNames && s.version == .standard

/-- The options of one parse under these settings. No keywords means no search for them. -/
def options (s : Settings) (version : LanguageVersion) (collect : Bool) : Options where
  version := version
  bindNames := s.bindNames
  indentation := s.indentation
  taskComments := if s.taskComments.isEmpty then none else some s.taskComments
  collect := collect

/-- The settings with their keywords sanitized. -/
def sanitize (s : Settings) : Settings :=
  { s with taskComments := s.taskComments.sanitize }

/-- The settings with other keywords, which are sanitized. -/
def withTaskComments (s : Settings) (keywords : Keywords) : Settings :=
  { s with taskComments := keywords.sanitize }

/-- The settings with another severity of mixed indentation. -/
def withIndentation (s : Settings) (severity : Option Severity) : Settings :=
  { s with indentation := severity }

end Settings

end Reparse
