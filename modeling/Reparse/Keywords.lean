import Reparse.Diagnostic
import Reparse.Text.Blank

/-!
The table of task-comment keywords and the severity under which each is reported. A keyword stands
in the table once; entering it again replaces its severity. The order of the table carries no
meaning.
-/

namespace Reparse

/-- A table from keywords to severities. -/
structure Keywords where
  entries : List (String × Severity)
  nodup : (entries.map Prod.fst).Nodup
deriving DecidableEq

namespace Keywords

/-- The table without keywords. -/
def empty : Keywords := ⟨[], List.nodup_nil⟩

def isEmpty (t : Keywords) : Bool :=
  t.entries.isEmpty

/-- The severity of a keyword, if it is in the table. -/
def get? (t : Keywords) (key : String) : Option Severity :=
  t.entries.lookup key

/-- The table restricted to the keywords that pass a test. -/
def filter (t : Keywords) (keep : String → Bool) : Keywords :=
  ⟨t.entries.filter fun e => keep e.1,
    (List.filter_sublist.map Prod.fst).nodup t.nodup⟩

/-- The table with one keyword entered, in the place of an earlier entry of it. -/
def insert (t : Keywords) (key : String) (severity : Severity) : Keywords where
  entries := (t.filter (· != key)).entries ++ [(key, severity)]
  nodup := by
    have h := (t.filter (· != key)).nodup
    simp only [List.map_append, List.map_cons, List.map_nil, List.nodup_append]
    refine ⟨h, by simp, ?_⟩
    simp only [filter, List.mem_map, List.mem_filter, List.mem_singleton]
    rintro _ ⟨e, ⟨_, he⟩, rfl⟩ _ rfl heq
    simp [heq] at he

/-- The table with the given entries; of entries of one keyword the last one counts. -/
def ofList (es : List (String × Severity)) : Keywords :=
  es.foldl (fun t e => t.insert e.1 e.2) empty

/-- Two tables are the same if they hold the same entries. -/
def same (t u : Keywords) : Bool :=
  t.entries.length == u.entries.length && t.entries.all fun e => u.get? e.1 == some e.2

/-- Whether a keyword can begin a comment's text: it is not empty and holds no blank. -/
def usable (key : String) : Bool :=
  !key.toList.isEmpty && !key.toList.any Text.isBlank

/-- The table without the keywords that are empty or hold a blank. -/
def sanitize (t : Keywords) : Keywords :=
  t.filter usable

theorem usable_of_mem_sanitize {t : Keywords} {e : String × Severity}
    (h : e ∈ t.sanitize.entries) : usable e.1 := by
  simpa using (List.mem_filter.1 h).2

end Keywords

end Reparse
