/-!
# Quoted text

A text between quotes, in which a quote or a backslash is written with a backslash before it.
-/

namespace LineBasic.Text

/-- A character inside quotes. -/
def escape (c : Char) : List Char := if c == '"' || c == '\\' then ['\\', c] else [c]

/-- A text between quotes. -/
def quoted (s : String) : String :=
  String.ofList ('"' :: s.toList.flatMap escape ++ ['"'])

end LineBasic.Text
