/-!
# Wording

Texts put together from their parts.
-/

namespace DealersChoice

/-- A list of a text's parts, joined. -/
def sentence (parts : List String) : String :=
  String.join parts

/-- A text in quotes. -/
def quoted (text : String) : String :=
  "`" ++ text ++ "`"

end DealersChoice
