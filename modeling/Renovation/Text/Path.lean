set_option autoImplicit false

/-!
# Paths

A path is written without what has no meaning in it: repeated slashes, parts that are a single dot,
a slash at the end. Two slashes at the start, and no more, are kept.
-/

namespace Renovation.Text

def pathParts (path : String) : List String :=
  ((path.toList.splitOn '/').map String.ofList).filter fun part => part != "" && part != "."

def pathRoot (path : String) : String :=
  if path.startsWith "//" && !path.startsWith "///" then "//"
  else if path.startsWith "/" then "/"
  else ""

def normalPath (path : String) : String :=
  let written := pathRoot path ++ "/".intercalate (pathParts path)
  if written.isEmpty then "." else written

def pathIn (folder name : String) : String := normalPath (folder ++ "/" ++ name)

end Renovation.Text
