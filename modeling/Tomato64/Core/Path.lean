import Tomato64.Core.Split
import Tomato64.Core.Text

/-!
# Absolute paths

The directory that an absolute path names when no component of it is a symbolic
link, as the list of the names on the way from the root.
-/

namespace Tomato64.Path

open Text Split

def slash : Byte := 47

variable (directory : List Bytes)

/-- A component of a path, seen from a directory.  The root is its own
parent. -/
def enter (component : Bytes) : List Bytes :=
  if component = bytes "." then directory
  else if component = bytes ".." then directory.dropLast
  else directory ++ [component]

def resolve (path : Bytes) : List Bytes :=
  (words slash path).foldl enter []

@[simp]
theorem enter_dot : enter directory (bytes ".") = directory := by
  rw [enter, if_pos rfl]

@[simp]
theorem enter_dotDot : enter directory (bytes "..") = directory.dropLast := by
  rw [enter, if_neg (by decide), if_pos rfl]

theorem enter_of_ne {component : Bytes} (hdot : component ≠ bytes ".")
    (hdotDot : component ≠ bytes "..") (directory : List Bytes) :
    enter directory component = directory ++ [component] := by
  rw [enter, if_neg hdot, if_neg hdotDot]

/-- A name behind a path is looked up in the directory of the path. -/
theorem resolve_append {name : Bytes} (hne : name ≠ [])
    (hname : slash ∉ name) (path : Bytes) :
    resolve (path ++ slash :: name) = enter (resolve path) name := by
  rw [resolve, words_append_sep, words_of_not_mem hne hname, List.foldl_append]
  rfl

end Tomato64.Path
