import DkimLite.Rust.Bytes

/-!
# Paths (`std::path`)

A path is compared, and taken apart, by its components: separators that follow each other count once, and
neither a separator at the end nor a `.` in between counts at all.
-/

namespace Rust

def SLASH : UInt8 := 47
def DOT : UInt8 := 46

/-- A reversed absolute path without separators and `.` components at its end. -/
def trimBack : Bytes → Bytes
  | [] => []
  | b :: rev =>
    if b = SLASH then trimBack rev
    else if b = DOT ∧ rev.head? = some SLASH then trimBack rev
    else b :: rev

/-- `Path::file_name`, of an absolute path -/
def fileName (path : Bytes) : Option Bytes :=
  match trimBack path.reverse with
  | [] => none
  | rev =>
    let name := (rev.takeWhile (· != SLASH)).reverse
    if name = [DOT, DOT] then none else some name

/-- `Path::parent`, of an absolute path -/
def parent (path : Bytes) : Option Bytes :=
  match trimBack path.reverse with
  | [] => none
  | rev =>
    let dir := (trimBack (rev.dropWhile (· != SLASH))).reverse
    some (if dir.isEmpty then [SLASH] else dir)

example : (fileName (ascii "/etc//x/./"), parent (ascii "/etc//x/./")) = (some (ascii "x"), some (ascii "/etc")) := by decide
example : (fileName (ascii "/x"), parent (ascii "/x"), fileName (ascii "/.."), parent (ascii "//")) =
    (some (ascii "x"), some (ascii "/"), none, none) := by decide

/-- Nothing follows the file name. -/
def EndsInName (path : Bytes) : Prop := ∃ name, fileName path = some name ∧ name <:+ path

/-- `Path::components`: whether it starts at the root, and the names. A `.` counts only in front. -/
def components (path : Bytes) : Bool × List Bytes :=
  let names := (path.splitOn SLASH).filter fun name => !name.isEmpty
  if path.head? = some SLASH then (true, names.filter (· != [DOT]))
  else (false, names.take 1 ++ (names.drop 1).filter (· != [DOT]))

example : components (ascii "/run//d/./s/") = components (ascii "/run/d/s") ∧ components (ascii "./s") ≠ components (ascii "s") := by
  decide

end Rust
