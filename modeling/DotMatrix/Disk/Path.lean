/-!
# Paths

A path is text whose components are separated by slashes. Empty components and single dots stand
for nothing, two dots for the directory above.

* `Path.components` lists the components that count.
* `Path.parents` lists the directories that the text of a path goes through.
* `Path.fileName?` and `Path.extension?` look at the last component, past trailing slashes and dots.
* `Path.withExtension` cuts the extension of a path off and gives it another one.
-/

namespace DotMatrix

/-- A component of a path. -/
abbrev Name := List Char

namespace Path

/-- Split at each slash. -/
def split : List Char → List Name
  | [] => [[]]
  | c :: cs =>
    if c = '/' then [] :: split cs
    else
      match split cs with
      | [] => [[c]]
      | n :: ns => (c :: n) :: ns

/-- The components that count: neither empty nor a single dot. -/
def components (path : String) : List Name :=
  (split path.toList).filter fun n => n ≠ [] ∧ n ≠ ['.']

/-- Whether a path starts at the root. -/
def isAbsolute (path : String) : Bool := path.toList.head? == some '/'

/-- Whether the text of a path asks for a directory: it ends in a slash or in a component that is a
single dot. -/
def asksDirectory (path : String) : Bool :=
  match (split path.toList).getLast? with
  | some n => n = [] ∨ n = ['.']
  | none => false

/-- Reversed text without the slashes and single-dot components it starts with. -/
def dropTrailing : List Char → List Char
  | '/' :: cs => dropTrailing cs
  | '.' :: '/' :: cs => dropTrailing cs
  | cs => cs

/-- The reversed text of a path up to its last component, and that component in reverse. -/
def lastReversed (path : String) : Name × List Char :=
  (dropTrailing path.toList.reverse).span (· ≠ '/')

/-- The last component, unless it is a dot, two dots, or missing. -/
def fileName? (path : String) : Option Name :=
  let n := (lastReversed path).1.reverse
  if n = [] ∨ n = ['.'] ∨ n = ['.', '.'] then none else some n

/-- Split a file name at its last dot into a stem, which is not empty, and an extension. -/
def splitExtension (n : Name) : Name × Option Name :=
  match n.reverse.span (· ≠ '.') with
  | (ext, '.' :: c :: stem) => ((c :: stem).reverse, some ext.reverse)
  | _ => (n, none)

/-- What follows the last dot of the file name, if something precedes it. -/
def extension? (path : String) : Option Name := do
  let n ← fileName? path
  (splitExtension n).2

/-- The path with the extension of its file name replaced, or added when there is none. A path
without a file name is kept. -/
def replaceExtension (path : String) (ext : Name) : String :=
  match fileName? path with
  | none => path
  | some n =>
    String.ofList ((lastReversed path).2.reverse ++ (splitExtension n).1 ++ '.' :: ext)

/-- The path without as many characters at its end as its extension has. When nothing follows the
file name, the dot before the extension is what it ends in. -/
def cutExtension (path : String) : String :=
  let cs := path.toList
  let n := (extension? path).elim 0 List.length
  String.ofList (cs.take (cs.length - n))

/-- Give a path another extension: the one that it has is cut off, and what is left gets the new
one. A file name with a single dot as its stem is left as two dots; that is no file name, and gets
no extension. -/
def withExtension (path : String) (ext : Name) : String := replaceExtension (cutExtension path) ext

/-- The text of a path up to each slash in it. -/
def parents (path : String) : List String :=
  let names := split path.toList
  (List.range (names.length - 1)).map fun i =>
    String.ofList (['/'].intercalate (names.take (i + 1)))

end Path

end DotMatrix
