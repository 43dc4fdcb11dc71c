/-
**Files.**

The requests read and write texts under paths.  Where they do so is left open here: a directory that is
a value, or the files of the machine.  Paths name a file step by step from the working directory.
The directories around a directory that is a value are there, but hold nothing else; what is written to
them is out of sight.

Main definitions:

* `CommandLine.Trouble` — why a file cannot be read or written;
* `CommandLine.Files` — a place to read and write texts;
* `CommandLine.Directory` — a working directory as a value, `Directory.files` as such a place.
-/
set_option autoImplicit false

namespace GraphDelta.CommandLine

/-! ### Places to read and write -/

/-- Why a file cannot be read or written. -/
inductive Trouble where
  | system (reason : String) (number : Nat)
  | notText
  /-- The path holds the character of code zero, at which a system would cut it off. -/
  | cutOff
deriving DecidableEq

namespace Trouble

def missing : Trouble := system "No such file or directory" 2

def notDirectory : Trouble := system "Not a directory" 20

def isDirectory : Trouble := system "Is a directory" 21

def nameTooLong : Trouble := system "File name too long" 36

def message : Trouble → String
  | system reason number => reason ++ " (os error " ++ toString number ++ ")"
  | notText => "stream did not contain valid UTF-8"
  | cutOff => "file name contained an unexpected NUL byte"

end Trouble

/-- A place to read and write texts under paths. -/
structure Files (m : Type → Type) where
  read : String → m (Except Trouble String)
  write : String → String → m (Except Trouble Unit)

/-! ### Paths -/

namespace Path

/-- The steps of a path.  Repeated slashes count as one; a slash at the end is a step that stays where
it is, as the dot is. -/
def steps (path : String) : List String :=
  let names := (path.splitOn "/").filter (· != "")
  if path.endsWith "/" then names ++ ["."] else names

/-- The longest name of a file, in bytes. -/
def longestName : Nat := 255

/-- The longest path, in bytes. -/
def longest : Nat := 4095

end Path

/-- Where a path leads. -/
inductive Spot where
  | inside (names : List String)
  | outside
  | free
deriving DecidableEq

/-! ### A working directory as a value -/

/-- A working directory: texts under the names that lead to them. -/
structure Directory where
  /-- The texts; the first under given names counts. -/
  texts : List (List String × String)

namespace Directory

/-- The directory that holds the given texts under the given paths. -/
def ofList (texts : List (String × String)) : Directory :=
  ⟨texts.map fun (path, text) => (Path.steps path, text)⟩

def text? (d : Directory) (names : List String) : Option String := d.texts.lookup names

def isDirectory (d : Directory) (names : List String) : Bool :=
  names.isEmpty || d.texts.any fun (file, _) => names.isPrefixOf file && names != file

/-- Takes a step of a path. -/
def step (d : Directory) (spot : Spot) (name : String) : Except Trouble Spot :=
  match spot with
  | .free => .error .missing
  | .outside =>
    if name == "." || name == ".." then .ok .outside
    else if name.utf8ByteSize > Path.longestName then .error .nameTooLong
    else .ok .free
  | .inside names =>
    if (d.text? names).isSome then .error .notDirectory
    else if !d.isDirectory names then .error .missing
    else if name == "." then .ok spot
    else if name == ".." then .ok (if names.isEmpty then .outside else .inside names.dropLast)
    else if name.utf8ByteSize > Path.longestName then .error .nameTooLong
    else .ok (.inside (names ++ [name]))

/-- Follows steps of a path.  The path as a whole is looked at first; the empty one leads nowhere. -/
def follow (d : Directory) (path : String) (names : List String) : Except Trouble Spot :=
  if path.toList.contains '\x00' then .error .cutOff
  else if path.isEmpty then .error .missing
  else if path.utf8ByteSize > Path.longest then .error .nameTooLong
  else names.foldlM d.step (if path.startsWith "/" then .outside else .inside [])

def read (d : Directory) (path : String) : Except Trouble String := do
  match ← d.follow path (Path.steps path) with
  | .outside => throw .isDirectory
  | .free => throw .missing
  | .inside names =>
    match d.text? names with
    | some text => return text
    | none => throw (if d.isDirectory names then .isDirectory else .missing)

/-- The directory with a text under a path.  A path that ends in a slash is that of a directory; its
last name is not looked up, only what is in front of it. -/
def write (d : Directory) (path text : String) : Except Trouble Directory := do
  let names := Path.steps path
  match ← d.follow path (if path.endsWith "/" then names.dropLast.dropLast ++ ["."] else names) with
  | .outside => throw .isDirectory
  | .free => return d
  | .inside names =>
    if d.isDirectory names then throw .isDirectory
    else return ⟨(names, text) :: d.texts⟩

/-- The files that `e` does not have, by path. -/
def created (d e : Directory) : List (String × String) :=
  (d.texts.filter fun (names, _) => (e.text? names).isNone).map fun (names, text) =>
    ("/".intercalate names, text)

/-- A directory as a place to read and write. -/
def files : Files (StateM Directory) where
  read path := return (← get).read path
  write path text := do
    match (← get).write path text with
    | .ok d =>
      set d
      return .ok ()
    | .error e => return .error e

end Directory

end GraphDelta.CommandLine
