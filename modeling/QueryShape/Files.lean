/-!
# Files

What a program may read, each entry under its path. A path is followed part by part: an empty part
and `.` stay, `..` goes up, and every part but the last has to lead to a directory.
-/

namespace QueryShape

/-- Why there is nothing to read at a path, or not as a text. -/
inductive ReadError where
  | missing
  | denied
  | notADirectory
  | isADirectory
  | nameTooLong
  | notText
  | other (words : String)
deriving DecidableEq, Repr

def ReadError.message : ReadError → String
  | .missing => "No such file or directory (os error 2)"
  | .denied => "Permission denied (os error 13)"
  | .notADirectory => "Not a directory (os error 20)"
  | .isADirectory => "Is a directory (os error 21)"
  | .nameTooLong => "File name too long (os error 36)"
  | .notText => "stream did not contain valid UTF-8"
  | .other words => words

abbrev Content := Except ReadError ByteArray

inductive Entry where
  | file (content : Content)
  | closedDirectory

structure Files where
  entries : List (String × Entry) := []

namespace Files

def ofTexts (texts : List (String × String)) : Files where
  entries := texts.map fun (path, text) => (path, .file (.ok text.toUTF8))

instance : Coe (List (String × String)) Files := ⟨ofTexts⟩

end Files

namespace Files

def parts (path : String) : List String := (path.toList.splitOn '/').map String.ofList

/-- Where a path starts: at the root, or in the working directory. -/
def origin (path : String) : List String :=
  if path.toList.head? = some '/' then ["/"] else []

/-- The address that a part of a path leads to. Above the root there is the root. -/
def enter (here : List String) (part : String) : List String :=
  if part = "" || part = "." then here
  else if part = ".." then
    match here.getLast? with
    | none | some ".." => here ++ [".."]
    | some "/" => here
    | some _ => here.dropLast
  else here ++ [part]

def address (path : String) : List String := (parts path).foldl enter (origin path)

def entryAt? (files : Files) (place : List String) : Option Entry :=
  (files.entries.find? fun (path, _) => address path = place).map Prod.snd

/-- Whether there is a directory: one that leads to an entry, or one that leads out of the known. -/
def isDirectory (files : Files) (place : List String) : Bool :=
  place.all (fun part => part = ".." || part = "/") ||
    files.entries.any fun (path, _) => place.isPrefixOf (address path)

def follow (files : Files) (here : List String) : List String → Except ReadError Content
  | [] => throw .isADirectory
  | part :: rest =>
      let there := enter here part
      if part.utf8ByteSize > 255 then throw .nameTooLong
      else
        match files.entryAt? there with
        | some (.file content) => if rest.isEmpty then return content else throw .notADirectory
        | some .closedDirectory => throw .denied
        | none => if files.isDirectory there then files.follow there rest else throw .missing

def find (files : Files) (path : String) : Except ReadError Content :=
  if path.isEmpty then throw .missing
  else if path.utf8ByteSize ≥ 4096 then throw .nameTooLong
  else files.follow (origin path) (parts path)

def readBytes (files : Files) (path : String) : Except ReadError ByteArray := do
  ← files.find path

/-- Reads the file at a path, which has to hold a text. -/
def read (files : Files) (path : String) : Except ReadError String := do
  match String.fromUTF8? (← files.readBytes path) with
  | some text => return text
  | none => throw .notText

def read? (files : Files) (path : String) : Option String := (files.read path).toOption

/-! ### Extensions -/

/-- The last part of a path that is no sign for staying, and the parts before it. -/
def splitName? (path : String) : Option (List String × String) :=
  match (parts path).reverse.dropWhile fun part => part = "" || part = "." with
  | [] => none
  | name :: before => if name = ".." then none else some (before.reverse, name)

/-- What follows the last point of a file's name, unless the name starts with that point. -/
def extension? (path : String) : Option String := do
  let (_, name) ← splitName? path
  let behind := (name.toList.reverse.takeWhile (· ≠ '.')).reverse
  if behind.length + 1 < name.length then some (String.ofList behind) else none

/-- Whether a path can lead only to a directory, because it goes on behind its last name. -/
def endsInDirectory (path : String) : Bool :=
  (parts path).getLast?.any fun part => part = "" || part = "."

/-- A path with an extension added to the name of its file. The name of a directory gets one only if
it has none yet. -/
def withExtension? (path extension : String) : Option String :=
  if endsInDirectory path && (extension? path).isSome then none
  else
    (splitName? path).map fun (before, name) =>
      String.intercalate "/" (before ++ [name ++ "." ++ extension])

end Files
end QueryShape
