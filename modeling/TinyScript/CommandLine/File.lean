/-!
Files as the command line sees them: a small tree of names, and what reading one gives.
-/

namespace TinyScript.CommandLine

/-- Why a file could not be read. -/
inductive ReadError where
  | notFound
  | permissionDenied
  | invalidUtf8
  | other (message : String)
deriving DecidableEq, Repr

def ReadError.message (path : String) : ReadError → String
  | notFound => "cannot find file '" ++ path ++ "'"
  | permissionDenied => "permission denied reading '" ++ path ++ "'"
  | invalidUtf8 => "'" ++ path ++ "' contains invalid UTF-8 data"
  | other message => "error reading '" ++ path ++ "': " ++ message

namespace ReadError

def isDirectory : ReadError := other "Is a directory (os error 21)"

def notDirectory : ReadError := other "Not a directory (os error 20)"

def nameTooLong : ReadError := other "File name too long (os error 36)"

end ReadError

def decode (bytes : ByteArray) : Except ReadError String :=
  match String.fromUTF8? bytes with
  | some s => .ok s
  | none => .error .invalidUtf8

inductive Entry where
  | file (content : ByteArray)
  | directory (entries : List (String × Entry))

namespace Entry

/-- The entry that the parts of a path lead to. A path cannot leave the tree. -/
def find (above : List Entry) (e : Entry) : List String → Except ReadError Entry
  | [] => .ok e
  | part :: rest =>
    match e with
    | file _ => .error .notDirectory
    | directory entries =>
      if part == "" || part == "." then find above e rest
      else if part == ".." then
        match above with
        | [] => find [] e rest
        | up :: above => find above up rest
      else if 255 < part.utf8ByteSize then .error .nameTooLong
      else
        match entries.lookup part with
        | some next => find (e :: above) next rest
        | none => .error .notFound

/-- Reads a path from here. An absolute path starts at a directory with nothing in it, as nothing
stands outside the tree. -/
def read (e : Entry) (path : String) : Except ReadError String :=
  if 4096 ≤ path.utf8ByteSize then .error .nameTooLong
  else
    let start := if path.startsWith "/" then directory [] else e
    match find [] start (path.splitOn "/") with
    | .error x => .error x
    | .ok (file content) => decode content
    | .ok (directory _) => .error .isDirectory

end Entry

end TinyScript.CommandLine
