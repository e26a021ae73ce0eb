import Imprint.Command.Path
import Imprint.Document.Package
import Imprint.Fault

set_option autoImplicit false

/-!
# Directories

A directory holds files under their paths.  A file is a text or a document.  What cannot be read or
made is reported in the words of the operating system.
-/

namespace Imprint.Command

open Document

/-- A file: a text, or a document. -/
inductive File where
  | text (content : String)
  | document (package : Package)
deriving Repr, Inhabited

/-- Files, and folders besides the current one. -/
structure Directory where
  files : List (Path × File)
  folders : List Path
deriving Repr, Inhabited

/-- What is found under a path. -/
inductive Place where
  | file (content : File)
  | folder
  /-- The path leads through a file. -/
  | beyondFile
  | nothing
deriving Repr, Inhabited

/-! ## Faults -/

/-- There is no such file. -/
def noSuchFile (shown : String) : Fault :=
  .error .missingFile ("[Errno 2] No such file or directory: " ++ Text.quote shown)

/-- A file is taken for a folder. -/
def notFolder (shown : String) : Fault :=
  .error (.other "NotADirectoryError") ("[Errno 20] Not a directory: " ++ Text.quote shown)

/-- A folder is taken for a file. -/
def notFile (shown : String) : Fault :=
  .error (.other "IsADirectoryError") ("[Errno 21] Is a directory: " ++ Text.quote shown)

/-- There is no document. -/
def noDocument (shown : String) : Fault :=
  .error (.other "PackageNotFoundError") ("Package not found at '" ++ shown ++ "'")

/-- A document is taken for a text. -/
def notText : Fault :=
  .error .unicodeDecode "the file holds no text"

/-! ## Looking up -/

namespace Directory

/-- The file under a path. -/
def file? (directory : Directory) (path : Path) : Option File :=
  directory.files.lookup path

/-- Whether a path leads to a folder: nowhere, or only back, or to a folder of the directory. -/
def isFolder (directory : Directory) (path : Path) : Bool :=
  path.steps.all (· == "..") || directory.folders.contains path

/-- What is found under a path. -/
def find (directory : Directory) (path : Path) : Place :=
  match directory.file? path with
  | some content => .file content
  | none =>
      if path.beginnings.any fun beginning => (directory.file? beginning).isSome then .beyondFile
      else if directory.isFolder path then .folder
      else .nothing

/-! ## Reading and writing -/

/-- The text of a file.  The path is given by its text. -/
def readText (directory : Directory) (shown : String) : Except Fault String :=
  match directory.find (Path.ofText shown) with
  | .file content =>
      if asksForFolder shown then .error (notFolder shown)
      else
        match content with
        | .text content => .ok content
        | .document _ => .error notText
  | .folder => .error (if shown = "" then noSuchFile shown else notFile shown)
  | .beyondFile => .error (notFolder shown)
  | .nothing => .error (noSuchFile shown)

/-- The document under a path.  In a file, the comments are kept like all other parts. -/
def readDocument (directory : Directory) (path : Path) : Except Fault Package :=
  match directory.find path with
  | .file (.document package) => .ok { package with commentsApart := false }
  | _ => .error (noDocument path.text)

/-- Refuses to make a file where there can be none. -/
def requireWritable (directory : Directory) (path : Path) : Except Fault Unit :=
  match directory.find path with
  | .file _ => .ok ()
  | .folder => .error (notFile path.text)
  | .beyondFile => .error (notFolder path.text)
  | .nothing =>
      if directory.isFolder path.parent then .ok () else .error (noSuchFile path.text)

end Directory

end Imprint.Command
