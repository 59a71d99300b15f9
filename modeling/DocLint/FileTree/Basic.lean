-- SUMMARY: File systems as values: files, directories, links, pipes and devices, with what may be done with them; the faults of using them.
import DocLint.Path

/-! # File trees

A file tree is a directory with everything below it, together with the directory that
relative paths start at. A directory keeps its entries in the order of their names. What
may be done with a file or a directory is said for whoever runs the program.

Some things are left out. Nothing blocks: a pipe is read as if it were empty, where a
reader would be kept until someone writes to it, and a device comes to an end. There is
always room for what is written, and what is made may be used by its maker. The working
directory has a path, so it has not been removed.
-/

namespace DocLint

/-- Why an operation on a file system fails. -/
inductive FileTree.Fault where
  | notFound
  | denied
  | notDirectory
  | isDirectory
  | nameTooLong
  | tooManyLinks
  /-- There is nothing behind a device, or it is a socket. -/
  | noDevice
  | noSpace
  /-- A path with a zero byte in it. -/
  | zeroByte
  /-- A content that is not UTF-8. -/
  | notText
  deriving DecidableEq, Repr

def FileTree.Fault.message : FileTree.Fault → String
  | .notFound => "No such file or directory (os error 2)"
  | .denied => "Permission denied (os error 13)"
  | .notDirectory => "Not a directory (os error 20)"
  | .isDirectory => "Is a directory (os error 21)"
  | .nameTooLong => "File name too long (os error 36)"
  | .tooManyLinks => "Too many levels of symbolic links (os error 40)"
  | .noDevice => "No such device or address (os error 6)"
  | .noSpace => "No space left on device (os error 28)"
  | .zeroByte => "file name contained an unexpected NUL byte"
  | .notText => "stream did not contain valid UTF-8"

/-- What may be done with a file or a directory. -/
structure Access where
  /-- A file may be read, and a directory may be listed. -/
  read : Bool
  /-- A file may be written, and a directory may get entries. -/
  write : Bool
  /-- Names may be looked up in a directory. It is nothing to a file. -/
  search : Bool
  deriving DecidableEq, Repr

namespace Access

def full : Access := ⟨true, true, true⟩

def nothing : Access := ⟨false, false, false⟩

end Access

/-- A device or a socket, by what comes of reading it to its end and of writing to it. -/
structure Device where
  onRead : Except FileTree.Fault Bytes
  onWrite : Except FileTree.Fault Unit
  deriving Repr

namespace Device

/-- Has nothing to read, and takes everything. -/
def null : Device := ⟨.ok [], .ok ()⟩

end Device

/-- Something in a file system. -/
inductive Node where
  | file (access : Access) (content : Bytes)
  | dir (access : Access) (entries : List (Name × Node))
  /-- A symbolic link and the path it holds. -/
  | link (target : Path)
  | fifo
  | device (d : Device)
  deriving Repr

/-- A file system and a working directory. -/
structure FileTree where
  /-- The root directory. -/
  root : Node
  /-- The names that lead from the root to the working directory. -/
  cwd : List Name
  deriving Repr

namespace Node

def isDir : Node → Bool
  | .dir _ _ => true
  | _ => false

def isLink : Node → Bool
  | .link _ => true
  | _ => false

/-- What may be done with a node. Nothing but files and directories has a say in it. -/
def access : Node → Access
  | .file access _ => access
  | .dir access _ => access
  | _ => .full

def emptyDir : Node := .dir .full []

end Node

def FileTree.cwdPath (tree : FileTree) : Path :=
  tree.cwd.foldl Path.join Path.rootPath

end DocLint
