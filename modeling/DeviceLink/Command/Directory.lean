import DeviceLink.Command.Host
import DeviceLink.Path

/-!
A host without a machine: a directory of files in memory, and two texts for what a command prints. The
directories above it are there too, and so are a few that every machine has, but nothing is known of what
they hold.
-/

namespace DeviceLink.Command

/-- Files by the parts of their paths. The parts of a file outside the directory start with `..` or with
`/`, which stands for the root. -/
structure Directory where
  files : List (List String × Bytes) := []
  out : Bytes := []
  err : Bytes := []

namespace Directory

def root : List String := ["/"]

def nullFile : List String := ["/", "dev", "null"]

def standing : List (List String) :=
  [root, ["/", "dev"], ["/", "etc"], ["/", "tmp"], ["/", "usr"]]

def isInside (path : List String) : Bool :=
  match path with
  | ".." :: _ => false
  | "/" :: _ => false
  | _ => true

def file? (d : Directory) (path : List String) : Option Bytes :=
  if path = nullFile then some [] else d.files.lookup path

def isDirectory (d : Directory) (path : List String) : Bool :=
  path.all (· = "..") || standing.contains path ||
    d.files.any fun f => path.isPrefixOf f.1 && path.length < f.1.length

def above (dir : List String) : List String :=
  if dir = root then root
  else if dir.all (· = "..") then dir ++ [".."]
  else dir.dropLast

def follow (d : Directory) : (dir : List String) → List String → Except SystemError (List String)
  | dir, [] => .ok dir
  | dir, part :: rest =>
    if !d.isDirectory dir then .error (if (d.file? dir).isSome then .notDirectory else .notFound)
    else if Path.isIdle part then follow d dir rest
    else if part = ".." then follow d (above dir) rest
    else if Path.maxPartSize < part.utf8ByteSize then .error .nameTooLong
    else follow d (dir ++ [part]) rest

def start (path : String) : Except SystemError (List String) :=
  if Path.hasZero path then .error .zeroByte
  else if Path.maxSize < path.utf8ByteSize then .error .nameTooLong
  else if path = "" then .error .notFound
  else .ok (if Path.isAbsolute path then root else [])

def locate (d : Directory) (path : String) : Except SystemError (List String) := do
  d.follow (← start path) (path.splitOn "/")

def read (path : String) : StateM Directory (Except SystemError Bytes) := do
  let d ← get
  match d.locate path with
  | .error e => return .error e
  | .ok parts =>
    if d.isDirectory parts then return .error .isDirectory
    else
      match d.file? parts with
      | some bytes => return .ok bytes
      | none => return .error .notFound

def put (files : List (List String × Bytes)) (path : List String) (bytes : Bytes) :
    List (List String × Bytes) :=
  if path = nullFile then files else files.filter (·.1 ≠ path) ++ [(path, bytes)]

/-- Where a file is to be written. A path with a slash at its end is one of a directory, whether or not
there is anything of its last name. -/
def target (d : Directory) (path : String) : Except SystemError (List String) := do
  let trimmed := (path.toList.reverse.dropWhile (· = '/')).reverse
  if trimmed = path.toList then d.locate path
  else
    let _ ← d.follow (← start path) (((String.ofList trimmed).splitOn "/").dropLast ++ ["."])
    throw .isDirectory

def write (path : String) (bytes : Bytes) : StateM Directory (Except SystemError Unit) := do
  let d ← get
  match d.target path with
  | .error e => return .error e
  | .ok parts =>
    if d.isDirectory parts then return .error .isDirectory
    else
      set { d with files := put d.files parts bytes }
      return .ok ()

def host : Host (StateM Directory) where
  read := read
  write := write
  out text := modify fun d => { d with out := d.out ++ text }
  err text := modify fun d => { d with err := d.err ++ text }

def changes (before after : Directory) : List (List String × Bytes) :=
  after.files.filter fun f => isInside f.1 && before.file? f.1 ≠ some f.2

end Directory

end DeviceLink.Command
