namespace DeviceLink.Path

def isAbsolute (path : String) : Bool := path.toList.head? = some '/'

def maxSize : Nat := 4095

def maxPartSize : Nat := 255

def hasZero (path : String) : Bool := path.toList.contains (Char.ofNat 0)

def join (dir path : String) : String :=
  if isAbsolute path || dir = "" then path
  else if dir.toList.getLast? = some '/' then dir ++ path
  else dir ++ "/" ++ path

def isIdle (part : String) : Bool := part = "" || part = "."

def trim (parts : List String) : List String := (parts.reverse.dropWhile isIdle).reverse

def start (path : String) : String :=
  match path.toList with
  | '/' :: _ => "/"
  | ['.'] => "."
  | '.' :: '/' :: _ => "."
  | _ => ""

def parent? (path : String) : Option String :=
  let start := start path
  match trim ((String.ofList (path.toList.drop start.length)).splitOn "/") with
  | [] => if start = "." then some "" else none
  | parts => some (start ++ "/".intercalate (trim parts.dropLast))

end DeviceLink.Path
