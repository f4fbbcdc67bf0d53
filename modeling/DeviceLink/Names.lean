namespace DeviceLink.Names

def repeated? (seen : List String) : List String → Option String
  | [] => none
  | x :: rest => if x ∈ seen then some x else repeated? (x :: seen) rest

def mangle (owner : String) : String := owner.map (fun c => if c = '.' || c = '-' then '_' else c) ++ "__"

def numbered (base : String) : Nat → String
  | 0 => base
  | k => s!"{base}.{k}"

def fresh (taken : List String) (base : String) : String :=
  (((List.range (taken.length + 1)).map (numbered base)).find? (· ∉ taken)).getD base

end DeviceLink.Names
