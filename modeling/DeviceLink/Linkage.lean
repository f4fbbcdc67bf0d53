import DeviceLink.Json.Reader

namespace DeviceLink

inductive SymbolKind where
  | function
  | data
  deriving DecidableEq

namespace SymbolKind

def name : SymbolKind → String
  | .function => "function"
  | .data => "global"

def toJson : SymbolKind → Json
  | .function => .ofString "function"
  | .data => .ofString "global_variable"

def read : Json.Reader SymbolKind := .word [("function", .function), ("global_variable", .data)]

end SymbolKind

/-- An external name is part of the interface of the linked module and is kept as it is; an internal one
is seen by its own unit only. -/
inductive Visibility where
  | external
  | internal
  deriving DecidableEq

namespace Visibility

instance : Inhabited Visibility := ⟨.internal⟩

def name : Visibility → String
  | .external => "external"
  | .internal => "internal"

def toJson (v : Visibility) : Json := .ofString v.name

def read : Json.Reader Visibility := .word [("external", .external), ("internal", .internal)]

end Visibility

/-- The external symbols of a program unit are roots; a library is linked only where something uses it. -/
inductive UnitKind where
  | program
  | library
  deriving DecidableEq, Inhabited

namespace UnitKind

def name : UnitKind → String
  | .program => "crate"
  | .library => "library"

def toJson (k : UnitKind) : Json := .ofString k.name

def read : Json.Reader UnitKind := .word [("crate", .program), ("library", .library)]

end UnitKind

end DeviceLink
