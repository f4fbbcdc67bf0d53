import DeviceLink.Container
import DeviceLink.Diagnostic
import DeviceLink.Segment

namespace DeviceLink

inductive LoadError where
  | unavailable (reason : String)
  | container (error : Container.Error)
  | misnamed (found : String)
  | undefined (symbol : String)
  | misplaced (symbol : String) (declared found : Space)
  deriving DecidableEq

def LoadError.message : LoadError → String
  | .unavailable reason => reason
  | .container error => error.message
  | .misnamed found => s!"bitcode contains module `{found}`"
  | .undefined symbol => s!"symbol table lists `{symbol}` but the bitcode does not define it"
  | .misplaced symbol declared found =>
    s!"`{symbol}` is declared in the {declared.name} space but its bitcode places it in {found.name}"

inductive Inconsistency where
  | unitTwice (name : String)
  | symbolTwice (symbol owner : String)
  | strangeReference (owner referrer : String)
  | noSite (capability : String)
  | placement (error : PlacementError)
  | manifest
  | noSlot (index : Nat)
  | noOutputName (symbol : String)
  | notLoaded (symbol : String)
  | processedTwice (symbol : String)
  | definedTwice (name : String)
  | other (message : String)
  deriving DecidableEq

def Inconsistency.message : Inconsistency → String
  | .unitTwice name => s!"unit `{name}` was added twice"
  | .symbolTwice symbol owner => s!"symbol `{symbol}` is defined twice in `{owner}`"
  | .strangeReference owner referrer =>
    s!"manifest of `{owner}` lists a reference from `{referrer}`, which it does not define"
  | .noSite capability => s!"no dispatch site for `{capability}`"
  | .placement error => s!"invalid segment map: {error.message}"
  | .manifest => "invalid session manifest: the text is not a session manifest"
  | .noSlot index => s!"loader has no module m{index}"
  | .noOutputName symbol => s!"no output name for {symbol}"
  | .notLoaded symbol => s!"{symbol} is reachable but was never loaded"
  | .processedTwice symbol => s!"{symbol} was processed twice"
  | .definedTwice name => s!"`{name}` is defined twice in the linked module"
  | .other message => message

inductive Fault where
  | unresolved (referrer missing : String)
  | load (owner : String) (error : LoadError)
  | invalidCast (place : Location) (function : String) (source target : Space)
  | sharedInitializer (name : String)
  | duplicateExternal (name first second : String)
  | system (message : String)
  | internal (cause : Inconsistency)
  deriving DecidableEq

namespace Fault

def message : Fault → String
  | .unresolved referrer missing => s!"unresolved symbol `{missing}` referenced from `{referrer}`"
  | .load owner error => s!"failed to load module `{owner}`: {error.message}"
  | .invalidCast place function source target =>
    s!"invalid address space cast at {place.render} in `{function}`: {source.name} to {target.name}"
  | .sharedInitializer name => s!"shared global `{name}` cannot have an initializer"
  | .duplicateExternal name first second =>
    s!"external symbol `{name}` is defined in both `{first}` and `{second}`"
  | .system message => s!"IO error: {message}"
  | .internal cause => s!"Internal error: {cause.message}"

def span : Fault → Span
  | .invalidCast place .. => .ofLocation place
  | _ => .unknown

def notes : Fault → List String
  | .invalidCast .. => ["convert through the generic space with an explicit address space conversion"]
  | .duplicateExternal .. => ["external names form the kernel ABI and must be unique across all crates"]
  | _ => []

def diagnostic (f : Fault) : Diagnostic where
  severity := .error
  message := f.message
  span := f.span
  notes := f.notes

end Fault

namespace ConversionError

def toFault (e : ConversionError) (place : Location) (function : String) : Fault :=
  .invalidCast place function .generic e.target

end ConversionError

def Report.fail (r : Report) (f : Fault) : Report := r.push f.diagnostic

end DeviceLink
