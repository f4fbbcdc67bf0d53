import DeviceLink.Space

/-!
Where the memories lie. The generic space is a window of 64-bit addresses, and every specific space is
one segment of it, so an address can be tested for a space and turned into an offset.
-/

namespace DeviceLink

def hex (n : UInt64) : String := "0x" ++ String.ofList (Nat.toDigits 16 n.toNat)

structure Segment where
  base : UInt64
  size : UInt64
  deriving DecidableEq

namespace Segment

def contains (s : Segment) (addr : UInt64) : Bool := s.base ≤ addr && addr - s.base < s.size

def stop? (s : Segment) : Option UInt64 :=
  if s.base.toNat + s.size.toNat < UInt64.size then some (s.base + s.size) else none

def stop (s : Segment) : UInt64 := s.stop?.getD (UInt64.ofNat (UInt64.size - 1))

def overlaps (s t : Segment) : Bool := s.base < t.stop && t.base < s.stop

def toJson (s : Segment) : Json := .ofFields [("base", .ofNat s.base.toNat), ("size", .ofNat s.size.toNat)]

def read : Json.Reader Segment := .record fun room => do
  let base ← .required "base" (Json.Reader.uint64 room)
  let size ← .required "size" (Json.Reader.uint64 room)
  return { base, size }

end Segment

structure Pointer where
  space : Space
  offset : UInt64
  deriving DecidableEq

def Pointer.render (p : Pointer) : String := s!"{p.space.name}+{hex p.offset}"

inductive ConversionError where
  | outside (addr : UInt64) (target : Space)
  | beyond (space : Space) (offset : UInt64)
  | generic
  deriving DecidableEq

namespace ConversionError

def message : ConversionError → String
  | .outside addr target => s!"address {hex addr} is outside the {target.name} segment"
  | .beyond space offset => s!"offset {hex offset} is outside the {space.name} segment"
  | .generic => "the generic space is not a conversion target"

def target : ConversionError → Space
  | .outside _ target => target
  | .beyond space _ => space
  | .generic => .generic

end ConversionError

inductive PlacementError where
  | empty (space : Space)
  | wraps (space : Space)
  | holdsNull (space : Space)
  | overlap (first second : Space)
  deriving DecidableEq

def PlacementError.message : PlacementError → String
  | .empty space => s!"{space.name} segment is empty"
  | .wraps space => s!"{space.name} segment wraps around the address space"
  | .holdsNull space => s!"{space.name} segment contains the null address"
  | .overlap first second => s!"{first.name} and {second.name} segments overlap"

structure SegmentMap where
  global : Segment
  shared : Segment
  constant : Segment
  threadLocal : Segment
  deriving DecidableEq

namespace SegmentMap

/-- The first page is in no segment, so that null is in no space. -/
def standard : SegmentMap where
  global := ⟨0x1000, 0x10000000000⟩
  shared := ⟨0x100000000000, 0x100000000⟩
  constant := ⟨0x200000000000, 0x100000000⟩
  threadLocal := ⟨0x300000000000, 0x100000000⟩

instance : Inhabited SegmentMap := ⟨standard⟩

def segment? (m : SegmentMap) : Space → Option Segment
  | .generic => none
  | .global => some m.global
  | .shared => some m.shared
  | .constant => some m.constant
  | .threadLocal => some m.threadLocal

def placed (m : SegmentMap) : List (Space × Segment) :=
  [(.global, m.global), (.shared, m.shared), (.constant, m.constant), (.threadLocal, m.threadLocal)]

def segmentFault? (p : Space × Segment) : Option PlacementError :=
  if p.2.size = 0 then some (.empty p.1)
  else if p.2.stop?.isNone then some (.wraps p.1)
  else if p.2.contains 0 then some (.holdsNull p.1)
  else none

def overlapWith? (p : Space × Segment) (rest : List (Space × Segment)) : Option PlacementError :=
  (rest.find? fun q => p.2.overlaps q.2).map fun q => .overlap p.1 q.1

def overlap? : List (Space × Segment) → Option PlacementError
  | [] => none
  | p :: rest => overlapWith? p rest <|> overlap? rest

def fault? (m : SegmentMap) : Option PlacementError :=
  m.placed.findSome? segmentFault? <|> overlap? m.placed

def isIn (m : SegmentMap) (addr : UInt64) (space : Space) : Bool :=
  match m.segment? space with
  | some s => s.contains addr
  | none => true

def spaceOf? (m : SegmentMap) (addr : UInt64) : Option Space := Space.specifics.find? (m.isIn addr)

def pointer (m : SegmentMap) (space : Space) (offset : UInt64) : Except ConversionError Pointer :=
  match m.segment? space with
  | none => .error .generic
  | some s => if offset < s.size then .ok ⟨space, offset⟩ else .error (.beyond space offset)

def toPointer (m : SegmentMap) (addr : UInt64) (target : Space) : Except ConversionError Pointer :=
  match m.segment? target with
  | none => .error .generic
  | some s => if s.contains addr then .ok ⟨target, addr - s.base⟩ else .error (.outside addr target)

def toAddress (m : SegmentMap) (p : Pointer) : UInt64 :=
  match m.segment? p.space with
  | some s => s.base + p.offset
  | none => p.offset

def toJson (m : SegmentMap) : Json :=
  .ofFields [("global", m.global.toJson), ("shared", m.shared.toJson), ("constant", m.constant.toJson),
    ("local", m.threadLocal.toJson)]

def read : Json.Reader SegmentMap := .record fun room => do
  let global ← .required "global" (Segment.read room)
  let shared ← .required "shared" (Segment.read room)
  let constant ← .required "constant" (Segment.read room)
  let threadLocal ← .required "local" (Segment.read room)
  return { global, shared, constant, threadLocal }

end SegmentMap

end DeviceLink
