import DeviceLink.Json.Reader

namespace DeviceLink

structure Location where
  file : String
  line : UInt32
  column : UInt32
  deriving DecidableEq

namespace Location

def unknown : Location := ⟨"<unknown>", 0, 0⟩

def isUnknown (l : Location) : Bool := l.line = 0 && l.column = 0

def render (l : Location) : String := s!"{l.file}:{l.line.toNat}:{l.column.toNat}"

def toJson (l : Location) : Json :=
  .ofFields [("filename", .ofString l.file), ("line", .ofNat l.line.toNat), ("column", .ofNat l.column.toNat)]

def read : Json.Reader Location := .record fun room => do
  let file ← .required "filename" (Json.Reader.string room)
  let line ← .required "line" (Json.Reader.uint32 room)
  let column ← .required "column" (Json.Reader.uint32 room)
  return { file, line, column }

end Location

structure Span where
  start : Location
  stop : Location
  deriving DecidableEq

namespace Span

def ofLocation (l : Location) : Span := ⟨l, l⟩

def unknown : Span := ofLocation .unknown

def render (s : Span) : String :=
  if s.start.file ≠ s.stop.file then s!"{s.start.render} to {s.stop.render}"
  else if s.start = s.stop then s.start.render
  else if s.start.line = s.stop.line then s!"{s.start.render}-{s.stop.column.toNat}"
  else s!"{s.start.render}-{s.stop.line.toNat}:{s.stop.column.toNat}"

def toJson (s : Span) : Json := .ofFields [("start", s.start.toJson), ("end", s.stop.toJson)]

def read : Json.Reader Span := .record fun room => do
  let start ← .required "start" (Location.read room)
  let stop ← .required "end" (Location.read room)
  return { start, stop }

end Span

end DeviceLink
