import DeviceLink.Segment

namespace DeviceLink

structure Options where
  parallel : Bool := true
  threads : Option UInt64 := none
  strict : Bool := false
  segments : SegmentMap := .standard
  extraRoots : List String := []
  outputName : String := "merged"
  deriving DecidableEq

namespace Options

def sequential : Options := { parallel := false }

def withRoot (o : Options) (name : String) : Options := { o with extraRoots := o.extraRoots ++ [name] }

def toJson (o : Options) : Json :=
  .ofFields [("parallel", .bool o.parallel), ("threads", .ofOption (fun n => .ofNat n.toNat) o.threads),
    ("strict_provenance", .bool o.strict), ("segments", o.segments.toJson),
    ("extra_roots", .ofStrings o.extraRoots), ("output_name", .ofString o.outputName)]

def read : Json.Reader Options := .record fun room => do
  let parallel ← .defaulted "parallel" true (Json.Reader.bool room)
  let threads ← .defaulted "threads" none (Json.Reader.nullable .uint64 room)
  let strict ← .defaulted "strict_provenance" false (Json.Reader.bool room)
  let segments ← .defaulted "segments" .standard (SegmentMap.read room)
  let extraRoots ← .defaulted "extra_roots" [] (Json.Reader.list .string room)
  let outputName ← .defaulted "output_name" "merged" (Json.Reader.string room)
  return { parallel, threads, strict, segments, extraRoots, outputName }

end Options

end DeviceLink
