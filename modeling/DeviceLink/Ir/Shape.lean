import DeviceLink.Ir.Module

namespace DeviceLink.Ir

open Json

def ofTemp (t : UInt32) : Json := .ofNat t.toNat

def ofInt64 (n : Int64) : Json := .ofInt n.toInt

namespace Ty

def words : List (String × Ty) :=
  [("Void", .void), ("I1", .i1), ("I8", .i8), ("I16", .i16), ("I32", .i32), ("I64", .i64), ("F32", .f32),
    ("F64", .f64), ("Label", .label)]

mutual

def toJson : Ty → Json
  | .void => .ofString "Void"
  | .i1 => .ofString "I1"
  | .i8 => .ofString "I8"
  | .i16 => .ofString "I16"
  | .i32 => .ofString "I32"
  | .i64 => .ofString "I64"
  | .f32 => .ofString "F32"
  | .f64 => .ofString "F64"
  | .label => .ofString "Label"
  | .ptr t s => .tagged "Ptr" (.ofFields [("pointee", t.toJson), ("space", s.toJson)])
  | .array n t => .tagged "Array" (.ofFields [("size", .ofNat n.toNat), ("element_type", t.toJson)])
  | .function r ps v =>
    .tagged "Function" (.ofFields
      [("return_type", r.toJson), ("param_types", .array (toJsonAll ps)), ("is_vararg", .bool v)])
  | .struct name fields packed =>
    .tagged "Struct" (.ofFields
      [("name", .ofOption .ofString name), ("fields", .array (toJsonAll fields)), ("packed", .bool packed)])

def toJsonAll : List Ty → List Json
  | [] => []
  | t :: rest => t.toJson :: toJsonAll rest

end

def readLevel (part : Reader Ty) : Reader Ty := fun room j => do
  match ← choice room j with
  | (.bare tag, _) => words.lookup tag
  | (.tagged tag body, room) =>
    match tag with
    | "Ptr" => Reader.record (fun room => do
        let pointee ← .required "pointee" (part room)
        let space ← .required "space" (Space.read room)
        return .ptr pointee space) room body
    | "Array" => Reader.record (fun room => do
        let size ← .required "size" (Reader.uint64 room)
        let element ← .required "element_type" (part room)
        return .array size element) room body
    | "Function" => Reader.record (fun room => do
        let result ← .required "return_type" (part room)
        let params ← .required "param_types" (Reader.list part room)
        let vararg ← .required "is_vararg" (Reader.bool room)
        return .function result params vararg) room body
    | "Struct" => Reader.record (fun room => do
        let name ← .optional "name" (Reader.string room)
        let fields ← .required "fields" (Reader.list part room)
        let packed ← .required "packed" (Reader.bool room)
        return .struct name fields packed) room body
    | _ =>
      match body with
      | .null => words.lookup tag
      | _ => none

def readLevels : (levels : Nat) → Reader Ty
  | 0 => .word words
  | levels + 1 => readLevel (readLevels levels)

/-- A composite type opens brackets, so the room is a bound for the levels too. -/
def read : Reader Ty := fun room => readLevels room room

end Ty

namespace Operand

def toJson : Operand → Json
  | .temp t => .tagged "Temp" (ofTemp t)
  | .constant n => .tagged "Constant" (ofInt64 n)
  | .global name => .tagged "Global" (.ofString name)
  | .function name => .tagged "Function" (.ofString name)
  | .constants values => .tagged "ConstantArray" (.ofList ofInt64 values)
  | .null s => .tagged "Null" s.toJson
  | .undef => .ofString "Undef"

def read : Reader Operand := fun room j => do
  match ← choice room j with
  | (.bare tag, _) => if tag = "Undef" then some .undef else none
  | (.tagged tag body, room) =>
    match tag with
    | "Temp" => (Reader.uint32 room body).map .temp
    | "Constant" => (Reader.int64 room body).map .constant
    | "Global" => (Reader.string room body).map .global
    | "Function" => (Reader.string room body).map .function
    | "ConstantArray" => (Reader.list Reader.int64 room body).map .constants
    | "Null" => (Space.read room body).map .null
    | "Undef" =>
      match body with
      | .null => some .undef
      | _ => none
    | _ => none

end Operand

namespace BinaryOp

def words : List (String × BinaryOp) :=
  [("Add", .add), ("Sub", .sub), ("Mul", .mul), ("SDiv", .sdiv), ("UDiv", .udiv), ("SRem", .srem),
    ("URem", .urem), ("FAdd", .fadd), ("FSub", .fsub), ("FMul", .fmul), ("FDiv", .fdiv), ("And", .and),
    ("Or", .or), ("Xor", .xor), ("Shl", .shl), ("LShr", .lshr), ("AShr", .ashr), ("Eq", .eq), ("Ne", .ne),
    ("Slt", .slt), ("Sle", .sle), ("Sgt", .sgt), ("Sge", .sge), ("Ult", .ult), ("Ule", .ule),
    ("Ugt", .ugt), ("Uge", .uge)]

def word : BinaryOp → String
  | .add => "Add"
  | .sub => "Sub"
  | .mul => "Mul"
  | .sdiv => "SDiv"
  | .udiv => "UDiv"
  | .srem => "SRem"
  | .urem => "URem"
  | .fadd => "FAdd"
  | .fsub => "FSub"
  | .fmul => "FMul"
  | .fdiv => "FDiv"
  | .and => "And"
  | .or => "Or"
  | .xor => "Xor"
  | .shl => "Shl"
  | .lshr => "LShr"
  | .ashr => "AShr"
  | .eq => "Eq"
  | .ne => "Ne"
  | .slt => "Slt"
  | .sle => "Sle"
  | .sgt => "Sgt"
  | .sge => "Sge"
  | .ult => "Ult"
  | .ule => "Ule"
  | .ugt => "Ugt"
  | .uge => "Uge"

def toJson (op : BinaryOp) : Json := .ofString op.word

def read : Reader BinaryOp := .word words

end BinaryOp

namespace Instr

def toJson : Instr → Json
  | .binary r op lhs rhs t =>
    .tagged "Binary" (.ofFields [("result", ofTemp r), ("op", op.toJson), ("lhs", lhs.toJson),
      ("rhs", rhs.toJson), ("result_type", t.toJson)])
  | .load r p t =>
    .tagged "Load" (.ofFields [("result", ofTemp r), ("ptr", p.toJson), ("result_type", t.toJson)])
  | .store v p => .tagged "Store" (.ofFields [("value", v.toJson), ("ptr", p.toJson)])
  | .element r p is t =>
    .tagged "GetElementPtr" (.ofFields [("result", ofTemp r), ("ptr", p.toJson),
      ("indices", .ofList Operand.toJson is), ("result_type", t.toJson)])
  | .alloca r a n t =>
    .tagged "Alloca" (.ofFields [("result", ofTemp r), ("alloc_type", a.toJson),
      ("count", .ofOption Operand.toJson n), ("result_type", t.toJson)])
  | .call r f as t =>
    .tagged "Call" (.ofFields [("result", .ofOption ofTemp r), ("function", f.toJson),
      ("args", .ofList Operand.toJson as), ("result_type", t.toJson)])
  | .dispatch r c v as t =>
    .tagged "DispatchCall" (.ofFields [("result", .ofOption ofTemp r), ("capability", .ofString c),
      ("receiver", v.toJson), ("args", .ofList Operand.toJson as), ("result_type", t.toJson)])
  | .spaceCast r p s t =>
    .tagged "AddrSpaceCast" (.ofFields [("result", ofTemp r), ("ptr", p.toJson), ("target", s.toJson),
      ("result_type", t.toJson)])
  | .checkedCast r p s t =>
    .tagged "CheckedAddrSpaceCast" (.ofFields [("result", ofTemp r), ("ptr", p.toJson),
      ("target", s.toJson), ("result_type", t.toJson)])
  | .spaceTest r p s =>
    .tagged "IsInAddressSpace" (.ofFields [("result", ofTemp r), ("ptr", p.toJson), ("space", s.toJson)])
  | .cast r v t =>
    .tagged "Cast" (.ofFields [("result", ofTemp r), ("value", v.toJson), ("target_type", t.toJson)])
  | .select r c a b t =>
    .tagged "Select" (.ofFields [("result", ofTemp r), ("condition", c.toJson), ("true_value", a.toJson),
      ("false_value", b.toJson), ("result_type", t.toJson)])
  | .phi r incoming t =>
    .tagged "Phi" (.ofFields [("result", ofTemp r),
      ("incoming", .ofList (fun p => .array [p.1.toJson, ofTemp p.2]) incoming), ("result_type", t.toJson)])
  | .ret v => .tagged "Return" (.ofOption Operand.toJson v)
  | .branch l => .tagged "Branch" (ofTemp l)
  | .branchIf c l k =>
    .tagged "BranchCond" (.ofFields [("condition", c.toJson), ("true_label", ofTemp l),
      ("false_label", ofTemp k)])
  | .location place => .tagged "DebugLoc" (.ofFields [("location", place.toJson)])
  | .comment text => .tagged "Comment" (.ofString text)

def readBody (tag : String) : Reader Instr :=
  match tag with
  | "Binary" => .record fun room => do
    let r ← .required "result" (Reader.uint32 room)
    let op ← .required "op" (BinaryOp.read room)
    let lhs ← .required "lhs" (Operand.read room)
    let rhs ← .required "rhs" (Operand.read room)
    let t ← .required "result_type" (Ty.read room)
    return .binary r op lhs rhs t
  | "Load" => .record fun room => do
    let r ← .required "result" (Reader.uint32 room)
    let p ← .required "ptr" (Operand.read room)
    let t ← .required "result_type" (Ty.read room)
    return .load r p t
  | "Store" => .record fun room => do
    let v ← .required "value" (Operand.read room)
    let p ← .required "ptr" (Operand.read room)
    return .store v p
  | "GetElementPtr" => .record fun room => do
    let r ← .required "result" (Reader.uint32 room)
    let p ← .required "ptr" (Operand.read room)
    let is ← .required "indices" (Reader.list Operand.read room)
    let t ← .required "result_type" (Ty.read room)
    return .element r p is t
  | "Alloca" => .record fun room => do
    let r ← .required "result" (Reader.uint32 room)
    let a ← .required "alloc_type" (Ty.read room)
    let n ← .optional "count" (Operand.read room)
    let t ← .required "result_type" (Ty.read room)
    return .alloca r a n t
  | "Call" => .record fun room => do
    let r ← .optional "result" (Reader.uint32 room)
    let f ← .required "function" (Operand.read room)
    let as ← .required "args" (Reader.list Operand.read room)
    let t ← .required "result_type" (Ty.read room)
    return .call r f as t
  | "DispatchCall" => .record fun room => do
    let r ← .optional "result" (Reader.uint32 room)
    let c ← .required "capability" (Reader.string room)
    let v ← .required "receiver" (Operand.read room)
    let as ← .required "args" (Reader.list Operand.read room)
    let t ← .required "result_type" (Ty.read room)
    return .dispatch r c v as t
  | "AddrSpaceCast" => .record fun room => do
    let r ← .required "result" (Reader.uint32 room)
    let p ← .required "ptr" (Operand.read room)
    let s ← .required "target" (Space.read room)
    let t ← .required "result_type" (Ty.read room)
    return .spaceCast r p s t
  | "CheckedAddrSpaceCast" => .record fun room => do
    let r ← .required "result" (Reader.uint32 room)
    let p ← .required "ptr" (Operand.read room)
    let s ← .required "target" (Space.read room)
    let t ← .required "result_type" (Ty.read room)
    return .checkedCast r p s t
  | "IsInAddressSpace" => .record fun room => do
    let r ← .required "result" (Reader.uint32 room)
    let p ← .required "ptr" (Operand.read room)
    let s ← .required "space" (Space.read room)
    return .spaceTest r p s
  | "Cast" => .record fun room => do
    let r ← .required "result" (Reader.uint32 room)
    let v ← .required "value" (Operand.read room)
    let t ← .required "target_type" (Ty.read room)
    return .cast r v t
  | "Select" => .record fun room => do
    let r ← .required "result" (Reader.uint32 room)
    let c ← .required "condition" (Operand.read room)
    let a ← .required "true_value" (Operand.read room)
    let b ← .required "false_value" (Operand.read room)
    let t ← .required "result_type" (Ty.read room)
    return .select r c a b t
  | "Phi" => .record fun room => do
    let r ← .required "result" (Reader.uint32 room)
    let incoming ← .required "incoming" (Reader.list (.pair Operand.read .uint32) room)
    let t ← .required "result_type" (Ty.read room)
    return .phi r incoming t
  | "Return" => fun room j => (Reader.nullable Operand.read room j).map .ret
  | "Branch" => fun room j => (Reader.uint32 room j).map .branch
  | "BranchCond" => .record fun room => do
    let c ← .required "condition" (Operand.read room)
    let l ← .required "true_label" (Reader.uint32 room)
    let k ← .required "false_label" (Reader.uint32 room)
    return .branchIf c l k
  | "DebugLoc" => .record fun room => do
    let place ← .required "location" (Location.read room)
    return .location place
  | "Comment" => fun room j => (Reader.string room j).map .comment
  | _ => fun _ _ => none

def read : Reader Instr := fun room j => do
  match ← choice room j with
  | (.bare _, _) => none
  | (.tagged tag body, room) => readBody tag room body

end Instr

namespace Block

def toJson (b : Block) : Json :=
  .ofFields [("id", ofTemp b.id), ("instructions", .ofList Instr.toJson b.code)]

def read : Reader Block := .record fun room => do
  let id ← .required "id" (Reader.uint32 room)
  let code ← .required "instructions" (Reader.list Instr.read room)
  return { id, code }

end Block

namespace Function

def toJson (f : Function) : Json :=
  .ofFields [("name", .ofString f.name), ("return_type", f.result.toJson),
    ("parameters", .ofList (fun p => .array [ofTemp p.1, p.2.toJson]) f.params),
    ("blocks", .ofList Block.toJson f.blocks), ("visibility", f.visibility.toJson),
    ("is_kernel", .bool f.isKernel), ("implements", .ofStrings f.implements),
    ("source_location", .ofOption Location.toJson f.place)]

def read : Reader Function := .record fun room => do
  let name ← .required "name" (Reader.string room)
  let result ← .required "return_type" (Ty.read room)
  let params ← .required "parameters" (Reader.list (.pair .uint32 Ty.read) room)
  let blocks ← .required "blocks" (Reader.list Block.read room)
  let visibility ← .required "visibility" (Visibility.read room)
  let isKernel ← .defaulted "is_kernel" false (Reader.bool room)
  let implements ← .defaulted "implements" [] (Reader.list .string room)
  let place ← .defaulted "source_location" none (Reader.nullable Location.read room)
  return { name, result, params, blocks, visibility, isKernel, implements, place }

end Function

namespace Global

def toJson (g : Global) : Json :=
  .ofFields [("name", .ofString g.name), ("var_type", g.type.toJson), ("space", g.space.toJson),
    ("is_constant", .bool g.isConstant), ("initializer", .ofOption Operand.toJson g.initializer),
    ("visibility", g.visibility.toJson)]

def read : Reader Global := .record fun room => do
  let name ← .required "name" (Reader.string room)
  let type ← .required "var_type" (Ty.read room)
  let space ← .defaulted "space" .generic (Space.read room)
  let isConstant ← .required "is_constant" (Reader.bool room)
  let initializer ← .optional "initializer" (Operand.read room)
  let visibility ← .required "visibility" (Visibility.read room)
  return { name, type, space, isConstant, initializer, visibility }

end Global

namespace Module

def toJson (m : Module) : Json :=
  .ofFields [("name", .ofString m.name), ("functions", .ofList Function.toJson m.functions),
    ("globals", .ofList Global.toJson m.globals), ("used", .ofStrings m.used),
    ("dispatch_tables", .ofFields (m.dispatchTables.entries.map fun t => (t.1, .ofStrings t.2)))]

def read : Reader Module := .record fun room => do
  let name ← .required "name" (Reader.string room)
  let functions ← .required "functions" (Reader.list Function.read room)
  let globals ← .required "globals" (Reader.list Global.read room)
  let used ← .defaulted "used" [] (Reader.list .string room)
  let dispatchTables ← .defaulted "dispatch_tables" .empty (Reader.table (.list .string) room)
  return { name, functions, globals, used, dispatchTables }

end Module

end DeviceLink.Ir
