import DeviceLink.Ir.Module

namespace DeviceLink.Ir

def commas (texts : List String) : String := ", ".intercalate texts

namespace Ty

mutual

def render : Ty → String
  | .void => "void"
  | .i1 => "i1"
  | .i8 => "i8"
  | .i16 => "i16"
  | .i32 => "i32"
  | .i64 => "i64"
  | .f32 => "float"
  | .f64 => "double"
  | .ptr t .generic => t.render ++ "*"
  | .ptr t s => s!"{t.render} addrspace({s.number})*"
  | .array n t => s!"[{n.toNat} x {t.render}]"
  | .function r ps vararg =>
    r.render ++ " (" ++ commas (renderAll ps) ++ (if vararg then ", ..." else "") ++ ")"
  | .struct (some name) _ _ => "%" ++ name
  | .struct none fields true => "<\x7b " ++ commas (renderAll fields) ++ " \x7d>"
  | .struct none fields false => "\x7b " ++ commas (renderAll fields) ++ " \x7d"
  | .label => "label"

def renderAll : List Ty → List String
  | [] => []
  | t :: rest => t.render :: renderAll rest

end

end Ty

namespace Operand

def render : Operand → String
  | .temp t => s!"%{t.toNat}"
  | .constant n => toString n.toInt
  | .global name => "@" ++ name
  | .function name => "@" ++ name
  | .constants values => "[" ++ commas (values.map fun n => toString n.toInt) ++ "]"
  | .null .generic => "null"
  | .null s => s!"null addrspace({s.number})"
  | .undef => "undef"

end Operand

namespace BinaryOp

def mnemonic : BinaryOp → String
  | .add => "add"
  | .sub => "sub"
  | .mul => "mul"
  | .sdiv => "sdiv"
  | .udiv => "udiv"
  | .srem => "srem"
  | .urem => "urem"
  | .fadd => "fadd"
  | .fsub => "fsub"
  | .fmul => "fmul"
  | .fdiv => "fdiv"
  | .and => "and"
  | .or => "or"
  | .xor => "xor"
  | .shl => "shl"
  | .lshr => "lshr"
  | .ashr => "ashr"
  | .eq => "icmp eq"
  | .ne => "icmp ne"
  | .slt => "icmp slt"
  | .sle => "icmp sle"
  | .sgt => "icmp sgt"
  | .sge => "icmp sge"
  | .ult => "icmp ult"
  | .ule => "icmp ule"
  | .ugt => "icmp ugt"
  | .uge => "icmp uge"

end BinaryOp

namespace Instr

def target (r : Temp) : String := s!"%{r.toNat} = "

def target? : Option Temp → String
  | some r => target r
  | none => ""

def arguments (args : List Operand) : String := commas (args.map Operand.render)

def render : Instr → String
  | .binary r op lhs rhs t => target r ++ s!"{op.mnemonic} {t.render} {lhs.render}, {rhs.render}"
  | .load r p t => target r ++ s!"load {t.render}, {p.render}"
  | .store v p => s!"store {v.render}, {p.render}"
  | .element r p is t =>
    target r ++ s!"getelementptr {t.render} " ++ arguments (p :: is)
  | .alloca r a n _ =>
    target r ++ s!"alloca {a.render}" ++ String.join (n.toList.map fun v => ", " ++ v.render)
  | .call r f as t => target? r ++ s!"call {t.render} {f.render}({arguments as})"
  | .dispatch r c v as t => target? r ++ s!"dispatch {t.render} <{c}> {v.render}({arguments as})"
  | .spaceCast r p _ t => target r ++ s!"addrspacecast {p.render} to {t.render}"
  | .checkedCast r p s t =>
    target r ++ s!"addrspacecast.checked {p.render} to {t.render} ; isspacep.{s.name}"
  | .spaceTest r p s => target r ++ s!"isspacep.{s.name} {p.render}"
  | .cast r v t => target r ++ s!"cast {v.render} to {t.render}"
  | .select r c a b t =>
    target r ++ s!"select i1 {c.render}, {t.render} {a.render}, {t.render} {b.render}"
  | .phi r incoming t =>
    target r ++ s!"phi {t.render} " ++
      commas (incoming.map fun (v, l) => s!"[{v.render}, %L{l.toNat}]")
  | .ret (some v) => "ret " ++ v.render
  | .ret none => "ret void"
  | .branch l => s!"br label %L{l.toNat}"
  | .branchIf c l k => s!"br i1 {c.render}, label %L{l.toNat}, label %L{k.toNat}"
  | .location place => "; loc " ++ place.render
  | .comment text => "; " ++ text

end Instr

namespace Block

def render (b : Block) : String :=
  s!"L{b.id.toNat}:\n" ++ String.join (b.code.map fun i => s!"  {i.render}\n")

end Block

namespace Function

def signature (f : Function) : String :=
  let params := commas (f.params.map fun (id, t) => s!"{t.render} %{id.toNat}")
  s!"{f.visibility.name} {f.result.render} @{f.name}({params})"

def render (f : Function) : String :=
  if f.isDeclaration then s!"\ndeclare {f.signature}\n"
  else s!"\ndefine {f.signature} \x7b\n" ++ String.join (f.blocks.map Block.render) ++ "\x7d\n"

end Function

namespace Global

def render (g : Global) : String :=
  let keyword := if g.isConstant then "constant" else "global"
  s!"@{g.name} = {g.visibility.name} addrspace({g.space.number}) {keyword} {g.type.render}" ++
    String.join (g.initializer.toList.map fun v => " " ++ v.render) ++ "\n"

end Global

namespace Module

def render (m : Module) : String :=
  let kernels := m.kernels.map (·.name)
  s!"; module {m.name}\n" ++
    String.join (m.globals.map Global.render) ++
    String.join (m.functions.map Function.render) ++
    (if kernels.isEmpty then "" else s!"\n; kernels: {commas kernels}\n") ++
    String.join (m.dispatchTables.entries.map fun (c, names) => s!"; dispatch <{c}>: {commas names}\n")

end Module

end DeviceLink.Ir
