import DeviceLink.Command.Run

namespace DeviceLink.Command

def systemError : IO.Error → SystemError
  | .noFileOrDirectory .. => .notFound
  | .inappropriateType _ code _ => if code = 20 || code = -20 then .notDirectory else .isDirectory
  | e@(.invalidArgument _ code _) =>
    if code = 36 || code = -36 then .nameTooLong else .other (toString e)
  | e => .other (toString e)

def attempt {α : Type} (path : String) (act : IO α) : IO (Except SystemError α) := do
  if Path.hasZero path then return .error .zeroByte
  try
    return .ok (← act)
  catch e =>
    return .error (systemError e)

def toByteArray (b : Bytes) : ByteArray := ⟨b.toArray⟩

def machine : Host IO where
  read path := attempt path do return (← IO.FS.readBinFile path).toList
  write path bytes := attempt path (IO.FS.writeBinFile path (toByteArray bytes))
  out text := do (← IO.getStdout).write (toByteArray text)
  err text := do (← IO.getStderr).write (toByteArray text)

end DeviceLink.Command

def main (args : List String) : IO UInt32 := DeviceLink.Command.run DeviceLink.Command.machine args
