import DeviceLink.Bytes

namespace DeviceLink.Command

inductive SystemError where
  | notFound
  | notDirectory
  | isDirectory
  | nameTooLong
  | zeroByte
  | other (message : String)
  deriving DecidableEq

def SystemError.message : SystemError → String
  | .notFound => "No such file or directory (os error 2)"
  | .notDirectory => "Not a directory (os error 20)"
  | .isDirectory => "Is a directory (os error 21)"
  | .nameTooLong => "File name too long (os error 36)"
  | .zeroByte => "file name contained an unexpected NUL byte"
  | .other message => message

structure Host (m : Type → Type) where
  read : String → m (Except SystemError Bytes)
  write : String → Bytes → m (Except SystemError Unit)
  out : Bytes → m Unit
  err : Bytes → m Unit

end DeviceLink.Command
