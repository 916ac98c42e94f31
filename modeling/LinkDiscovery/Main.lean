import LinkDiscovery.CommandLine.Commands
/-!
The program: the command line over the files of the system.
-/

namespace LinkDiscovery.CommandLine

/-- The fault with a number of the system. -/
def FileFault.ofNumber (number : UInt32) (text : String) : FileFault :=
  if number = 2 then .notFound
  else if number = 20 then .notDirectory
  else if number = 21 then .isDirectory
  else .other text number.toNat

/-- The fault behind an error of the system. -/
def FileFault.ofError : IO.Error → FileFault
  | .alreadyExists _ n text | .otherError n text | .resourceBusy n text | .resourceVanished n text
  | .unsupportedOperation n text | .hardwareFault n text | .unsatisfiedConstraints n text
  | .illegalOperation n text | .protocolError n text | .timeExpired n text | .interrupted _ n text
  | .noFileOrDirectory _ n text | .invalidArgument _ n text | .permissionDenied _ n text
  | .resourceExhausted _ n text | .inappropriateType _ n text | .noSuchThing _ n text =>
    ofNumber n text
  | .unexpectedEof => .other "unexpected end of file" 0
  | .userError text => .other text 0

/-- The files of the system. -/
def systemFiles : Files IO where
  read path := do
    match ← (IO.FS.withFile path .read (·.readBinToEnd)).toBaseIO with
    | .ok bytes =>
      match String.fromUTF8? bytes with
      | some text => return .ok text
      | none => return .error .notText
    | .error e => return .error (FileFault.ofError e)
  write path text := do
    match ← (IO.FS.writeFile path text).toBaseIO with
    | .ok _ => return .ok ()
    | .error e => return .error (FileFault.ofError e)

end LinkDiscovery.CommandLine

open LinkDiscovery.CommandLine in
def main (arguments : List String) : IO UInt32 := do
  let report ← perform systemFiles (Request.read arguments)
  IO.print report.output
  IO.eprint report.remarks
  return UInt32.ofNat report.code
