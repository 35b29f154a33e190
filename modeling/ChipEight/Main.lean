import ChipEight.CommandLine

namespace ChipEight.CommandLine

/-- Groups bytes into words. -/
def cipherKeyOfBytes (bytes : ByteArray) : Random.CipherKey :=
  Vector.ofFn fun i => (List.range 4).foldl
    (fun word j => word * 256 + (bytes.data.getD (4 * i + j) 0).toUInt32) 0

def FileError.ofIO : IO.Error → FileError
  | .noFileOrDirectory .. => .notFound
  | .inappropriateType .. => .isDirectory
  | error => ⟨1, "Other", toString error⟩

def readProgram (path : String) : IO (Except FileError (List UInt8)) := do
  try
    return .ok (← IO.FS.readBinFile path).toList
  catch error =>
    return .error (.ofIO error)

end ChipEight.CommandLine

open ChipEight.CommandLine in
def main (args : List String) : IO UInt32 := do
  let entropy := cipherKeyOfBytes (← IO.getRandomBytes 32)
  let program ← match request args with
    | .ok (rom, _) => readProgram rom
    | .error _ => pure (.ok [])
  let answer := run args (fun _ => program) entropy
  (output answer).forM fun line => IO.println line
  (failure? answer).forM fun failure => IO.eprintln ("Error: " ++ failure.text)
  return (exitCode answer).toUInt32
