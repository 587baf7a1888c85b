import Registrar.Program
import Registrar.Text.Uuid
set_option autoImplicit false

namespace Registrar.Main

def wallClock : IO Instant := do
  let (_, path) ← IO.FS.createTempFile
  let stamp := (← path.metadata).modified
  IO.FS.removeFile path
  pure (stamp.sec * 1000000000 + stamp.nsec.toNat)

def freshIds : IO (Nat → String) := do
  let bytes ← IO.getRandomBytes 15
  let start := bytes.toList.foldl (fun n b => 256 * n + b.toNat) 0
  pure fun n => Uuid.text (start + n)

def fileAt (path : String) : IO Files := do
  try
    let text ← IO.FS.readFile path
    pure [(path, text)]
  catch _ => pure []

def filesFor (name : String) : IO Files := do
  let found ← (Settings.candidates name).mapM fun parts => fileAt ("/".intercalate parts)
  pure found.flatten

def settingsName (program : String) (words : List String) : String :=
  match Invocation.ofWords program words with
  | .ok i => i.settings.getD Settings.standardName
  | .error _ => Settings.standardName

def isShell (program : String) (words : List String) : Bool :=
  match Invocation.ofWords program words with
  | .ok i => i.command == .shell
  | .error _ => false

def readAll (input : IO.FS.Stream) : IO (List UInt8) := do
  let mut bytes := ByteArray.empty
  let mut more := true
  while more do
    let part ← input.read 65536
    bytes := bytes ++ part
    more := !part.isEmpty
  pure bytes.toList

end Registrar.Main

open Registrar Registrar.Main

def main (words : List String) : IO UInt32 := do
  let program := ((← IO.appPath).fileName).getD "registrar"
  let name := settingsName program words
  let input ← if isShell program words then readAll (← IO.getStdin) else pure []
  let site : Site := ⟨⟨← wallClock, .utc, 0⟩, ← freshIds, none, fun _ => 0⟩
  let run := Program.run ⟨program, ← filesFor name, site, input⟩ words
  for line in run.output do IO.println line
  for line in run.errors do IO.eprintln line
  pure (UInt32.ofNat run.code)
