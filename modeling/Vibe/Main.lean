import Vibe.Command

/-! The program: carries out the command line on the files and streams of the system. -/

namespace Vibe

/-- The rest of a stream as text. -/
partial def readRest (stream : IO.FS.Stream) (text : String) : IO String := do
  let line ← stream.getLine
  if line.isEmpty then return text
  readRest stream (text ++ line)

/-- The content of a file, if it can be read. -/
def readFile? (path : String) : IO (Option ByteArray) := do
  try return some (← IO.FS.readBinFile path)
  catch _ => return none

/-- A number in steps of 2⁻⁵³, told by the high bits. -/
def Draw.ofBits (bits : UInt64) : Draw :=
  let number := Binary.toFloat ⟨false, (bits >>> 11).toNat, -53⟩
  -- This is always so.
  if h : 0 ≤ number ∧ number < 1 then ⟨number, h.1, h.2⟩ else 0

/-- Dice for a seed: each number is a step of a counter from there, with its bits mixed. -/
def Dice.ofSeed (seed : UInt64) : Dice where
  draws n :=
    let z := seed + (n + 1).toUInt64 * 0x9e3779b97f4a7c15
    let z := (z ^^^ (z >>> 30)) * 0xbf58476d1ce4e5b9
    let z := (z ^^^ (z >>> 27)) * 0x94d049bb133111eb
    .ofBits (z ^^^ (z >>> 31))

end Vibe

open Vibe

def main (args : List String) : IO UInt32 := do
  let content ← match Command.Request.ofArgs args with
    | .runFile path _ => readFile? path
    | _ => pure none
  let input ← if Command.takesInput args content then readRest (← IO.getStdin) "" else pure ""
  let dice := Dice.ofSeed (← IO.monoNanosNow).toUInt64
  -- All input is there already, so a run never waits while its operations are used up.
  let report := Command.run args (fun _ => content) input dice false
  (← IO.getStdout).putStr report.transcript.out
  (← IO.getStderr).putStr report.transcript.err
  return report.code.toUInt32
