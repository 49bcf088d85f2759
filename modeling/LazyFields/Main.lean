import LazyFields.Console

/-!
The command line. Arguments are ignored, and the variable `RUST_LOG` sets the filter.
-/

open LazyFields

def main (_ : List String) : IO UInt32 := do
  let t := Console.run (← IO.getEnv "RUST_LOG")
  for line in t.log do
    IO.eprintln line
  for line in t.output do
    IO.println line
  return t.exitStatus.toUInt32
