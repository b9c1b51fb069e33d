import HttpDispatch.Config.Environment
import HttpDispatch.Text.Numeral

/-!
# Settings of workers

How many workers carry connections and how much stack each connection has, as the environment of the
process sets it.
-/

namespace HttpDispatch

structure WorkerSettings where
  stackSize : Nat := 32768
  workers : Option Nat := none
deriving DecidableEq, Repr

namespace WorkerSettings

/-- The size that a text writes, in decimal or, after `0x`, in hexadecimal digits. -/
def readSize? (s : String) : Option Nat :=
  let s := Text.trim s
  match (Text.dropStart? "0x" s).or (Text.dropStart? "0X" s) with
  | some digits => Numeral.readBounded? 16 UInt64.size digits
  | none => Numeral.word? s

/-- What the variables of a process set. There is at least one worker. -/
def ofEnvironment (env : Environment) : WorkerSettings where
  stackSize := ((env.lookup "BRRTR_STACK_SIZE").bind readSize?).getD 32768
  workers := ((env.lookup "BRRTR_WORKERS").bind fun s => Numeral.word? (Text.trim s)).filter (0 < ·)

end WorkerSettings

end HttpDispatch
