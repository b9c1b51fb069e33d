import HttpDispatch.Attempt
import HttpDispatch.Connection.Source
import HttpDispatch.Connection.Writer
import HttpDispatch.Log
import HttpDispatch.Text.Numeral

/-!
# Byte ranges

Which part of a resource a request asks for, and copying it. A range is read from the first of the
specs that the field `range` lists; anything that is not understood asks for the whole resource.
-/

namespace HttpDispatch

/-- A range of bytes, both ends included. -/
structure ByteRange where
  first : Nat
  last : Nat
deriving DecidableEq, Repr

namespace ByteRange

def length (r : ByteRange) : Nat := r.last - r.first + 1

def contentRange (r : ByteRange) (total : Nat) : String :=
  "bytes " ++ toString r.first ++ "-" ++ toString r.last ++ "/" ++ toString total

end ByteRange

inductive RangeRequest where
  | full
  | part (r : ByteRange)
  /-- A part that lies outside the resource. -/
  | unsatisfiable
deriving DecidableEq, Repr

namespace RangeRequest

def ofSuffix (count total : Nat) : RangeRequest :=
  if count = 0 || total = 0 then unsatisfiable else part ⟨total - count, total - 1⟩

/-- The bytes from `first` on, up to `last` if that is given. An end before the start is not
understood. -/
def ofBounds (first : Nat) (last : Option Nat) (total : Nat) : RangeRequest :=
  if last.any (· < first) then full
  else if total ≤ first then unsatisfiable
  else part ⟨first, match last with
    | some b => min b (total - 1)
    | none => total - 1⟩

/-- What one spec asks for, given its parts before and after the dash. -/
def ofSpec (first last : String) (total : Nat) : RangeRequest :=
  if first = "" then
    match Numeral.word? last with
    | none => full
    | some count => ofSuffix count total
  else match Numeral.word? first with
    | none => full
    | some a =>
      if last = "" then ofBounds a none total
      else match Numeral.word? last with
        | none => full
        | some b => ofBounds a (some b) total

def read (field : Option String) (total : Nat) : RangeRequest :=
  match field.bind fun s => Text.dropStart? "bytes=" (Text.trim s) with
  | none => full
  | some specs =>
    match Text.cut '-' (Text.trim (Text.before ',' specs)) with
    | none => full
    | some (first, last) => ofSpec (Text.trim first) (Text.trim last) total

end RangeRequest

structure CopyResult where
  /-- The number of bytes in pieces that were written as a whole. -/
  written : Nat
  completed : Bool
deriving DecidableEq, Repr

structure Copy where
  source : Source
  out : Writer
  log : List LogEvent := []

namespace Copy

def stop (c : Copy) (written : Nat) (e : LogEvent) : Attempt Copy IoError CopyResult :=
  (.ok ⟨written, false⟩, { c with log := c.log ++ [e] })

/-- Copies `remaining` bytes of `total` in pieces of at most `piece + 1` bytes. Only a failed read
is an error; a source that ends too soon and a writer that refuses end the copy. -/
def run (c : Copy) (total piece remaining written : Nat) : Attempt Copy IoError CopyResult :=
  if remaining = 0 then
    match c.out.flush with
    | (.ok (), out) => (.ok ⟨written, true⟩, { c with out })
    | (.error e, out) => { c with out }.stop written (.rangeFlushFailed e written)
  else match c.source.read (min remaining (piece + 1)) with
    | (.error e, source) => (.error e, { c with source })
    | (.ok [], source) => { c with source }.stop written (.sourceEnded total written)
    | (.ok (b :: bs), source) =>
      match c.out.writeAll (b :: bs) with
      | (.error e, out) => { c with source, out }.stop written (.rangeWriteFailed e written total)
      | (.ok (), out) =>
        run { c with source, out } total piece (remaining - (b :: bs).length)
          (written + (b :: bs).length)
termination_by remaining
decreasing_by simp only [List.length_cons]; omega

/-- Copies `length` bytes in pieces of at most `chunk` bytes, and at least one. Memory is idealised:
there is always a buffer for a piece. Of a size beyond half of the address space there is none, and
a copy in such pieces panics before the first read; this is left out. -/
def copyRange (c : Copy) (length chunk : Nat) : Attempt Copy IoError CopyResult :=
  c.run length (chunk - 1) length 0

end Copy

end HttpDispatch
