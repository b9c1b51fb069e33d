import HttpDispatch.Coding.Negotiation

/-!
# Coders

An encoder is given data, is asked now and then to write out everything it holds back, and is
finished in the end. What it has written by then is a function of all that it has been given, and
giving it more only adds to that. A coder is such a function for each coding and level, together
with a decoder.
-/

namespace HttpDispatch

inductive Feed where
  | data (b : Bytes)
  | flush
  | finish
deriving DecidableEq, Repr

def Feed.content : Feed → Bytes
  | data b => b
  | flush | finish => []

structure Coder where
  /-- Everything that has been written after the given history. -/
  encode : Coding → Nat → List Feed → Bytes
  /-- The data of a whole encoded body. -/
  decode : Coding → Bytes → Option Bytes

namespace Coder

def encodeAll (c : Coder) (coding : Coding) (level : Nat) (body : Bytes) : Bytes :=
  c.encode coding level [.data body, .finish]

/-- What makes a coder fit for use, at the levels up to `most`: nothing that has been written is
taken back, and what has been written in the end stands for all the data. An encoder that has been
finished is given nothing more. -/
structure IsLawful (c : Coder) (most : Nat) : Prop where
  prefix_encode : ∀ coding level history more, level ≤ most → Feed.finish ∉ history →
    c.encode coding level history <+: c.encode coding level (history ++ more)
  decode_encode : ∀ coding level history, level ≤ most → Feed.finish ∉ history →
    c.decode coding (c.encode coding level (history ++ [.finish])) =
      some (history.flatMap Feed.content)

end Coder

end HttpDispatch
