import HttpDispatch.Url.Percent

/-!
# Query parameters

A query is a list of pairs joined by ampersands, each a name and a value joined by the first equals
sign. A plus sign stands for a space, and percent signs stand for bytes. Bytes that form no text are
replaced, so that reading a query never fails.
-/

namespace HttpDispatch.Query

def decodePart (b : Bytes) : String :=
  Text.decodeLossy (Percent.decodeBytes (b.map fun c => if c = 0x2B then 0x20 else c))

/-- The pair that `piece` writes; without an equals sign the value is empty. -/
def decodePair (piece : Bytes) : String × String :=
  (decodePart (piece.takeWhile (· ≠ 0x3D)), decodePart ((piece.dropWhile (· ≠ 0x3D)).drop 1))

/-- The pairs of the query `s`, in order; empty pieces are passed over. -/
def pairs (s : String) : List (String × String) :=
  (((Text.encode s).splitOn 0x26).filter (fun piece => !piece.isEmpty)).map decodePair

end HttpDispatch.Query
