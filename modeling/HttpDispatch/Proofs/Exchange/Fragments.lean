import HttpDispatch.Exchange.Head
import HttpDispatch.Proofs.Connection.Line

/-!
# Heads that come in fragments

A head is read line by line (`RequestHead.readStart_eq`, `RequestHead.readFields_eq`), and what a
line is depends on nothing but the outlook of the reader: the bytes that it has still to deliver,
and how it ends after them. So the same holds of the head (`RequestHead.read_eq_of_rest_eq`): how a
network cuts a request into pieces, and how much of it has been buffered, never changes what it is
taken for.
-/

namespace HttpDispatch.RequestHead

variable {r r' : Reader} {limits : RequestLimits}

/-- The request line is the first line that is not blank. -/
theorem readStart_eq (r : Reader) (max : Nat) :
    readStart r max = (readLine r max).andThen fun line r =>
      match line with
      | none => (.error .eof, r)
      | some line => if line = "" then readStart r max else (.ok line, r) := by
  rw [readStart]
  split
  · next h => rw [h, Attempt.andThen_error]
  · next h => rw [h, Attempt.andThen_ok]
  · next h => rw [h, Attempt.andThen_ok]

/-- The fields end at the first blank line. -/
theorem readFields_eq (r : Reader) (limits : RequestLimits) (headers : Headers) :
    readFields r limits headers = (readLine r limits.maxLine).andThen fun line r =>
      match line with
      | none => (.error (.malformed .endsInHeaders), r)
      | some line =>
        if line = "" then (.ok headers, r)
        else
          if limits.maxHeaders ≤ headers.size then (.error (.tooManyHeaders limits.maxHeaders), r)
        else match readField line with
          | .error fault => (.error (.malformed fault), r)
          | .ok (n, v) => readFields r limits (headers.append n v) := by
  rw [readFields]
  split
  · next h => rw [h, Attempt.andThen_error]
  · next h => rw [h, Attempt.andThen_ok]
  · next h => exact h ▸ rfl

theorem agrees_readLine (h : r.outlook = r'.outlook) (max : Nat) :
    Agrees Reader.outlook (readLine r max) (readLine r' max) := by
  unfold readLine
  refine (Reader.agrees_readLine h max).elim fun result s t hst => ?_
  rcases result with e | line
  · exact .of_eq hst
  · cases line <;> exact .of_eq hst

/-- What follows a line need agree only where the line has taken something off what is left. -/
theorem agrees_readLine_andThen {α : Type} (h : r.outlook = r'.outlook) (max : Nat)
    {f : Option String → Reader → Attempt Reader RequestError α}
    (hf : ∀ line s t, s.outlook = t.outlook → (line ≠ none → s.rest.length < r.rest.length) →
      Agrees Reader.outlook (f line s) (f line t)) :
    Agrees Reader.outlook ((readLine r max).andThen f) ((readLine r' max).andThen f) := by
  have hshorter : ∀ line s, readLine r max = (.ok (some line), s) → s.rest.length < r.rest.length :=
    fun _ _ => length_rest_lt_of_readLine
  have hline := agrees_readLine h max
  generalize readLine r max = read at hline hshorter ⊢
  generalize readLine r' max = read' at hline ⊢
  obtain ⟨result, s⟩ := read
  obtain ⟨_, t⟩ := read'
  obtain ⟨rfl, hst⟩ := hline
  rcases result with e | _ | line
  · exact .of_eq hst
  · exact hf none s t hst (absurd rfl)
  · exact hf (some line) s t hst fun _ => hshorter line s rfl

theorem agrees_readStart (h : r.outlook = r'.outlook) (max : Nat) :
    Agrees Reader.outlook (readStart r max) (readStart r' max) := by
  induction hn : r.rest.length using Nat.strongRecOn generalizing r r' with
  | ind n ih =>
      subst hn
      rw [readStart_eq r, readStart_eq r']
      refine agrees_readLine_andThen h max fun line s t hst hshorter => ?_
      cases line with
      | none => exact .of_eq hst
      | some line => exact .ite (fun _ => ih _ (hshorter nofun) hst rfl) fun _ => .of_eq hst

theorem agrees_readFields (h : r.outlook = r'.outlook) (limits : RequestLimits)
    (headers : Headers) :
    Agrees Reader.outlook (readFields r limits headers) (readFields r' limits headers) := by
  induction hn : r.rest.length using Nat.strongRecOn generalizing r r' headers with
  | ind n ih =>
      subst hn
      rw [readFields_eq r, readFields_eq r']
      refine agrees_readLine_andThen h limits.maxLine fun line s t hst hshorter => ?_
      cases line with
      | none => exact .of_eq hst
      | some line =>
          refine .ite (fun _ => .of_eq hst) fun _ => .ite (fun _ => .of_eq hst) fun _ => ?_
          cases readField line with
          | error fault => exact .of_eq hst
          | ok field => exact ih _ (hshorter nofun) hst _ rfl

theorem agrees_read (h : r.outlook = r'.outlook) (limits : RequestLimits) :
    Agrees Reader.outlook (read r limits) (read r' limits) := by
  refine (agrees_readStart h limits.maxLine).andThen fun line s t hst => ?_
  cases readRequestLine line with
  | error fault => exact .of_eq hst
  | ok start => exact (agrees_readFields hst limits .empty).andThen fun _ _ _ hst => .of_eq hst

/-- Readers that have the same bytes to deliver, and then both end or both fail in the same way,
give the same head or the same error, and have the same bytes left. -/
theorem read_eq_of_rest_eq (hrest : r.rest = r'.rest)
    (hfailure : r.source.failure = r'.source.failure) (limits : RequestLimits) :
    (read r limits).1 = (read r' limits).1 ∧ (read r limits).2.rest = (read r' limits).2.rest := by
  have h := agrees_read (Prod.ext hrest hfailure) limits
  exact ⟨h.result, congrArg Prod.fst h.state⟩

/-- A request with a character of two bytes in its target, and the beginning of its body. -/
def order : Bytes := Text.encode "PUT /caf\u00e9 HTTP/1.1\r\nContent-Length: 9\r\n\r\nespr"

def atOnce : Reader where
  source := { data := order, failure := some .peerClosed }

/-- The request byte by byte, so that every end of a line and the long character are divided. -/
def byteByByte : Reader where
  source := { data := order, portion := fun _ => some 0, failure := some .peerClosed }
  capacity := 1
  capacity_pos := Nat.one_pos

theorem read_eq_of_rest_eq_byteByByte :
    (byteByByte.rest = atOnce.rest ∧ byteByByte.source.failure = atOnce.source.failure) ∧
      (read byteByByte {}).1 = (read atOnce {}).1 ∧
      (read byteByByte {}).2.rest = (read atOnce {}).2.rest ∧
      (read atOnce {}).1.toOption.map (fun head => (head.target.path, head.contentLength)) =
        some ("/caf\u00e9", 9) := by
  have hrest : byteByByte.rest = atOnce.rest := rfl
  have hfailure : byteByByte.source.failure = atOnce.source.failure := rfl
  obtain ⟨hread, hleft⟩ := read_eq_of_rest_eq hrest hfailure {}
  exact ⟨⟨hrest, hfailure⟩, hread, hleft, by decide +kernel⟩

end HttpDispatch.RequestHead
