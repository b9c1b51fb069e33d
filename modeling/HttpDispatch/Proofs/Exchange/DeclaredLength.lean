import HttpDispatch.Proofs.Exchange.Accepted

/-!
# Whether all agree on the length of a body

A body begins where the head ends, and the next request where the body ends; so everyone who reads a
request has to take the same number for the length of its body. That is so if every declaration of
it consists of the digits of one number (`Headers.Declare`). Of several declarations the first is
taken and the others are not looked at, and a plus sign in front is passed over.
`RequestHead.unambiguous_iff` says for which requests this makes no difference.
-/

namespace HttpDispatch

def Headers.Declare (h : Headers) (n : Nat) : Prop := ∀ v ∈ h.getAll .contentLength, v.IsDecimal n

namespace Headers

variable {h : Headers} {n m : Nat} {v : FieldValue} {vs : List FieldValue}

theorem declare_of_getAll_eq_nil (hnone : h.getAll .contentLength = []) (n : Nat) :
    h.Declare n := by
  rw [Declare, hnone]
  exact List.forall_mem_nil _

/-- No other number is declared than the one that the first value denotes. -/
theorem Declare.eq_of_denotes (hall : h.Declare m) (hvalues : h.getAll .contentLength = v :: vs)
    (hv : v.Denotes n) : m = n :=
  (hall v (hvalues ▸ List.mem_cons_self)).denotes.unique hv

end Headers

namespace RequestHead

variable {r : Reader} {limits : RequestLimits} {start : Method × Target × Version}
    {headers : Headers}

/-- Whether all agree on the length of the body after what has become of a request: it is the one
that all declarations in the head stand for, and where they stand for none, the request is refused
for its form. -/
structure Unambiguous (result : Except RequestError RequestHead) (headers : Headers) : Prop where
  declared : ∀ head, result = .ok head → head.headers.Declare head.contentLength
  refused : (∀ n, ¬ headers.Declare n) → ∃ fault, result = .error (.malformed fault)

theorem result_eq (h : (readLines r limits).1 = .ok (start, headers)) :
    (read r limits).1 = assemble limits start headers := by
  rw [read_eq]
  generalize readLines r limits = read at h
  obtain ⟨_, r'⟩ := read
  subst h
  rfl

theorem assemble_of_declaredLength {n : Nat} (htransfer : headers.getAll .transferEncoding = [])
    (hn : declaredLength headers = .ok n) (limits : RequestLimits)
    (start : Method × Target × Version) :
    assemble limits start headers =
      if limits.maxBody < n then .error (.bodyTooLarge n)
      else .ok ⟨start.1, start.2.1, start.2.2, headers, n⟩ := by
  have hcontains := (headers.contains_eq_false_iff _).2 htransfer
  rw [assemble, if_neg (Bool.eq_false_iff.1 hcontains), hn]

theorem assemble_of_error {fault : HeadFault} (htransfer : headers.getAll .transferEncoding = [])
    (hfault : declaredLength headers = .error fault) :
    assemble limits start headers = .error (.malformed fault) := by
  have hcontains := (headers.contains_eq_false_iff _).2 htransfer
  rw [assemble, if_neg (Bool.eq_false_iff.1 hcontains), hfault]

/-- All agree on the length if and only if the number that the first value denotes, if it denotes
one of 64 bits, is what every declaration consists of the digits of. -/
theorem unambiguous_iff (h : (readLines r limits).1 = .ok (start, headers))
    (htransfer : headers.getAll .transferEncoding = []) :
    Unambiguous (read r limits).1 headers ↔
      ∀ v vs n, headers.getAll .contentLength = v :: vs → v.Denotes n → n < UInt64.size →
        headers.Declare n := by
  have hlines : readLines r limits = (.ok (start, headers), (readLines r limits).2) :=
    Prod.ext h rfl
  obtain ⟨_, -, hfrom⟩ := exists_lines_of_readLines hlines
  have hlength (n : Nat) := declaredLength_eq_ok_iff (n := n) (hfrom.isTrimmed .contentLength)
  rw [result_eq h]
  constructor
  · intro hclear v vs n hvalues hn hlt
    have hdeclared : declaredLength headers = .ok n := by
      rw [hlength, hvalues]
      exact ⟨hn, hlt⟩
    have hresult := assemble_of_declaredLength htransfer hdeclared limits start
    by_cases hmost : limits.maxBody < n
    · rw [if_pos hmost] at hresult
      by_contra hnot
      obtain ⟨fault, hfault⟩ := hclear.refused fun m hm => hnot (hm.eq_of_denotes hvalues hn ▸ hm)
      cases hresult.symm.trans hfault
    · rw [if_neg hmost] at hresult
      exact hclear.declared _ hresult
  · intro hagree
    have hall : ∀ n, declaredLength headers = .ok n → headers.Declare n := by
      intro n hn
      rw [hlength] at hn
      cases hvalues : headers.getAll .contentLength with
      | nil => exact Headers.declare_of_getAll_eq_nil hvalues n
      | cons v vs =>
          rw [hvalues] at hn
          exact hagree v vs n hvalues hn.1 hn.2
    refine ⟨fun head hhead => ?_, fun hnone => ?_⟩
    · obtain ⟨-, hdeclared, -, heq⟩ := assemble_eq_ok hhead
      rw [heq]
      exact hall _ hdeclared
    · cases hdeclared : declaredLength headers with
      | ok n => exact absurd (hall n hdeclared) (hnone n)
      | error fault => exact ⟨fault, assemble_of_error htransfer hdeclared⟩

def divided : Reader where
  source :=
    { data := Text.encode
        "POST / HTTP/1.1\r\nContent-Length: 5\r\nContent-Length: 7\r\n\r\nhello!!" }

def dividedHeaders : Headers := ⟨[(.contentLength, .ofNat 5), (.contentLength, .ofNat 7)]⟩

theorem unambiguous_iff_divided :
    (readLines divided {}).1 = .ok ((.post, ⟨"/", none⟩, .http11), dividedHeaders) ∧
      dividedHeaders.getAll .transferEncoding = [] ∧
      (read divided {}).1.toOption.map contentLength = some 5 ∧
      ¬ Unambiguous (read divided {}).1 dividedHeaders := by
  have hlines : (readLines divided {}).1 = .ok ((.post, ⟨"/", none⟩, .http11), dividedHeaders) := by
    decide +kernel
  have htransfer : dividedHeaders.getAll .transferEncoding = [] := by decide
  refine ⟨hlines, htransfer, by decide +kernel, ?_⟩
  rw [unambiguous_iff hlines htransfer]
  intro hagree
  have hvalues : dividedHeaders.getAll .contentLength = [.ofNat 5, .ofNat 7] := by decide
  have hfive := (FieldValue.isDecimal_ofNat 5).denotes
  have hseven := (FieldValue.isDecimal_ofNat 7).denotes
  have hdeclared := hagree _ _ 5 hvalues hfive (by decide) (.ofNat 7) (hvalues ▸ by simp)
  exact absurd (hdeclared.denotes.unique hseven) (by decide)

end RequestHead

end HttpDispatch
