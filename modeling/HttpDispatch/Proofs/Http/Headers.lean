import HttpDispatch.Coding.Negotiation

/-!
# The values under a name

What the operations on a header map do is said by the list of values under each name. Merging puts
the values of one map in place of those of the other, name by name; declaring a coding touches three
names and no others.
-/

namespace HttpDispatch

namespace Headers

variable {n m : FieldName}

theorem contains_eq_true_iff (h : Headers) (n : FieldName) :
    h.contains n = true ↔ h.getAll n ≠ [] := by
  simp [contains, getAll, List.filter_eq_nil_iff]

theorem contains_eq_false_iff (h : Headers) (n : FieldName) :
    h.contains n = false ↔ h.getAll n = [] := by
  simp [← Bool.not_eq_true, contains_eq_true_iff]

theorem mem_names (h : Headers) (n : FieldName) : n ∈ h.names ↔ h.getAll n ≠ [] := by
  rw [← contains_eq_true_iff]
  simp [names, contains]

@[simp]
theorem getAll_insertNew (h : Headers) (n m : FieldName) (v : FieldValue) :
    (h.insertNew n v).getAll m =
      if n = m ∧ h.getAll m = [] then [v] else h.getAll m := by
  unfold insertNew
  by_cases hn : n = m
  · subst hn
    by_cases hc : h.getAll n = []
    · simp [(h.contains_eq_false_iff n).2 hc, hc]
    · simp [(h.contains_eq_true_iff n).2 hc, hc]
  · split <;> simp [hn]

theorem getAll_foldl_append (n m : FieldName) (vs : List FieldValue) (h : Headers) :
    (vs.foldl (fun h v => h.append n v) h).getAll m = h.getAll m ++ if n = m then vs else [] := by
  induction vs generalizing h with
  | nil => simp
  | cons v vs ih =>
      rw [List.foldl_cons, ih, getAll_append]
      by_cases hn : n = m <;> simp [hn]

/-- The values that `source` has under a name are put in place of those in `h`. -/
def replaceFrom (source h : Headers) (n : FieldName) : Headers :=
  match source.getAll n with
  | [] => h
  | v :: vs => vs.foldl (fun h v => h.append n v) (h.insert n v)

theorem getAll_replaceFrom (source h : Headers) (n m : FieldName) :
    (source.replaceFrom h n).getAll m =
      if n = m ∧ source.getAll m ≠ [] then source.getAll m else h.getAll m := by
  unfold replaceFrom
  by_cases hn : n = m
  · subst hn
    cases hs : source.getAll n with
    | nil => simp
    | cons v vs => simp [getAll_foldl_append]
  · cases hs : source.getAll n with
    | nil => simp [hn]
    | cons v vs => simp [getAll_foldl_append, hn]

theorem getAll_foldl_replaceFrom (source : Headers) (ns : List FieldName) (h : Headers)
    (m : FieldName) :
    (ns.foldl source.replaceFrom h).getAll m =
      if m ∈ ns ∧ source.getAll m ≠ [] then source.getAll m else h.getAll m := by
  induction ns generalizing h with
  | nil => simp
  | cons n ns ih =>
      rw [List.foldl_cons, ih, getAll_replaceFrom]
      by_cases hs : source.getAll m = []
      · simp [hs]
      · by_cases hn : n = m
        · simp [hn, hs]
        · simp [Ne.symm hn, hn, hs]

/-- Merging replaces the values of every name that the other map has. -/
@[simp]
theorem getAll_merge (h source : Headers) (m : FieldName) :
    (h.merge source).getAll m = if source.getAll m = [] then h.getAll m else source.getAll m := by
  have hmerge : h.merge source = source.names.foldl source.replaceFrom h := rfl
  rw [hmerge, getAll_foldl_replaceFrom]
  by_cases hs : source.getAll m = [] <;> simp [mem_names, hs]

theorem getAll_addVary (h : Headers) (m : FieldName) :
    h.addVary.getAll m = h.getAll m ++
      if m = .vary ∧ (h.texts .vary).any namesAcceptEncoding = false then [.acceptEncoding]
        else [] := by
  unfold addVary
  by_cases hv : (h.texts .vary).any namesAcceptEncoding
  · simp [hv]
  · by_cases hm : m = .vary
    · simp [hv, hm]
    · simp [hv, hm, Ne.symm hm]

theorem getAll_withCoding_of_ne (h : Headers) (s : CompressionSettings) (coding : Option Coding)
    (he : n ≠ .contentEncoding) (hl : n ≠ .contentLength) (hv : n ≠ .vary) :
    (h.withCoding s coding).getAll n = h.getAll n := by
  unfold withCoding
  cases coding with
  | none => split <;> simp [getAll_addVary, hv]
  | some c => split <;> simp [getAll_addVary, hv, Ne.symm he, Ne.symm hl]

theorem getAll_contentEncoding_withCoding (h : Headers) (s : CompressionSettings)
    (coding : Option Coding) :
    (h.withCoding s coding).getAll .contentEncoding =
      match coding with
      | none => h.getAll .contentEncoding
      | some c => [c.fieldValue] := by
  have hv : FieldName.contentEncoding ≠ .vary := by decide
  have hl : FieldName.contentLength ≠ .contentEncoding := by decide
  unfold withCoding
  cases coding with
  | none => split <;> simp [getAll_addVary, hv]
  | some c => split <;> simp [hl]

theorem withCoding_none_of {h : Headers} {s : CompressionSettings}
    (hv : s.isNegotiable h = true → (h.texts .vary).any namesAcceptEncoding = true) :
    h.withCoding s none = h := by
  unfold withCoding
  cases hn : s.isNegotiable h with
  | false => rfl
  | true =>
      unfold addVary
      simp [hv hn]

end Headers

namespace CompressionSettings

theorem getAll_contentEncoding_of_isNegotiable {s : CompressionSettings} {h : Headers}
    (hn : s.isNegotiable h = true) : h.getAll .contentEncoding = [] := by
  unfold isNegotiable at hn
  rw [Bool.and_eq_true, Bool.and_eq_true, Bool.not_eq_true'] at hn
  exact (h.contains_eq_false_iff _).1 hn.1.2

theorem choose_of_isNegotiable_eq_false {s : CompressionSettings} {h : Headers}
    (hn : s.isNegotiable h = false) (request : Headers) (size : Nat) :
    s.choose request h size = none := by
  unfold choose
  rw [hn]
  simp

end CompressionSettings

namespace Headers

/-- Where a coding is declared, or the dependence on what is offered, a name shows it. -/
theorem exists_getAll_withCoding_ne {h : Headers} {s : CompressionSettings} {coding : Option Coding}
    (hn : s.isNegotiable h = true)
    (hc : coding ≠ none ∨ (h.texts .vary).any namesAcceptEncoding = false) :
    ∃ n, (n = .contentEncoding ∨ n = .vary) ∧ (h.withCoding s coding).getAll n ≠ h.getAll n := by
  cases coding with
  | some c =>
      refine ⟨.contentEncoding, .inl rfl, ?_⟩
      rw [getAll_contentEncoding_withCoding,
        CompressionSettings.getAll_contentEncoding_of_isNegotiable hn]
      exact List.cons_ne_nil _ _
  | none =>
      have hv : (h.texts .vary).any namesAcceptEncoding = false := by
        rcases hc with hc | hv
        · exact absurd rfl hc
        · exact hv
      refine ⟨.vary, .inr rfl, ?_⟩
      unfold withCoding
      simp [hn, hv, getAll_addVary]

end Headers

end HttpDispatch
