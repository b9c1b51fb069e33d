import HttpDispatch.Exchange.Target
import HttpDispatch.Proofs.Exchange.Accepted
import Mathlib.Data.List.Infix

/-!
# The forms of a target

A target is read alike whether it stands alone or after a scheme and an authority, and only what has
none of the forms is no target (`Target.ofString?_forms`). The marks `://` do not overlap with
themselves, so the first place where they stand in a whole address is right behind its scheme,
whatever the scheme ends with (`Target.afterScheme?_append`).
-/

namespace HttpDispatch.Target

def schemeMarks : List Char := [':', '/', '/']

/-- The target in its own form, for what follows the authority of a whole address. -/
def originForm (suffix : String) : String :=
  if Text.startsWith '/' suffix then suffix else "/" ++ suffix

def text (t : Target) : String :=
  match t.query with
  | some query => t.path ++ "?" ++ query
  | none => t.path

/-!
## The end of the scheme
-/

theorem afterScheme?_schemeMarks_append (rest : List Char) :
    afterScheme? (schemeMarks ++ rest) = some rest := rfl

theorem afterScheme?_cons {c : Char} {cs : List Char} (h : ¬ schemeMarks <+: c :: cs) :
    afterScheme? (c :: cs) = afterScheme? cs := by
  rw [afterScheme?]
  rintro rest rfl rfl
  exact h (List.prefix_append schemeMarks rest)

/-- Marks that begin in the scheme would have to end in the marks behind it, and these begin
otherwise than they end. -/
theorem not_isPrefix_schemeMarks_append {scheme : List Char} (hscheme : ¬ schemeMarks <:+: scheme)
    (hne : scheme ≠ []) (rest : List Char) : ¬ schemeMarks <+: scheme ++ (schemeMarks ++ rest) := by
  rintro ⟨tail, htail⟩
  match scheme, hne with
  | [a], _ => simp [schemeMarks] at htail
  | [a, b], _ => simp [schemeMarks] at htail
  | a :: b :: c :: cs, _ =>
      simp only [schemeMarks, List.cons_append, List.nil_append, List.cons.injEq] at htail
      obtain ⟨rfl, rfl, rfl, -⟩ := htail
      exact hscheme (List.prefix_append schemeMarks cs).isInfix

/-- The scheme ends at the marks that were put behind it. -/
theorem afterScheme?_append {scheme : List Char} (h : ¬ schemeMarks <:+: scheme)
    (rest : List Char) : afterScheme? (scheme ++ (schemeMarks ++ rest)) = some rest := by
  induction scheme with
  | nil => exact afterScheme?_schemeMarks_append rest
  | cons c cs ih =>
      have hprefix := not_isPrefix_schemeMarks_append h (List.cons_ne_nil c cs) rest
      rw [List.cons_append] at hprefix ⊢
      rw [afterScheme?_cons hprefix]
      exact ih fun hcs => h (hcs.trans (List.infix_cons_iff.2 (.inr List.infix_rfl)))

theorem afterScheme?_eq_none_iff (cs : List Char) :
    afterScheme? cs = none ↔ ¬ schemeMarks <:+: cs := by
  induction cs with
  | nil => simp [afterScheme?, schemeMarks]
  | cons c cs ih =>
      rw [List.infix_cons_iff, not_or]
      by_cases hprefix : schemeMarks <+: c :: cs
      · obtain ⟨rest, hrest⟩ := hprefix
        rw [← hrest, afterScheme?_schemeMarks_append]
        exact ⟨nofun, fun h => absurd (List.prefix_append _ _) h.1⟩
      · rw [afterScheme?_cons hprefix, ih]
        exact (and_iff_right hprefix).symm

/-!
## The three forms
-/

theorem ofString?_of_startsWith {s : String} (h : Text.startsWith '/' s = true) :
    ofString? s = some (ofOrigin s.toList) := by
  rw [ofString?, if_pos (by rw [h]; rfl)]

theorem startsWith_originForm (suffix : String) :
    Text.startsWith '/' (originForm suffix) = true := by
  unfold originForm
  split
  · next h => exact h
  · simp [Text.startsWith]

/-- What follows the authority says the same as the target in its own form. -/
theorem ofAddressEnd_eq {suffix : String}
    (h : suffix = "" ∨ Text.startsWith '/' suffix = true ∨ Text.startsWith '?' suffix = true) :
    ofAddressEnd suffix.toList = ofOrigin (originForm suffix).toList := by
  unfold originForm
  split
  · next hslash =>
    rw [Text.startsWith, beq_iff_eq] at hslash
    cases hcs : suffix.toList with
    | nil => simp [hcs] at hslash
    | cons c cs =>
        rw [hcs, List.head?_cons, Option.some.injEq] at hslash
        rw [hslash]
        rfl
  · next hslash =>
    obtain rfl | h | hquery := h
    · rfl
    · exact absurd h hslash
    · rw [Text.startsWith, beq_iff_eq] at hquery
      cases hcs : suffix.toList with
      | nil => simp [hcs] at hquery
      | cons c cs =>
          rw [hcs, List.head?_cons, Option.some.injEq] at hquery
          rw [String.toList_append, hcs, hquery]
          rfl

theorem ofString?_of_address {s : String} (h : Text.startsWith '/' s = false) {rest : List Char}
    (hrest : afterScheme? s.toList = some rest) :
    ofString? s = some (ofAddressEnd (rest.dropWhile (!endsAuthority ·))) := by
  have hstar : s ≠ "*" := by
    rintro rfl
    exact absurd hrest nofun
  rw [ofString?, if_neg (by simp [h, hstar]), hrest, Option.map_some]

theorem dropWhile_authority_append {authority suffix : List Char} (hslash : '/' ∉ authority)
    (hquery : '?' ∉ authority) (hsuffix : ∀ c ∈ suffix.head?, endsAuthority c = true) :
    (authority ++ suffix).dropWhile (!endsAuthority ·) = suffix := by
  refine (Text.takeWhile_append authority suffix (fun c hc => ?_) fun c hc => ?_).2
  · have hcslash : c ≠ '/' := ne_of_mem_of_not_mem hc hslash
    have hcquery : c ≠ '?' := ne_of_mem_of_not_mem hc hquery
    simp [endsAuthority, hcslash, hcquery]
  · rw [hsuffix c hc]
    rfl

theorem text_ofOrigin {s : String} (h : '#' ∉ s.toList) : (ofOrigin s.toList).text = s := by
  have hpath : ∀ cs : List Char, '#' ∉ cs → cs.takeWhile (· ≠ '#') = cs := fun cs hcs =>
    List.takeWhile_eq_self_iff.2 fun c hc => decide_eq_true (ne_of_mem_of_not_mem hc hcs)
  unfold ofOrigin
  split
  · next path query hcut =>
    have hs := Text.eq_append_of_cutChars hcut
    rw [hpath path fun hmem => h (hs ▸ List.mem_append_left _ hmem)]
    refine String.toList_injective ?_
    simp [text, hs]
  · rw [hpath _ h]
    exact String.ofList_toList

/-- A whole address is read as the target behind its authority is, nothing is lost of a target in
its own form, and what is neither of these nor a star is no target. -/
theorem ofString?_forms :
    (∀ scheme authority suffix : String,
      ¬ schemeMarks <:+: scheme.toList → Text.startsWith '/' scheme = false →
      '/' ∉ authority.toList → '?' ∉ authority.toList →
      suffix = "" ∨ Text.startsWith '/' suffix = true ∨ Text.startsWith '?' suffix = true →
      ofString? (scheme ++ "://" ++ authority ++ suffix) = ofString? (originForm suffix)) ∧
    (∀ s : String, Text.startsWith '/' s = true → '#' ∉ s.toList →
      ∃ t, ofString? s = some t ∧ t.text = s) ∧
    ∀ s : String, ofString? s = none ↔
      Text.startsWith '/' s = false ∧ s ≠ "*" ∧ ¬ schemeMarks <:+: s.toList := by
  refine ⟨fun scheme authority suffix hscheme hslash haslash haquery hsuffix => ?_,
    fun s hs hfragment => ?_, fun s => ?_⟩
  · have hlist : (scheme ++ "://" ++ authority ++ suffix).toList =
        scheme.toList ++ (schemeMarks ++ (authority.toList ++ suffix.toList)) := by
          simp [schemeMarks]
    have hstart : Text.startsWith '/' (scheme ++ "://" ++ authority ++ suffix) = false := by
      rw [Text.startsWith, beq_eq_false_iff_ne] at hslash ⊢
      rw [hlist]
      cases hcs : scheme.toList with
      | nil => simp [schemeMarks]
      | cons c cs => simpa [hcs] using hslash
    have hhead : ∀ c ∈ suffix.toList.head?, endsAuthority c = true := by
      intro c hc
      obtain rfl | h | h := hsuffix
      · cases hc
      all_goals
        rw [Text.startsWith, beq_iff_eq] at h
        rw [h] at hc
        cases hc
        decide
    rw [ofString?_of_address hstart (hlist ▸ afterScheme?_append hscheme _),
      dropWhile_authority_append haslash haquery hhead, ofAddressEnd_eq hsuffix,
      ofString?_of_startsWith (startsWith_originForm suffix)]
  · exact ⟨_, ofString?_of_startsWith hs, text_ofOrigin hfragment⟩
  · rw [ofString?, ← afterScheme?_eq_none_iff]
    split
    · next h =>
      constructor
      · intro hnone
        cases hnone
      · rintro ⟨hslash, hstar, -⟩
        simp [hslash, hstar] at h
    · next h =>
      rw [Option.map_eq_none_iff]
      simp_all

/-- Marks that are cut short in the scheme, a fragment in the authority and marks in the query are
no matter. -/
theorem ofString?_forms_crowded :
    ofString? ("a:/b?:" ++ "://" ++ "u:p@h#f" ++ "?x=://y#/") = some ⟨"/", some "x=://y#/"⟩ ∧
      (∃ t, ofString? "/a//b://c?d?e" = some t ∧ t.text = "/a//b://c?d?e") ∧
      ofString? "b:/x?*" = none := by
  refine ⟨?_, ofString?_forms.2.1 _ (by decide) (by decide), (ofString?_forms.2.2 _).2 (by decide)⟩
  rw [ofString?_forms.1 "a:/b?:" "u:p@h#f" "?x=://y#/" (by decide)
    (by decide) (by decide) (by decide) (by decide)]
  decide

end HttpDispatch.Target
