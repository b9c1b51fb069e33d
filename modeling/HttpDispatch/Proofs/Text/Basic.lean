import HttpDispatch.Text.Basic
import Mathlib.Data.List.Basic
import Mathlib.Data.List.DropRight
import Mathlib.Data.List.TakeWhile

/-!
# Cutting and trimming texts that were put together

What operations on text make of a text whose parts are known.
-/

namespace HttpDispatch.Text

theorem cutChars_append {sep : Char} {before : List Char} (h : sep ∉ before) (after : List Char) :
    cutChars sep (before ++ sep :: after) = some (before, after) := by
  induction before with
  | nil => rw [List.nil_append, cutChars, if_pos rfl]
  | cons c before ih =>
      rw [List.mem_cons, not_or] at h
      rw [List.cons_append, cutChars, if_neg (Ne.symm h.1), ih h.2]
      rfl

theorem eq_append_of_cutChars {sep : Char} {cs before after : List Char}
    (h : cutChars sep cs = some (before, after)) : cs = before ++ sep :: after := by
  induction cs generalizing before with
  | nil => cases h
  | cons c cs ih =>
      rw [cutChars] at h
      split at h
      · next hc =>
        cases h
        rw [hc, List.nil_append]
      · obtain ⟨⟨a, b⟩, hab, heq⟩ := Option.map_eq_some_iff.1 h
        cases heq
        rw [List.cons_append, ← ih hab]

theorem cutChars_eq_none {sep : Char} {cs : List Char} (h : sep ∉ cs) : cutChars sep cs = none := by
  cases hcut : cutChars sep cs with
  | none => rfl
  | some parts =>
    exact absurd (eq_append_of_cutChars hcut ▸ List.mem_append_right _ List.mem_cons_self) h

theorem takeWhile_append {p : Char → Bool} (cs rest : List Char) (h : ∀ c ∈ cs, p c = true)
    (hrest : ∀ c ∈ rest.head?, p c = false) :
    (cs ++ rest).takeWhile p = cs ∧ (cs ++ rest).dropWhile p = rest := by
  rw [List.takeWhile_append_of_pos h, List.dropWhile_append_of_pos h]
  cases rest with
  | nil => exact ⟨List.append_nil cs, rfl⟩
  | cons c rest =>
      have hc : ¬ p c = true := Bool.eq_false_iff.1 (hrest c rfl)
      rw [List.takeWhile_cons_of_neg hc, List.dropWhile_cons_of_neg hc, List.append_nil]
      exact ⟨rfl, rfl⟩

theorem exists_dropBlankEnd_append (cs : List Char) :
    ∃ after, (∀ c ∈ after, isBlank c = true) ∧ cs = dropBlankEnd cs ++ after := by
  refine ⟨(cs.reverse.takeWhile isBlank).reverse, fun c hc => ?_, ?_⟩
  · exact List.mem_takeWhile_imp (List.mem_reverse.1 hc)
  · rw [dropBlankEnd, ← List.reverse_append, List.takeWhile_append_dropWhile, List.reverse_reverse]

theorem dropBlankEnd_append (cs : List Char) {after : List Char}
    (h : ∀ c ∈ after, isBlank c = true) : dropBlankEnd (cs ++ after) = dropBlankEnd cs := by
  rw [dropBlankEnd, dropBlankEnd, List.reverse_append,
    List.dropWhile_append_of_pos fun c hc => h c (List.mem_reverse.1 hc)]

theorem trimChars_append {before after : List Char} (hbefore : ∀ c ∈ before, isBlank c = true)
    (cs : List Char) (hafter : ∀ c ∈ after, isBlank c = true) :
    trimChars (before ++ cs ++ after) = trimChars cs := by
  unfold trimChars
  rw [List.append_assoc, List.dropWhile_append_of_pos hbefore, List.dropWhile_append]
  split
  · next h =>
    rw [List.isEmpty_iff.1 h, List.dropWhile_eq_nil_iff.2 hafter]
  · exact dropBlankEnd_append _ hafter

theorem trimChars_trimChars (cs : List Char) : trimChars (trimChars cs) = trimChars cs := by
  have hstart : trimChars cs <+: cs.dropWhile isBlank := List.rdropWhile_prefix _ _
  have hdrop : (trimChars cs).dropWhile isBlank = trimChars cs := by
    refine List.dropWhile_eq_self_iff.2 fun hlen => ?_
    rw [hstart.getElem hlen]
    exact List.dropWhile_get_zero_not _ _ _
  rw [trimChars, hdrop]
  exact List.rdropWhile_idempotent _ _

theorem trim_trim (s : String) : trim (trim s) = trim s := by
  rw [trim, trim, String.toList_ofList, trimChars_trimChars]

theorem trimChars_of_forall {cs : List Char} (h : ∀ c ∈ cs, isBlank c = false) :
    trimChars cs = cs := by
  have hdrop : ∀ cs : List Char, (∀ c ∈ cs, isBlank c = false) → cs.dropWhile isBlank = cs := by
    intro cs hcs
    cases cs with
    | nil => rfl
    | cons c cs => rw [List.dropWhile_cons, if_neg (by simp [hcs c List.mem_cons_self])]
  rw [trimChars, hdrop _ h, dropBlankEnd, hdrop _ fun c hc => h c (List.mem_reverse.1 hc),
    List.reverse_reverse]

theorem trim_of_forall {s : String} (h : ∀ c ∈ s.toList, isBlank c = false) : trim s = s := by
  rw [trim, trimChars_of_forall h, String.ofList_toList]

/-- Blanks stand on both sides of `core`, or on one, or none. -/
def Padded (cs core : List Char) : Prop :=
  ∃ before after, (∀ c ∈ before, isBlank c = true) ∧ (∀ c ∈ after, isBlank c = true) ∧
    cs = before ++ core ++ after

theorem padded_trimChars (cs : List Char) : Padded cs (trimChars cs) := by
  obtain ⟨after, hafter, hcs⟩ := exists_dropBlankEnd_append (cs.dropWhile isBlank)
  refine ⟨cs.takeWhile isBlank, after, fun _ => List.mem_takeWhile_imp, hafter, ?_⟩
  rw [trimChars, List.append_assoc, ← hcs, List.takeWhile_append_dropWhile]

theorem Padded.append_left {w cs core : List Char} (h : Padded cs core)
    (hw : ∀ c ∈ w, isBlank c = true) : Padded (w ++ cs) core := by
  obtain ⟨before, after, hbefore, hafter, rfl⟩ := h
  refine ⟨w ++ before, after, fun c hc => ?_, hafter, by simp⟩
  exact (List.mem_append.1 hc).elim (hw c) (hbefore c)

theorem Padded.append_right {w cs core : List Char} (h : Padded cs core)
    (hw : ∀ c ∈ w, isBlank c = true) : Padded (cs ++ w) core := by
  obtain ⟨before, after, hbefore, hafter, rfl⟩ := h
  refine ⟨before, after ++ w, hbefore, fun c hc => ?_, by simp⟩
  exact (List.mem_append.1 hc).elim (hafter c) (hw c)

theorem Padded.trimChars_eq {cs core : List Char} (h : Padded cs core)
    (hcore : ∀ c ∈ core, isBlank c = false) : trimChars cs = core := by
  obtain ⟨before, after, hbefore, hafter, rfl⟩ := h
  rw [trimChars_append hbefore core hafter, trimChars_of_forall hcore]

theorem Padded.not_mem {cs core : List Char} {c : Char} (h : Padded cs core)
    (hc : isBlank c = false) (hcore : c ∉ core) : c ∉ cs := by
  obtain ⟨before, after, hbefore, hafter, rfl⟩ := h
  simp only [List.mem_append, not_or]
  refine ⟨⟨fun hmem => ?_, hcore⟩, fun hmem => ?_⟩
  · rw [hbefore c hmem] at hc
    cases hc
  · rw [hafter c hmem] at hc
    cases hc

theorem dropWhile_append_cons {c : Char} (hc : isBlank c = false) (before after : List Char) :
    (before ++ c :: after).dropWhile isBlank = before.dropWhile isBlank ++ c :: after := by
  rw [List.dropWhile_append]
  split
  · next h =>
    rw [List.isEmpty_iff.1 h, List.dropWhile_cons_of_neg (by simp [hc])]
    rfl
  · rfl

theorem trimChars_append_cons {c : Char} (hc : isBlank c = false) (before after : List Char) :
    trimChars (before ++ c :: after) = before.dropWhile isBlank ++ c :: dropBlankEnd after := by
  rw [trimChars, dropWhile_append_cons hc, dropBlankEnd, List.reverse_append, List.reverse_cons,
    List.append_assoc, List.singleton_append, dropWhile_append_cons hc]
  simp [dropBlankEnd]

theorem trimChars_dropWhile (cs : List Char) : trimChars (cs.dropWhile isBlank) = trimChars cs := by
  rw [trimChars, List.dropWhile_idempotent, trimChars]

theorem trimChars_dropBlankEnd (cs : List Char) : trimChars (dropBlankEnd cs) = trimChars cs := by
  obtain ⟨after, hafter, hcs⟩ := exists_dropBlankEnd_append cs
  conv => rhs; rw [hcs]
  exact (trimChars_append (List.forall_mem_nil _) _ hafter).symm

theorem dropEnd?_append (s tail : String) : dropEnd? tail (s ++ tail) = some s := by
  have hsuffix : tail.toList.isSuffixOf? (s ++ tail).toList = some s.toList :=
    List.isSuffixOf?_eq_some_iff_append_eq.2 String.toList_append.symm
  rw [dropEnd?, hsuffix, Option.map_some, String.ofList_toList]

theorem dropEnd?_eq_none {s : String} {c : Char} (h : s.toList.getLast? ≠ some c) :
    dropEnd? (String.singleton c) s = none := by
  unfold dropEnd?
  cases hsuffix : (String.singleton c).toList.isSuffixOf? s.toList with
  | none => rfl
  | some cs =>
      have hs := List.isSuffixOf?_eq_some_iff_append_eq.1 hsuffix
      rw [← hs, String.toList_singleton, List.getLast?_concat] at h
      exact absurd rfl h

theorem dropEndWhile_of_getLast?_ne {s : String} {c : Char} (h : s.toList.getLast? ≠ some c) :
    dropEndWhile c s = s := by
  have hdrop : s.toList.reverse.dropWhile (· = c) = s.toList.reverse := by
    rw [← List.head?_reverse] at h
    cases hcs : s.toList.reverse with
    | nil => rfl
    | cons d cs =>
        rw [hcs, List.head?_cons] at h
        exact List.dropWhile_cons_of_neg (by simpa using fun hd => h (congrArg some hd))
  rw [dropEndWhile, hdrop, List.reverse_reverse, String.ofList_toList]

theorem dropEndWhile_append_singleton (s : String) (c : Char) :
    dropEndWhile c (s ++ String.singleton c) = dropEndWhile c s := by
  simp [dropEndWhile]

theorem not_mem_of_mem_splitOn {sep : Char} {cs piece : List Char} (h : piece ∈ cs.splitOn sep) :
    sep ∉ piece := by
  induction cs generalizing piece with
  | nil => simp_all
  | cons c cs ih =>
      obtain ⟨first, rest, hpieces⟩ := List.exists_cons_of_ne_nil (List.splitOn_ne_nil sep cs)
      rw [List.splitOn_cons_eq_if_modifyHead, hpieces] at h
      rw [hpieces] at ih
      split at h
      · obtain rfl | h := List.mem_cons.1 h
        · exact List.not_mem_nil
        · exact ih h
      · next hc =>
        have hc' : sep ≠ c := fun h => hc (beq_iff_eq.2 h.symm)
        obtain rfl | h := List.mem_cons.1 h
        · simpa [hc'] using ih List.mem_cons_self
        · exact ih (List.mem_cons_of_mem first h)

/-- The piece before the first separator, and the pieces of what follows it. -/
theorem split_of_append {sep : Char} {s before : String} (h : sep ∉ before.toList) (after : String)
    (hs : s.toList = before.toList ++ sep :: after.toList) :
    split sep s = before :: split sep after := by
  rw [split, hs, List.splitOn_append_cons_self_of_not_mem h, List.map_cons, String.ofList_toList,
    split]

theorem split_of_not_mem {sep : Char} {s : String} (h : sep ∉ s.toList) : split sep s = [s] := by
  rw [split, List.splitOn_eq_singleton h, List.map_singleton, String.ofList_toList]

end HttpDispatch.Text
