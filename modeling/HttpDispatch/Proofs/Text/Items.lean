import HttpDispatch.Proofs.Text.Basic

/-!
# Items of a list that is written in one line or in several

Texts that are joined by commas, with blanks around the commas or without, have the items of all of
them one after the other, but for blanks on the outside of an item. A reader of items that takes no
notice of such blanks (`Text.IgnoresBlanks`) reads the same from the joined text as from the single
ones (`Text.map_split_join`).
-/

namespace HttpDispatch.Text

theorem Padded.refl (cs : List Char) : Padded cs cs :=
  ⟨[], [], List.forall_mem_nil _, List.forall_mem_nil _, by simp⟩

theorem Padded.trim_eq {xs ys : List Char} (h : Padded xs ys) :
    trim (String.ofList xs) = trim (String.ofList ys) := by
  obtain ⟨before, after, hbefore, hafter, rfl⟩ := h
  rw [trim, trim, String.toList_ofList, String.toList_ofList, trimChars_append hbefore ys hafter]

theorem Padded.takeWhile_ne {sep : Char} (hsep : isBlank sep = false) {xs ys : List Char}
    (h : Padded xs ys) : Padded (xs.takeWhile (· ≠ sep)) (ys.takeWhile (· ≠ sep)) := by
  obtain ⟨before, after, hbefore, hafter, rfl⟩ := h
  have hne : ∀ w : List Char, (∀ c ∈ w, isBlank c = true) → ∀ c ∈ w, decide (c ≠ sep) = true := by
    intro w hw c hc
    refine decide_eq_true fun heq => ?_
    rw [← heq, hw c hc] at hsep
    cases hsep
  rw [List.append_assoc, List.takeWhile_append_of_pos (hne before hbefore), List.takeWhile_append]
  split
  · next hall =>
    -- there is no separator in the text itself
    rw [List.takeWhile_eq_self_iff.2 (hne after hafter), List.takeWhile_eq_self_iff.2]
    · exact ((Padded.refl ys).append_right hafter).append_left hbefore
    · exact List.takeWhile_eq_self_iff.1 ((List.takeWhile_prefix _).eq_of_length hall)
  · exact (Padded.refl _).append_left hbefore

/-- The name of an item: what stands before its first parameter, without blanks. -/
def itemName (item : String) : String := trim (before ';' item)

theorem Padded.itemName_eq {xs ys : List Char} (h : Padded xs ys) :
    itemName (String.ofList xs) = itemName (String.ofList ys) := by
  unfold itemName before
  rw [String.toList_ofList, String.toList_ofList]
  exact (h.takeWhile_ne (by decide)).trim_eq

section Split

variable {sep : Char} {β : Type} {f : List Char → β}

/-- A reader of items takes no notice of blanks around an item. -/
def IgnoresBlanks (f : List Char → β) : Prop := ∀ ⦃xs ys⦄, Padded xs ys → f xs = f ys

theorem notMem_of_forall_isBlank (hsep : isBlank sep = false) {w : List Char}
    (hw : ∀ c ∈ w, isBlank c = true) : sep ∉ w := by
  intro hmem
  rw [hw sep hmem] at hsep
  cases hsep

theorem splitOn_blanks_append (hsep : isBlank sep = false) {w : List Char}
    (hw : ∀ c ∈ w, isBlank c = true) (cs : List Char) :
    (w ++ cs).splitOn sep = (cs.splitOn sep).modifyHead (w ++ ·) := by
  induction w with
  | nil =>
      obtain ⟨first, rest, hitems⟩ := List.exists_cons_of_ne_nil (List.splitOn_ne_nil sep cs)
      rw [List.nil_append, hitems]
      rfl
  | cons c w ih =>
      have hc : ¬ (c == sep) = true := by
        rw [beq_iff_eq]
        rintro rfl
        exact notMem_of_forall_isBlank hsep hw List.mem_cons_self
      rw [List.cons_append, List.splitOn_cons_eq_if_modifyHead, if_neg hc,
        ih fun d hd => hw d (List.mem_cons_of_mem c hd), List.modifyHead_modifyHead]
      rfl

theorem exists_splitOn_append_blanks (hsep : isBlank sep = false) (cs : List Char) :
    ∃ items last, cs.splitOn sep = items ++ [last] ∧
      ∀ w : List Char, (∀ c ∈ w, isBlank c = true) →
      (cs ++ w).splitOn sep = items ++ [last ++ w] := by
  induction cs with
  | nil =>
      refine ⟨[], [], List.splitOn_nil sep, fun w hw => ?_⟩
      rw [List.nil_append, List.splitOn_eq_singleton (notMem_of_forall_isBlank hsep hw)]
      rfl
  | cons c cs ih =>
      obtain ⟨items, last, hitems, happend⟩ := ih
      simp only [List.cons_append, List.splitOn_cons_eq_if_modifyHead, hitems]
      by_cases hc : (c == sep) = true
      · refine ⟨[] :: items, last, if_pos hc, fun w hw => ?_⟩
        rw [if_pos hc, happend w hw]
        rfl
      · simp only [if_neg hc]
        cases items with
        | nil =>
            refine ⟨[], c :: last, rfl, fun w hw => ?_⟩
            rw [happend w hw]
            rfl
        | cons item items =>
            refine ⟨(c :: item) :: items, last, rfl, fun w hw => ?_⟩
            rw [happend w hw]
            rfl

/-- A text that is cut at a separator, with blanks around it or without, has the items of both
parts. -/
theorem map_splitOn_append (hf : IgnoresBlanks f) {comma : List Char} (hsep : isBlank sep = false)
    (hcomma : Padded comma [sep]) (xs ys : List Char) :
    ((xs ++ comma ++ ys).splitOn sep).map f = (xs.splitOn sep).map f ++ (ys.splitOn sep).map f := by
  obtain ⟨before, after, hbefore, hafter, rfl⟩ := hcomma
  obtain ⟨items, last, hitems, happend⟩ := exists_splitOn_append_blanks hsep xs
  obtain ⟨first, rest, hrest⟩ := List.exists_cons_of_ne_nil (List.splitOn_ne_nil sep ys)
  have hcut :
      xs ++ (before ++ [sep] ++ after) ++ ys = (xs ++ before) ++ sep :: (after ++ ys) := by simp
  have hlast : f (last ++ before) = f last := hf ((Padded.refl last).append_right hbefore)
  have hfirst : f (after ++ first) = f first := hf ((Padded.refl first).append_left hafter)
  rw [hcut, List.splitOn_append_cons_self, happend before hbefore,
    splitOn_blanks_append hsep hafter, hitems, hrest]
  simp [hlast, hfirst]

theorem map_splitOn_intercalate (hf : IgnoresBlanks f) {comma : List Char}
    (hsep : isBlank sep = false) (hcomma : Padded comma [sep]) {texts : List (List Char)}
    (hne : texts ≠ []) :
    ((comma.intercalate texts).splitOn sep).map f = texts.flatMap fun cs =>
      (cs.splitOn sep).map f := by
  induction texts with
  | nil => exact absurd rfl hne
  | cons cs texts ih =>
      cases texts with
      | nil => rw [List.intercalate_singleton, List.flatMap_singleton]
      | cons ds texts =>
          rw [List.intercalate_cons_cons, map_splitOn_append hf hsep hcomma,
            ih (List.cons_ne_nil ds texts)]
          rfl

end Split

/-- What is read item by item from texts that are joined by commas is what is read from the single
ones. -/
theorem map_split_join {β : Type} {f : String → β} (hf : IgnoresBlanks fun cs => f (.ofList cs))
    {comma : String} (hcomma : Padded comma.toList [',']) {texts : List String} (hne : texts ≠ []) :
    (split ',' (join comma texts)).map f = texts.flatMap fun s => (split ',' s).map f := by
  have hmap : texts.map String.toList ≠ [] := by simpa using hne
  have hread := map_splitOn_intercalate hf (by decide) hcomma hmap
  rw [List.flatMap_map] at hread
  simpa only [split, join, String.toList_intercalate, List.map_map, Function.comp_def] using hread

end HttpDispatch.Text
