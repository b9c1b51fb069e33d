import HttpDispatch.Proofs.Http.Headers

/-!
# Merging header maps

A map that is used up gives its values out name by name, and only the first value of a name comes
with that name (`Headers.givenOut`); whoever takes them up has to remember for which name the others
are (`Headers.takeUp`). In whatever order the names come, what has been taken up is what merging
says: the values of the one map in place of those of the other under each name that it has, and
nothing else (`Headers.IsMerge`, `Headers.isMerge_merge`). A second merge with the same map
therefore changes nothing.
-/

namespace HttpDispatch

namespace Headers

/-- `merged` has the values of `source` under the names that `source` has, those of `target` under
the others, and no other names. -/
structure IsMerge (target source merged : Headers) : Prop where
  getAll_of_mem : ∀ n ∈ source.names, merged.getAll n = source.getAll n
  getAll_of_notMem : ∀ n, n ∉ source.names → merged.getAll n = target.getAll n
  mem_names_iff : ∀ n, n ∈ merged.names ↔ n ∈ target.names ∨ n ∈ source.names

variable {target source merged : Headers}

/-- What stands under each name decides whether a map is a merge of two others. -/
theorem isMerge_of_getAll
    (h : ∀ n, merged.getAll n = if source.getAll n = [] then target.getAll n else source.getAll n) :
    IsMerge target source merged := by
  refine ⟨fun n hn => ?_, fun n hn => ?_, fun n => ?_⟩
  · rw [h, if_neg ((source.mem_names n).1 hn)]
  · rw [h, if_pos (Classical.not_not.1 fun hne => hn ((source.mem_names n).2 hne))]
  · rw [mem_names, mem_names, mem_names, h]
    by_cases hs : source.getAll n = [] <;> simp [hs]

theorem IsMerge.getAll_again {again : Headers} (h : IsMerge target source merged)
    (hagain : IsMerge merged source again) (n : FieldName) : again.getAll n = merged.getAll n := by
  by_cases hn : n ∈ source.names
  · rw [hagain.getAll_of_mem n hn, h.getAll_of_mem n hn]
  · exact hagain.getAll_of_notMem n hn

def fieldsOf (h : Headers) (n : FieldName) : List (FieldName × FieldValue) :=
  (h.getAll n).map (n, ·)

theorem name_of_mem_fieldsOf {h : Headers} {n : FieldName} {e : FieldName × FieldValue}
    (he : e ∈ h.fieldsOf n) : e.1 = n := by
  obtain ⟨v, -, rfl⟩ := List.mem_map.1 he
  rfl

theorem entries_foldl_append (n : FieldName) (vs : List FieldValue) (h : Headers) :
    (vs.foldl (fun h v => h.append n v) h).entries = h.entries ++ vs.map (n, ·) := by
  induction vs generalizing h with
  | nil => simp
  | cons v vs ih =>
      rw [List.foldl_cons, ih, append, List.append_assoc]
      rfl

theorem entries_replaceFrom {n : FieldName} (hn : n ∈ source.names) (h : Headers) :
    (source.replaceFrom h n).entries = h.entries.filter (·.1 ≠ n) ++ source.fieldsOf n := by
  unfold replaceFrom fieldsOf
  cases hvs : source.getAll n with
  | nil => exact absurd hvs ((source.mem_names n).1 hn)
  | cons v vs =>
      dsimp only
      rw [entries_foldl_append, insert, append, erase, List.append_assoc]
      rfl

/-- The fields that are replaced go, and those that replace them come name by name behind the
others. -/
theorem entries_foldl_replaceFrom {ns : List FieldName} (hns : ns.Nodup)
    (hmem : ∀ n ∈ ns, n ∈ source.names) (h : Headers) :
    (ns.foldl source.replaceFrom h).entries =
      h.entries.filter (·.1 ∉ ns) ++ ns.flatMap source.fieldsOf := by
  induction ns generalizing h with
  | nil =>
      have hall : h.entries.filter (·.1 ∉ []) = h.entries :=
        List.filter_eq_self.2 fun _ _ => decide_eq_true List.not_mem_nil
      rw [hall, List.flatMap_nil, List.append_nil, List.foldl_nil]
  | cons n ns ih =>
      obtain ⟨hn, hns⟩ := List.nodup_cons.1 hns
      have hstay : (source.fieldsOf n).filter (·.1 ∉ ns) = source.fieldsOf n := by
        refine List.filter_eq_self.2 fun e he => ?_
        rw [name_of_mem_fieldsOf he]
        exact decide_eq_true hn
      have hgo :
          (h.entries.filter (·.1 ≠ n)).filter (·.1 ∉ ns) = h.entries.filter (·.1 ∉ n :: ns) := by
        rw [List.filter_filter]
        refine List.filter_congr fun e _ => ?_
        simp [Bool.and_comm]
      rw [List.foldl_cons, ih hns fun m hm => hmem m (List.mem_cons_of_mem n hm),
        entries_replaceFrom (hmem n List.mem_cons_self),
          List.filter_append, hstay, hgo, List.flatMap_cons,
        List.append_assoc]

theorem nodup_eraseDups (ns : List FieldName) : ns.eraseDups.Nodup := by
  induction hlen : ns.length using Nat.strongRecOn generalizing ns with
  | ind _ ih =>
    cases ns with
    | nil => exact List.nodup_nil
    | cons n ns =>
        have hshort := List.length_filter_le (fun m => !m == n) ns
        rw [List.eraseDups_cons, List.nodup_cons, List.mem_eraseDups]
        refine ⟨fun hn => ?_, ih _ (by rw [← hlen, List.length_cons]; omega) _ rfl⟩
        simpa using (List.mem_filter.1 hn).2

theorem nodup_names (h : Headers) : h.names.Nodup := nodup_eraseDups _

theorem entries_merge (target source : Headers) :
    (target.merge source).entries =
      target.entries.filter (·.1 ∉ source.names) ++ source.names.flatMap source.fieldsOf :=
  entries_foldl_replaceFrom source.nodup_names (fun _ h => h) target

theorem merge_merge (target source : Headers) :
    (target.merge source).merge source = target.merge source := by
  have hgone : (source.names.flatMap source.fieldsOf).filter (·.1 ∉ source.names) = [] := by
    refine List.filter_eq_nil_iff.2 fun e he => ?_
    obtain ⟨n, hn, he⟩ := List.mem_flatMap.1 he
    rw [name_of_mem_fieldsOf he]
    simpa using hn
  have hentries : ((target.merge source).merge source).entries = (target.merge source).entries := by
    rw [entries_merge, entries_merge, List.filter_append, hgone, List.filter_filter]
    simp
  exact congrArg Headers.mk hentries

/-- What a map gives out when it is used up and its names come in the order of `ns`. The name stands
with the first of its values, and with no other. -/
def givenOut (h : Headers) (ns : List FieldName) : List (Option FieldName × FieldValue) :=
  ns.flatMap fun n =>
    match h.getAll n with
    | [] => []
    | v :: vs => (some n, v) :: vs.map (none, ·)

/-- Takes up one value that is given out. With a name it replaces what stands under that name;
without one it goes to the name that came last, which is remembered. -/
def takeUpValue :
    Headers × Option FieldName → Option FieldName × FieldValue → Headers × Option FieldName
  | (h, _), (some n, v) => (h.insert n v, some n)
  | (h, some n), (none, v) => (h.append n v, some n)
  | (h, none), (none, _) => (h, none)

def takeUp (h : Headers) (given : List (Option FieldName × FieldValue)) : Headers :=
  (given.foldl takeUpValue (h, none)).1

theorem foldl_takeUpValue_none (n : FieldName) (vs : List FieldValue) (h : Headers) :
    (vs.map (none, ·)).foldl takeUpValue (h, some n) =
      (vs.foldl (fun h v => h.append n v) h, some n) := by
  induction vs generalizing h with
  | nil => rfl
  | cons v vs ih => exact ih (h.append n v)

/-- Whatever name is remembered before, values taken up name by name replace those that were there
name by name. -/
theorem fst_foldl_takeUpValue (source : Headers) (ns : List FieldName) (h : Headers)
    (current : Option FieldName) :
    ((source.givenOut ns).foldl takeUpValue (h, current)).1 = ns.foldl source.replaceFrom h := by
  induction ns generalizing h current with
  | nil => rfl
  | cons n ns ih =>
      rw [givenOut, List.flatMap_cons, List.foldl_append, ← givenOut, List.foldl_cons, replaceFrom]
      cases source.getAll n with
      | nil => exact ih h current
      | cons v vs =>
          dsimp only
          rw [List.foldl_cons, takeUpValue, foldl_takeUpValue_none, ih]

theorem takeUp_givenOut (target source : Headers) (ns : List FieldName) :
    target.takeUp (source.givenOut ns) = ns.foldl source.replaceFrom target :=
  fst_foldl_takeUpValue source ns target none

/-- Merging gives each name of `source` its values there, in their order and in place of all that
stood under it, and leaves every other name as it was; a second merge with `source` changes nothing.
The same holds of taking up what `source` gives out value by value, in whatever order its names
come. -/
theorem isMerge_merge (target source : Headers) :
    IsMerge target source (target.merge source) ∧
      (target.merge source).merge source = target.merge source ∧
      ∀ ns, ns.Perm source.names →
        IsMerge target source (target.takeUp (source.givenOut ns)) ∧
          ∀ ms, ms.Perm source.names → ∀ n,
            ((target.takeUp (source.givenOut ns)).takeUp (source.givenOut ms)).getAll n =
              (target.takeUp (source.givenOut ns)).getAll n := by
  have htaken : ∀ target ns, ns.Perm source.names →
      IsMerge target source (target.takeUp (source.givenOut ns)) := by
    intro target ns hns
    refine isMerge_of_getAll fun n => ?_
    rw [takeUp_givenOut, getAll_foldl_replaceFrom]
    by_cases hs : source.getAll n = [] <;> simp [hs, hns.mem_iff, mem_names]
  refine ⟨isMerge_of_getAll (target.getAll_merge source),
    merge_merge target source, fun ns hns => ?_⟩
  exact ⟨htaken target ns hns, fun ms hms => (htaken target ns hns).getAll_again (htaken _ ms hms)⟩

/-- Two cookies and a field of another name take the place of an old cookie. The names are given out
in the other order than that in which they stand. -/
theorem isMerge_merge_cookies :
    let cookie : FieldName := ⟨"set-cookie", by decide⟩
    let target : Headers := ⟨[(cookie, .ofString "old=1"), (.contentType, .plainText)]⟩
    let source : Headers :=
      ⟨[(cookie, .ofString "a=1"), (.vary, .acceptEncoding), (cookie, .ofString "b=2")]⟩
    [FieldName.vary, cookie].Perm source.names ∧
      (target.merge source).getAll cookie = [.ofString "a=1", .ofString "b=2"] ∧
      (target.takeUp (source.givenOut [.vary, cookie])).getAll cookie =
        [.ofString "a=1", .ofString "b=2"] ∧
      (target.takeUp (source.givenOut [.vary, cookie])).getAll .contentType = [.plainText] := by
  intro cookie target source
  have hperm : [FieldName.vary, cookie].Perm source.names := by decide +kernel
  have hcookie : cookie ∈ source.names := by decide +kernel
  have hcontent : FieldName.contentType ∉ source.names := by decide +kernel
  obtain ⟨hmerge, -, htaken⟩ := isMerge_merge target source
  obtain ⟨htaken, -⟩ := htaken [.vary, cookie] hperm
  refine ⟨hperm, (hmerge.getAll_of_mem cookie hcookie).trans ?_,
    (htaken.getAll_of_mem cookie hcookie).trans ?_, (htaken.getAll_of_notMem _ hcontent).trans ?_⟩
  all_goals decide +kernel

end Headers

end HttpDispatch
