import HttpDispatch.Proofs.Route.Template
import HttpDispatch.Proofs.Url.Percent

/-!
# The parameters of a path

A pattern makes a path of values for its parameters (`PathPattern.pathOf`): each value stands
percent-encoded between two slashes, so whatever its characters are, it is one component, and is
read back as the value. Of any other path that is matched the parameters hold components
(`PathPattern.captured`). They are read in order, and the first that stands for no text ends the
reading. Both are stated in `PathPattern.params_of_compile`.
-/

namespace HttpDispatch

namespace Path

variable {ls : List (List Char)}

theorem slash_not_mem_of_mem_componentChars {cs l : List Char} (h : l ∈ componentChars cs) :
    '/' ∉ l := by
  unfold componentChars at h
  split at h
  · cases h
  · exact Text.not_mem_of_mem_splitOn h

theorem intercalate_ne_nil (hls : ls ≠ []) (h : ∀ l ∈ ls, IsComponent l) :
    ['/'].intercalate ls ≠ [] := by
  obtain ⟨l, rest, rfl⟩ := List.exists_cons_of_ne_nil hls
  have hl := (h l List.mem_cons_self).1
  cases rest with
  | nil => simpa using hl
  | cons l' rest => simp [List.intercalate_cons_cons, hl]

theorem endsInSlash_intercalate (h : ∀ l ∈ ls, IsComponent l) :
    endsInSlash (['/'].intercalate ls) = false := by
  by_cases hls : ls = []
  · subst hls
    rfl
  · have hslashed := endsInSlash_slashed h
    rwa [slashed_eq_cons_intercalate hls, endsInSlash,
      List.getLast?_cons_of_ne_nil (intercalate_ne_nil hls h)] at hslashed

/-- What the two slashes at the ends of a path leave is cut into the components that it
was made of. -/
theorem components_of_intercalate (h : ∀ l ∈ ls, IsComponent l) (slash : Bool) :
    componentChars ('/' :: ['/'].intercalate ls ++ if slash then ['/'] else []) = ls ∧
      hasTrailingSlash ('/' :: ['/'].intercalate ls ++ if slash then ['/'] else []) = slash := by
  have hends := endsInSlash_intercalate h
  have hbody :
      body ('/' :: ['/'].intercalate ls ++ if slash then ['/'] else []) = ['/'].intercalate ls := by
    rw [body, List.cons_append, dropLeading, dropTrailing, endsInSlash]
    cases slash with
    | false =>
        rw [endsInSlash] at hends
        simp [hends]
    | true => simp
  constructor
  · rw [componentChars, hbody]
    by_cases hls : ls = []
    · subst hls
      rfl
    · rw [if_neg (by simpa using intercalate_ne_nil hls h),
        List.splitOn_intercalate '/' (fun l hl => (h l hl).2) hls]
  · rw [hasTrailingSlash, List.cons_append, dropLeading]
    cases slash with
    | false => simpa using hends
    | true => simp [endsInSlash]

end Path

/-- What stands in a path in the place of a segment: its text, or the value of its parameter. -/
def Segment.filled (value : String → String) : Segment → String
  | .literal t => t
  | .param n => Percent.encode (value n)

namespace PathPattern

variable {template : String} {strict : Bool} {p : PathPattern} {value : String → String}

/-- The path that has the given values for the parameters. It has a slash at the end if the template
has one. -/
def pathOf (p : PathPattern) (value : String → String) : String :=
  "/" ++ Text.join "/" (p.segments.map (·.filled value)) ++ if p.trailingSlash then "/" else ""

/-- The components that stand in the places of parameters, with the names of these. -/
def capturedBy (segments : List Segment) (components : List String) : List (String × String) :=
  (segments.zip components).filterMap fun (s, c) => s.name?.map (·, c)

theorem capturedBy_literal (t c : String) (ss : List Segment) (cs : List String) :
    capturedBy (.literal t :: ss) (c :: cs) = capturedBy ss cs := rfl

theorem capturedBy_param (n c : String) (ss : List Segment) (cs : List String) :
    capturedBy (.param n :: ss) (c :: cs) = (n, c) :: capturedBy ss cs := rfl

theorem nodup_of_readPieces {names : List String} {pieces : List (List Char)}
    {segments : List Segment} (h : readPieces template names pieces = .ok segments) :
    (segments.filterMap Segment.name?).Nodup ∧ ∀ n ∈ segments.filterMap Segment.name?,
    n ∉ names := by
  induction pieces generalizing names segments with
  | nil =>
      cases h
      simp
  | cons piece rest ih =>
      rw [readPieces] at h
      split at h
      · cases h
      · next t hread =>
        obtain ⟨more, hmore, rfl⟩ := exists_of_map_eq_ok h
        rw [Segment.filterMap_name?_literal]
        exact ih hmore
      · next n hread =>
        split at h
        · cases h
        · next hn =>
          obtain ⟨more, hmore, rfl⟩ := exists_of_map_eq_ok h
          obtain ⟨hnodup, hfresh⟩ := ih hmore
          simp only [List.mem_append, List.mem_singleton, not_or] at hfresh
          rw [Segment.filterMap_name?_param]
          refine ⟨List.nodup_cons.2 ⟨fun hmem => (hfresh n hmem).2 rfl, hnodup⟩, ?_⟩
          exact List.forall_mem_cons.2 ⟨hn, fun m hm => (hfresh m hm).1⟩

theorem nodup_paramNames (h : compile template strict = .ok p) : p.paramNames.Nodup := by
  unfold compile at h
  split at h
  · cases h
  · obtain ⟨segments, hread, rfl⟩ := exists_of_map_eq_ok h
    exact (nodup_of_readPieces hread).1

/-!
## Values that are put into a path
-/

theorem isComponent_filled (h : compile template strict = .ok p)
    (hvalue : ∀ n ∈ p.paramNames, value n ≠ "") :
    ∀ s ∈ p.segments, Path.IsComponent (s.filled value).toList := by
  intro s hs
  cases s with
  | literal t =>
      have hmem : t.toList ∈ p.segments.map (·.text.toList) := List.mem_map.2 ⟨_, hs, rfl⟩
      rw [map_text_segments h, List.mem_filter] at hmem
      have hne : t.toList ≠ [] := by simpa [Segment.text] using hmem.2
      exact ⟨hne, Path.slash_not_mem_of_mem_componentChars hmem.1⟩
  | param n =>
      have hn : n ∈ p.paramNames := List.mem_filterMap.2 ⟨_, hs, rfl⟩
      refine ⟨fun hnil => ?_, Percent.slash_not_mem_encode _⟩
      exact Percent.encode_ne_empty (hvalue n hn) (String.toList_eq_nil_iff.1 hnil)

theorem acceptsAll_filled {segments : List Segment}
    (h : ∀ n ∈ segments.filterMap Segment.name?, value n ≠ "") :
    acceptsAll segments (segments.map (·.filled value)) = true := by
  induction segments with
  | nil => rfl
  | cons s ss ih =>
      rw [List.map_cons, acceptsAll, Bool.and_eq_true]
      cases s with
      | literal t => exact ⟨decide_eq_true rfl, ih h⟩
      | param n =>
          rw [Segment.filterMap_name?_param, List.forall_mem_cons] at h
          exact ⟨decide_eq_true (Percent.encode_ne_empty h.1), ih h.2⟩

theorem bind_filled (segments : List Segment) (value : String → String) :
    bind segments (segments.map (·.filled value)) =
      .ok ((segments.filterMap Segment.name?).map fun n => (n, value n)) := by
  induction segments with
  | nil => rfl
  | cons s ss ih =>
      rw [List.map_cons]
      cases s with
      | literal t => exact ih
      | param n =>
          have hread := Percent.decode?_eq_some_iff.2 (Percent.standsFor_encode (value n))
          rw [Segment.filled, bind, hread, ih]
          rfl

theorem toList_pathOf (p : PathPattern) (value : String → String) :
    (p.pathOf value).toList = '/' :: ['/'].intercalate
      (p.segments.map (·.filled value |>.toList)) ++ if p.trailingSlash then ['/'] else [] := by
  rw [pathOf, String.toList_append, String.toList_append, Text.join, String.toList_intercalate,
    List.map_map]
  split <;> rfl

theorem components_pathOf (h : compile template strict = .ok p)
    (hvalue : ∀ n ∈ p.paramNames, value n ≠ "") :
    Path.components (p.pathOf value) = p.segments.map (·.filled value) ∧
      Path.hasTrailingSlash (p.pathOf value).toList = p.trailingSlash := by
  have hcomponents : ∀ l ∈ p.segments.map (·.filled value |>.toList), Path.IsComponent l :=
    List.forall_mem_map.2 (isComponent_filled h hvalue)
  obtain ⟨hchars, hslash⟩ := Path.components_of_intercalate hcomponents p.trailingSlash
  rw [← toList_pathOf] at hchars hslash
  refine ⟨?_, hslash⟩
  rw [Path.components, hchars, List.map_map]
  exact List.map_congr_left fun s _ => String.ofList_toList

/-!
## Components that are matched
-/

/-- What the parameters have been given: a value for each component in the place of one, which this
stands for, under the name of the parameter. No value is empty. -/
structure Given (names : List String) (captured values : List (String × String)) : Prop where
  names_eq : values.map Prod.fst = names
  standsFor : List.Forall₂ (fun part value => Percent.StandsFor part.2 value.2) captured values
  nonempty : ∀ value ∈ values, value.2 ≠ ""

/-- `c` is the first of the components in the places of parameters that stands for no text. -/
def FirstBroken (captured : List (String × String)) (c : String) : Prop :=
  ∃ before n after, captured = before ++ (n, c) :: after ∧
    (∀ part ∈ before, ∃ value, Percent.StandsFor part.2 value) ∧
    ∀ value, ¬ Percent.StandsFor c value

theorem FirstBroken.cons {captured : List (String × String)} {n c c' value : String}
    (h : FirstBroken captured c) (hc' : Percent.StandsFor c' value) :
    FirstBroken ((n, c') :: captured) c := by
  obtain ⟨before, m, after, rfl, hbefore, hbroken⟩ := h
  exact ⟨(n, c') :: before, m, after, rfl, List.forall_mem_cons.2 ⟨⟨value, hc'⟩, hbefore⟩, hbroken⟩

/-- Components that are matched are read up to the first that cannot be. -/
theorem bind_cases {segments : List Segment} {components : List String}
    (h : acceptsAll segments components = true) :
    (∃ values, bind segments components = .ok values ∧
      Given (segments.filterMap Segment.name?) (capturedBy segments components) values) ∨
    ∃ c, bind segments components = .error (.undecodable c) ∧
      FirstBroken (capturedBy segments components) c := by
  induction segments generalizing components with
  | nil =>
      cases components with
      | nil => exact .inl ⟨[], rfl, rfl, .nil, by simp⟩
      | cons c cs => cases h
  | cons s ss ih =>
      cases components with
      | nil => cases h
      | cons c cs =>
          rw [acceptsAll, Bool.and_eq_true] at h
          cases s with
          | literal t =>
              rw [capturedBy_literal, Segment.filterMap_name?_literal, bind]
              exact ih h.2
          | param n =>
              have hc : c ≠ "" := of_decide_eq_true h.1
              rw [capturedBy_param, Segment.filterMap_name?_param, bind]
              cases hread : Percent.decode? c with
              | none =>
                  refine .inr ⟨c, rfl, [], n, _, rfl, by simp, ?_⟩
                  exact Percent.decode?_eq_none_iff.1 hread
              | some value =>
                  have hvalue := Percent.decode?_eq_some_iff.1 hread
                  obtain ⟨values, hok, hgiven⟩ | ⟨c', herror, hbroken⟩ := ih h.2
                  · refine .inl ⟨(n, value) :: values, by rw [hok]; rfl, ?_, ?_, ?_⟩
                    · rw [List.map_cons, hgiven.names_eq]
                    · exact .cons hvalue hgiven.standsFor
                    · exact List.forall_mem_cons.2 ⟨hvalue.ne_empty hc, hgiven.nonempty⟩
                  · exact .inr ⟨c', by rw [herror]; rfl, hbroken.cons hvalue⟩

/-- A path that is made of values for the parameters of a pattern is matched by it, and the
parameters are given these values. A path that is matched in any other way gives each parameter the
text that its component stands for, which is not empty, or is refused for the first component of a
parameter that stands for none. -/
theorem params_of_compile (h : compile template strict = .ok p) :
    p.paramNames.Nodup ∧
    (∀ value : String → String, (∀ n ∈ p.paramNames, value n ≠ "") →
      p.accepts (p.pathOf value) = true ∧
        p.params (p.pathOf value) = .ok (p.paramNames.map fun n => (n, value n))) ∧
    ∀ path, p.accepts path = true →
      (∃ values, p.params path = .ok values ∧
        Given p.paramNames (capturedBy p.segments (Path.components path)) values) ∨
      ∃ c, p.params path = .error (.undecodable c) ∧
        FirstBroken (capturedBy p.segments (Path.components path)) c := by
  refine ⟨nodup_paramNames h, fun value hvalue => ?_, fun path haccepts => ?_⟩
  · obtain ⟨hcomponents, hslash⟩ := components_pathOf h hvalue
    constructor
    · rw [accepts_iff_of_trailingSlash_eq hslash, hcomponents]
      exact acceptsAll_filled hvalue
    · rw [params, hcomponents]
      exact bind_filled p.segments value
  · rw [accepts, Bool.and_eq_true] at haccepts
    exact bind_cases haccepts.2

/-- A pattern with two parameters and a slash at its end. -/
def versioned : PathPattern where
  template := "//files/{name}/v/{rev}/"
  segments := [.literal "files", .param "name", .literal "v", .param "rev"]
  trailingSlash := true
  strict := true

/-- Values with a slash, a percent sign, a plus sign and a letter beyond ASCII, and one that looks
like a step up. -/
def awkward (n : String) : String := if n = "name" then "50% of/é+" else ".."

theorem params_of_compile_awkward :
    compile "//files/{name}/v/{rev}/" true = .ok versioned ∧
      versioned.pathOf awkward = "/files/50%25%20of%2F%C3%A9%2B/v/../" ∧
      versioned.accepts "/files/50%25%20of%2F%C3%A9%2B/v/../" = true ∧
      versioned.params "/files/50%25%20of%2F%C3%A9%2B/v/../" =
        .ok [("name", "50% of/é+"), ("rev", "..")] := by
  have hcompile : compile "//files/{name}/v/{rev}/" true = .ok versioned := by decide +kernel
  have hpath : versioned.pathOf awkward = "/files/50%25%20of%2F%C3%A9%2B/v/../" := by decide +kernel
  obtain ⟨-, hmade, -⟩ := params_of_compile hcompile
  obtain ⟨haccepts, hparams⟩ := hmade awkward (by decide +kernel)
  rw [hpath] at haccepts hparams
  exact ⟨hcompile, hpath, haccepts, hparams⟩

/-- A path that is refused for its second parameter. -/
example : versioned.params "/files/%61/v/%C3/" = .error (.undecodable "%C3") := by
  cbv

end PathPattern

end HttpDispatch
