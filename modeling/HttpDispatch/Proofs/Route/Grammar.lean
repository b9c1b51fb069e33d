import HttpDispatch.Proofs.Route.Template
import Mathlib.Data.List.Forall2
import Mathlib.Data.List.Nodup

/-!
# The grammar of templates

A template begins with a slash, and each of its parts, the empty ones left out, is a literal without
braces or a name without braces in one pair of them (`Template.Spells`). No name is given twice
(`Template.Distinct`). These are the templates that are compiled, and the segments of the pattern
are the ones that the parts spell.

Of any other template the first part at fault decides the error (`Template.FirstFault`): it is
misspelled, or it has the name of a part before it. `PathPattern.compile_iff` states both, and that
a pattern can be written as a template again.
-/

namespace HttpDispatch

namespace Template

/-- What stands between the slashes of a template, without the parts that are empty. -/
def parts (template : String) : List (List Char) :=
  (template.toList.splitOn '/').filter fun part => !part.isEmpty

def BraceFree (cs : List Char) : Prop := '\x7b' ∉ cs ∧ '\x7d' ∉ cs

instance (cs : List Char) : Decidable (BraceFree cs) := inferInstanceAs (Decidable (_ ∧ _))

def braced (name : List Char) : List Char := '\x7b' :: name ++ ['\x7d']

/-- The segment that a part of a template stands for. -/
inductive Spells : List Char → Segment → Prop
  | literal {part : List Char} (h : BraceFree part) : Spells part (.literal (String.ofList part))
  | param {name : List Char} (hne : name ≠ []) (h : BraceFree name) :
    Spells (braced name) (.param (String.ofList name))

inductive Misspelled (template : String) : List Char → PatternError → Prop
  | emptyName : Misspelled template (braced []) (.emptyParamName template)
  | malformed {part : List Char} (h : ¬ BraceFree part)
      (h' : ∀ name, BraceFree name → part ≠ braced name) :
    Misspelled template part (.malformedSegment template (String.ofList part))

/-- No two of the parts are the same name in braces. -/
def Distinct (parts : List (List Char)) : Prop := (parts.filter fun part => ¬ BraceFree part).Nodup

structure WellSpelled (parts : List (List Char)) : Prop where
  spelled : ∀ part ∈ parts, ∃ s, Spells part s
  distinct : Distinct parts

structure WellFormed (template : String) : Prop where
  absolute : template.toList.head? = some '/'
  wellSpelled : WellSpelled (parts template)

/-- The part is at fault behind the parts `before`. -/
inductive Fault (template : String) (before : List (List Char)) : List Char → PatternError → Prop
  | misspelled {part : List Char} {e : PatternError} (h : Misspelled template part e) :
    Fault template before part e
  | repeated {name : List Char} (hne : name ≠ []) (h : BraceFree name)
      (hmem : braced name ∈ before) :
    Fault template before (braced name) (.duplicateParam template (String.ofList name))

/-- The error of a template: it is not absolute, or a part is at fault and none before it is. -/
inductive FirstFault (template : String) : PatternError → Prop
  | relative (h : template.toList.head? ≠ some '/') : FirstFault template (.notAbsolute template)
  | part {before after : List (List Char)} {part : List Char} {e : PatternError}
    (habsolute : template.toList.head? = some '/')
    (hparts : parts template = before ++ part :: after)
    (hbefore : WellSpelled before) (hpart : Fault template before part e) : FirstFault template e

/-!
## Parts
-/

variable {template : String} {part name : List Char} {ps : List (List Char)} {ss : List Segment}

theorem not_braceFree_braced (name : List Char) : ¬ BraceFree (braced name) := by
  simp [BraceFree, braced]

theorem braced_injective : Function.Injective braced := by
  intro name name' h
  simpa [braced] using h

theorem parts_eq (template : String) : parts template = PathPattern.pieces template := by
  have hleading :
      ∀ cs : List Char, ((Path.dropLeading cs).splitOn '/').filter (fun part => !part.isEmpty) =
      (cs.splitOn '/').filter fun part => !part.isEmpty := by
    intro cs
    unfold Path.dropLeading
    split
    · rw [Path.splitOn_slash]
      rfl
    · rfl
  have htrailing :
      ∀ cs : List Char, ((Path.dropTrailing cs).splitOn '/').filter (fun part => !part.isEmpty) =
      (cs.splitOn '/').filter fun part => !part.isEmpty := by
    intro cs
    obtain h | h := Path.eq_dropTrailing_or cs
    · rw [← h]
    · conv => rhs; rw [h, List.splitOn_append_cons_self, List.filter_append]
      simp
  rw [parts, PathPattern.pieces, Path.body, htrailing, hleading]

end Template

namespace Segment

open Template

variable {template : String} {part : List Char} {s : Segment} {e : PatternError}

theorem inBraces?_braced (name : List Char) : inBraces? (braced name) = some name := by
  simp [inBraces?, braced]

theorem contains_braces_iff (cs : List Char) :
    (!cs.contains '\x7b' && !cs.contains '\x7d') = true ↔ BraceFree cs := by
  simp [BraceFree]

theorem contains_brace_iff (cs : List Char) :
    (cs.contains '\x7b' || cs.contains '\x7d') = true ↔ ¬ BraceFree cs := by
  simp only [Bool.or_eq_true, List.contains_iff_mem, BraceFree]
  tauto

theorem read_of_spells (h : Spells part s) : read template part = .ok s := by
  unfold read
  cases h with
  | literal h => rw [if_pos ((contains_braces_iff part).2 h)]
  | @param name hne h =>
      rw [if_neg (mt (contains_braces_iff _).1 (not_braceFree_braced name)), inBraces?_braced]
      dsimp only
      rw [if_neg fun hname => (contains_brace_iff name).1 hname h, if_neg (by simpa using hne)]

theorem read_of_misspelled (h : Misspelled template part e) : read template part = .error e := by
  unfold read
  cases h with
  | emptyName => rfl
  | malformed h h' =>
      rw [if_neg (mt (contains_braces_iff part).1 h)]
      cases hbraces : inBraces? part with
      | none => rfl
      | some name =>
          have hname : ¬ BraceFree name := fun hname => h' name hname (eq_of_inBraces? hbraces)
          dsimp only
          rw [if_pos ((contains_brace_iff name).2 hname)]

end Segment

namespace Template

/-!
## Names
-/

theorem filter_braced (h : List.Forall₂ Spells ps ss) :
    (ps.filter fun part => ¬ BraceFree part) =
      (ss.filterMap Segment.name?).map fun n => braced n.toList := by
  induction h with
  | nil => rfl
  | cons hpart _ ih =>
      cases hpart with
      | literal h => simpa [h, Segment.filterMap_name?_literal] using ih
      | @param name hne h =>
          simpa [not_braceFree_braced, Segment.filterMap_name?_param] using ih

theorem braced_mem_iff (h : List.Forall₂ Spells ps ss) (n : String) :
    braced n.toList ∈ ps ↔ n ∈ ss.filterMap Segment.name? := by
  have hmem : braced n.toList ∈ ps ↔ braced n.toList ∈ ps.filter fun part => ¬ BraceFree part := by
    simp [not_braceFree_braced]
  rw [hmem, filter_braced h, List.mem_map]
  exact ⟨fun ⟨m, hm, heq⟩ => String.toList_inj.1 (braced_injective heq) ▸ hm,
    fun hn => ⟨n, hn, rfl⟩⟩

theorem distinct_iff (h : List.Forall₂ Spells ps ss) :
    Distinct ps ↔ (ss.filterMap Segment.name?).Nodup := by
  rw [Distinct, filter_braced h]
  exact List.nodup_map_iff fun _ _ heq => String.toList_inj.1 (braced_injective heq)

/-!
## A well-spelled list, or its first part at fault
-/

theorem spells_or_misspelled (template : String) (part : List Char) :
    (∃ s, Spells part s) ∨ ∃ e, Misspelled template part e := by
  by_cases hfree : BraceFree part
  · exact .inl ⟨_, .literal hfree⟩
  · by_cases hbraced : ∃ name, BraceFree name ∧ part = braced name
    · obtain ⟨name, hname, rfl⟩ := hbraced
      by_cases hne : name = []
      · subst hne
        exact .inr ⟨_, .emptyName⟩
      · exact .inl ⟨_, .param hne hname⟩
    · exact .inr ⟨_, .malformed hfree fun name hname hpart => hbraced ⟨name, hname, hpart⟩⟩

theorem WellSpelled.concat_literal (h : WellSpelled ps) (hpart : BraceFree part) :
    WellSpelled (ps ++ [part]) where
  spelled := List.forall_mem_append.2 ⟨h.spelled, List.forall_mem_singleton.2 ⟨_, .literal hpart⟩⟩
  distinct := by
    have hdistinct := h.distinct
    unfold Distinct at hdistinct ⊢
    simpa [hpart] using hdistinct

theorem WellSpelled.concat_param (h : WellSpelled ps) (hne : name ≠ []) (hname : BraceFree name)
    (hfresh : braced name ∉ ps) : WellSpelled (ps ++ [braced name]) where
  spelled := List.forall_mem_append.2 ⟨h.spelled, List.forall_mem_singleton.2 ⟨_, .param hne hname⟩⟩
  distinct := by
    have hdistinct := h.distinct
    unfold Distinct at hdistinct ⊢
    rw [List.filter_append, List.filter_cons_of_pos (by simpa using not_braceFree_braced name),
      List.filter_nil, List.nodup_append_comm, List.singleton_append, List.nodup_cons]
    exact ⟨fun hmem => hfresh (List.mem_of_mem_filter hmem), hdistinct⟩

theorem WellSpelled.exists_segments (h : WellSpelled ps) :
    ∃ ss, List.Forall₂ Spells ps ss ∧ (ss.filterMap Segment.name?).Nodup := by
  have hall : ∀ qs : List (List Char), (∀ part ∈ qs, ∃ s, Spells part s) →
      ∃ ss, List.Forall₂ Spells qs ss := by
    intro qs hqs
    induction qs with
    | nil => exact ⟨[], .nil⟩
    | cons part qs ih =>
        obtain ⟨⟨s, hs⟩, hqs⟩ := List.forall_mem_cons.1 hqs
        obtain ⟨ss, hss⟩ := ih hqs
        exact ⟨s :: ss, .cons hs hss⟩
  obtain ⟨ss, hss⟩ := hall ps h.spelled
  exact ⟨ss, hss, (distinct_iff hss).1 h.distinct⟩

theorem wellSpelled_or_fault (template : String) (ps : List (List Char)) :
    WellSpelled ps ∨ ∃ before part after e, ps = before ++ part :: after ∧ WellSpelled before ∧
      Fault template before part e := by
  induction ps using List.reverseRecOn with
  | nil => exact .inl ⟨List.forall_mem_nil _, List.nodup_nil⟩
  | append_singleton ps part ih =>
      obtain h | ⟨before, part', after, e, rfl, hbefore, hfault⟩ := ih
      · obtain ⟨s, hs⟩ | ⟨e, he⟩ := spells_or_misspelled template part
        · cases hs with
          | literal hfree => exact .inl (h.concat_literal hfree)
          | @param name hne hname =>
              by_cases hmem : braced name ∈ ps
              · exact .inr ⟨ps, _, [], _, rfl, h, .repeated hne hname hmem⟩
              · exact .inl (h.concat_param hne hname hmem)
        · exact .inr ⟨ps, part, [], e, rfl, h, .misspelled he⟩
      · exact .inr ⟨before, part', after ++ [part], e, by simp, hbefore, hfault⟩

theorem spells_rightUnique : Relator.RightUnique Spells := by
  intro part s s' h h'
  have hread : Segment.read "" part = .ok s := Segment.read_of_spells h
  rw [Segment.read_of_spells h'] at hread
  exact (Except.ok.inj hread).symm

theorem wellFormed_or_firstFault (template : String) :
    WellFormed template ∨ ∃ e, FirstFault template e := by
  by_cases habsolute : template.toList.head? = some '/'
  · obtain h | ⟨before, part, after, e, hparts, hbefore, hfault⟩ :=
      wellSpelled_or_fault template (parts template)
    · exact .inl ⟨habsolute, h⟩
    · exact .inr ⟨e, .part habsolute hparts hbefore hfault⟩
  · exact .inr ⟨_, .relative habsolute⟩

end Template

namespace PathPattern

open Template

variable {template : String} {strict : Bool} {p : PathPattern} {e : PatternError}

/-- The segments that the first parts spell are put in front of what is read of the others. -/
theorem readPieces_append_of_spells {ps : List (List Char)} {ss : List Segment}
    (h : List.Forall₂ Spells ps ss) {names : List String}
    (hnodup : (names ++ ss.filterMap Segment.name?).Nodup) (qs : List (List Char)) :
    readPieces template names (ps ++ qs) =
      (readPieces template (names ++ ss.filterMap Segment.name?) qs).map (ss ++ ·) := by
  induction h generalizing names with
  | nil =>
      rw [List.nil_append, List.filterMap_nil, List.append_nil]
      cases readPieces template names qs <;> rfl
  | @cons part s ps ss hpart _ ih =>
      rw [List.cons_append, readPieces, Segment.read_of_spells hpart]
      cases hpart with
      | literal h =>
          rw [Segment.filterMap_name?_literal] at hnodup ⊢
          dsimp only
          rw [ih hnodup]
          cases readPieces template (names ++ ss.filterMap Segment.name?) qs <;> rfl
      | @param name hne h =>
          rw [Segment.filterMap_name?_param] at hnodup ⊢
          have hfresh : String.ofList name ∉ names := fun hmem =>
            (List.nodup_append.1 hnodup).2.2 _ hmem _ List.mem_cons_self rfl
          rw [List.append_cons] at hnodup ⊢
          dsimp only
          rw [if_neg hfresh, ih hnodup]
          cases readPieces template
            (names ++ [String.ofList name] ++ ss.filterMap Segment.name?) qs <;> rfl

theorem exists_readPieces_of_wellSpelled (template : String) {ps : List (List Char)}
    (h : WellSpelled ps) :
    ∃ ss, readPieces template [] ps = .ok ss ∧ List.Forall₂ Spells ps ss := by
  obtain ⟨ss, hss, hnodup⟩ := h.exists_segments
  have hread : readPieces template [] (ps ++ []) = _ := readPieces_append_of_spells hss hnodup []
  rw [List.append_nil] at hread
  exact ⟨ss, hread.trans (congrArg Except.ok (List.append_nil ss)), hss⟩

theorem readPieces_of_fault {before after : List (List Char)} {part : List Char}
    (hbefore : WellSpelled before) (h : Fault template before part e) :
    readPieces template [] (before ++ part :: after) = .error e := by
  obtain ⟨ss, hss, hnodup⟩ := hbefore.exists_segments
  rw [readPieces_append_of_spells hss hnodup, List.nil_append, readPieces]
  cases h with
  | misspelled h =>
      rw [Segment.read_of_misspelled h]
      rfl
  | @repeated name hne h hmem =>
      have hname : String.ofList name ∈ ss.filterMap Segment.name? :=
        (braced_mem_iff hss _).1 (by rwa [String.toList_ofList])
      rw [Segment.read_of_spells (.param hne h)]
      dsimp only
      rw [if_pos hname]
      rfl

/-- A well-formed template is compiled, and its parts spell the segments. -/
theorem exists_compile_of_wellFormed (h : WellFormed template) (strict : Bool) :
    ∃ p, compile template strict = .ok p ∧ List.Forall₂ Spells (parts template) p.segments := by
  have hstart : Text.startsWith '/' template = true := by
    rw [Text.startsWith, h.absolute]
    rfl
  obtain ⟨ss, hread, hss⟩ := exists_readPieces_of_wellSpelled template h.wellSpelled
  rw [parts_eq] at hread
  refine ⟨⟨template, ss, Path.hasTrailingSlash template.toList, strict⟩, ?_, hss⟩
  rw [compile, hstart, hread]
  rfl

theorem compile_of_firstFault (h : FirstFault template e) (strict : Bool) :
    compile template strict = .error e := by
  unfold compile
  cases h with
  | relative h =>
      have hstart : Text.startsWith '/' template = false := beq_false_of_ne h
      rw [hstart]
      rfl
  | part habsolute hparts hbefore hpart =>
      have hstart : Text.startsWith '/' template = true := by
        rw [Text.startsWith, habsolute]
        rfl
      rw [hstart, ← parts_eq, hparts, readPieces_of_fault hbefore hpart]
      rfl

theorem wellFormed_of_compile (h : compile template strict = .ok p) : WellFormed template := by
  obtain hform | ⟨e, he⟩ := wellFormed_or_firstFault template
  · exact hform
  · rw [compile_of_firstFault he] at h
    cases h

theorem firstFault_of_compile (h : compile template strict = .error e) : FirstFault template e := by
  obtain hform | ⟨e', he'⟩ := wellFormed_or_firstFault template
  · obtain ⟨p, hp, -⟩ := exists_compile_of_wellFormed hform strict
    rw [hp] at h
    cases h
  · rw [compile_of_firstFault he'] at h
    cases h
    exact he'

theorem spells_segments (h : compile template strict = .ok p) :
    List.Forall₂ Spells (parts template) p.segments := by
  obtain ⟨q, hq, hspells⟩ := exists_compile_of_wellFormed (wellFormed_of_compile h) strict
  cases hq.symm.trans h
  exact hspells

/-!
## A pattern as a template
-/

theorem toList_canonical (p : PathPattern) :
    p.canonical.toList = Path.slashed (p.segments.map (·.text.toList)) ++
      if p.trailingSlash || p.segments.isEmpty then ['/'] else [] := by
  unfold canonical
  cases p.segments with
  | nil => simp [Path.slashed]
  | cons s ss =>
      dsimp only
      rw [String.toList_append, String.toList_join, Path.slashed, List.flatMap_map,
        List.flatMap_map]
      cases p.trailingSlash <;> simp

/-- The parts of the template that a pattern is written as are its segments. -/
theorem parts_canonical {p : PathPattern} (h : ∀ s ∈ p.segments, Path.IsComponent s.text.toList) :
    parts p.canonical = p.segments.map (·.text.toList) := by
  have hcomponents : ∀ l ∈ p.segments.map (·.text.toList), Path.IsComponent l :=
    List.forall_mem_map.2 h
  have hfilter : (p.segments.map (·.text.toList)).filter (fun part => !part.isEmpty) =
      p.segments.map (·.text.toList) :=
    List.filter_eq_self.2 fun l hl => by simpa using (hcomponents l hl).1
  rw [parts, toList_canonical]
  cases p.trailingSlash || p.segments.isEmpty with
  | false =>
      rw [if_neg Bool.false_ne_true,
        Path.splitOn_slashed (fun l hl => (hcomponents l hl).2) (.inl rfl)]
      simpa using hfilter
  | true =>
      rw [if_pos rfl, Path.splitOn_slashed (fun l hl => (hcomponents l hl).2) (.inr ⟨[], rfl⟩)]
      simpa [Path.splitOn_slash] using hfilter

theorem isComponent_of_mem_parts {part : List Char} (h : part ∈ parts template) :
    Path.IsComponent part := by
  obtain ⟨hmem, hne⟩ := List.mem_filter.1 h
  exact ⟨by simpa using hne, Text.not_mem_of_mem_splitOn hmem⟩

/-- With a slash at its end or without one, in either mode, the template that a pattern is written
as has the same segments. -/
theorem exists_compile_canonical (h : compile template strict = .ok p) (slash mode : Bool) :
    ∃ q, compile { p with trailingSlash := slash }.canonical mode = .ok q ∧
      q.segments = p.segments := by
  have htext : p.segments.map (·.text.toList) = parts template := by
    rw [map_text_segments h, ← pieces_eq, parts_eq]
  have hparts : parts { p with trailingSlash := slash }.canonical = parts template := by
    rw [parts_canonical fun s hs => isComponent_of_mem_parts (htext ▸ List.mem_map_of_mem hs)]
    exact htext
  have hform : WellFormed { p with trailingSlash := slash }.canonical := by
    refine ⟨?_, hparts ▸ (wellFormed_of_compile h).wellSpelled⟩
    rw [toList_canonical]
    cases p.segments with
    | nil => simp [Path.slashed]
    | cons s ss => rfl
  obtain ⟨q, hq, hspells⟩ := exists_compile_of_wellFormed hform mode
  rw [hparts] at hspells
  exact ⟨q, hq, spells_rightUnique.forall₂ hspells (spells_segments h)⟩

/-- The well-formed templates are compiled, to the segments that their parts spell, and the names of
the parameters are those in braces. Any other template is refused for its first fault. A pattern is
written as a template that has the same segments. -/
theorem compile_iff (template : String) (strict : Bool) :
    ((∃ p, compile template strict = .ok p) ↔ WellFormed template) ∧
    (∀ p, compile template strict = .ok p →
      List.Forall₂ Spells (parts template) p.segments ∧
      (p.paramNames.map fun n => braced n.toList) =
        ((parts template).filter fun part => ¬ BraceFree part) ∧
      ∀ slash mode, ∃ q, compile { p with trailingSlash := slash }.canonical mode = .ok q ∧
        q.segments = p.segments) ∧
    ∀ e, compile template strict = .error e ↔ FirstFault template e := by
  refine ⟨⟨fun ⟨p, hp⟩ => wellFormed_of_compile hp, fun h => ?_⟩, fun p hp => ?_, fun e => ?_⟩
  · obtain ⟨p, hp, -⟩ := exists_compile_of_wellFormed h strict
    exact ⟨p, hp⟩
  · have hspells := spells_segments hp
    exact ⟨hspells, (filter_braced hspells).symm, exists_compile_canonical hp⟩
  · exact ⟨firstFault_of_compile, fun h => compile_of_firstFault h strict⟩

/-- A template with slashes beside each other and at its end, and with a name beyond ASCII. -/
theorem compile_iff_doubled :
    ∃ p, compile "//users//\x7bid\x7d/x-y/\x7bné\x7d/" true = .ok p ∧ p.paramNames = ["id", "né"] ∧
      WellFormed "//users//\x7bid\x7d/x-y/\x7bné\x7d/" ∧
      ∃ q, compile "/users/\x7bid\x7d/x-y/\x7bné\x7d" false = .ok q ∧ q.segments = p.segments := by
  have hcompile : compile "//users//\x7bid\x7d/x-y/\x7bné\x7d/" true =
      .ok ⟨"//users//\x7bid\x7d/x-y/\x7bné\x7d/",
        [.literal "users", .param "id", .literal "x-y", .param "né"], true, true⟩ := by
          decide +kernel
  obtain ⟨hiff, hread, -⟩ := compile_iff "//users//\x7bid\x7d/x-y/\x7bné\x7d/" true
  obtain ⟨-, -, hcanonical⟩ := hread _ hcompile
  exact ⟨_, hcompile, rfl, hiff.1 ⟨_, hcompile⟩, hcanonical false false⟩

/-- Of two parts at fault the first one counts. -/
example : compile "/\x7ba\x7d/b/\x7ba\x7d/\x7b\x7d" false =
    .error (.duplicateParam "/\x7ba\x7d/b/\x7ba\x7d/\x7b\x7d" "a") := by
  decide +kernel

end PathPattern

end HttpDispatch
