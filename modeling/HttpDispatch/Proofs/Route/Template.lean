import HttpDispatch.Proofs.Route.Scan
import HttpDispatch.Proofs.Route.Scope
import Mathlib.Data.List.Chain
import Mathlib.Data.List.Forall2

/-!
# Templates as paths

A template that is accepted is cut into its components like a path, but the empty ones are left out.
The segments of the pattern are spelled as the others are (`PathPattern.map_text_segments`). So the
template has as many components as its pattern has segments, and is matched by it if it has no
parameters, just in case no component is empty: `PathPattern.length_eq_iff_isPlain`. On the text
this says that no slash follows a slash, unless the two are the whole template (`Path.IsPlain`).
-/

namespace HttpDispatch

theorem exists_of_map_eq_ok {ε α β : Type} {f : α → β} {x : Except ε α} {b : β}
    (h : x.map f = .ok b) : ∃ a, x = .ok a ∧ f a = b := by
  cases x with
  | error e => cases h
  | ok a => exact ⟨a, rfl, Except.ok.inj h⟩

namespace Path

variable {path : String} {cs l : List Char} {ls : List (List Char)}

/-- No slash follows a slash, unless the path consists of two slashes. -/
def IsPlain (path : String) : Prop :=
  path = "//" ∨ path.toList.IsChain fun a b => a = '/' → b ≠ '/'

theorem isChain_of_not_mem (h : '/' ∉ l) : l.IsChain fun a b => a = '/' → b ≠ '/' := by
  refine (List.pairwise_of_forall_mem_list fun a ha b _ => ?_).isChain
  rintro rfl
  exact absurd ha h

theorem isChain_slashed (h : ∀ l ∈ ls, IsComponent l) :
    (slashed ls).IsChain fun a b => a = '/' → b ≠ '/' := by
  induction ls with
  | nil => exact List.isChain_nil
  | cons l ls ih =>
      obtain ⟨⟨hne, hslash⟩, hls⟩ := List.forall_mem_cons.1 h
      rw [slashed, List.flatMap_cons, List.cons_append, List.isChain_cons, List.isChain_append]
      refine ⟨fun b hb _ => ?_, isChain_of_not_mem hslash, ih hls, fun a ha _ _ ha' => ?_⟩
      · rw [List.head?_append_of_ne_nil _ hne] at hb
        rintro rfl
        exact hslash (List.mem_of_mem_head? hb)
      · exact absurd (ha' ▸ List.mem_of_getLast? ha) hslash

theorem getLast?_slashed_nil (init : List (List Char)) :
    (slashed (init ++ [[]])).getLast? = some '/' := by
  rw [slashed, List.flatMap_append, List.flatMap_singleton, List.getLast?_concat]

/-- A component that is empty leaves two slashes side by side, or one at the end. -/
theorem getLast?_slashed_of_isChain (h : (slashed ls).IsChain fun a b => a = '/' → b ≠ '/')
    (hmem : [] ∈ ls) : (slashed ls).getLast? = some '/' := by
  obtain ⟨init, rest, rfl⟩ := List.append_of_mem hmem
  cases rest with
  | nil => exact getLast?_slashed_nil init
  | cons l rest =>
      rw [slashed, List.flatMap_append, List.flatMap_cons, List.flatMap_cons,
        List.isChain_append] at h
      exact absurd rfl ((List.isChain_cons_cons.1 h.2.1).1 rfl)

theorem getLast?_ne_of_eq_dropTrailing (h : cs = dropTrailing cs) : cs.getLast? ≠ some '/' := by
  intro hlast
  rw [dropTrailing, endsInSlash, hlast, if_pos (beq_self_eq_true _)] at h
  have hlen := congrArg List.length h
  rw [List.length_dropLast] at hlen
  obtain rfl : cs = [] := List.length_eq_zero_iff.1 (by omega)
  cases hlast

theorem isPlain_of_nil_notMem (hcs : path.toList = '/' :: cs)
    (h : [] ∉ componentChars path.toList) : IsPlain path := by
  have hbody : body path.toList = dropTrailing cs := by rw [hcs]; rfl
  have hsplit := eq_dropTrailing_or cs
  unfold componentChars at h
  rw [hbody] at h
  generalize dropTrailing cs = l at h hsplit
  by_cases hl : l = []
  · obtain rfl | rfl := hsplit
    · exact .inr (by simp [hcs, hl])
    · exact .inl (String.toList_inj.1 (by simp [hcs, hl]))
  · rw [if_neg (by simpa using hl)] at h
    have hcomponents : ∀ piece ∈ l.splitOn '/', IsComponent piece := fun piece hpiece =>
      ⟨fun hnil => h (hnil ▸ hpiece), Text.not_mem_of_mem_splitOn hpiece⟩
    have hchain := isChain_slashed hcomponents
    have hlast := ne_of_beq_false (endsInSlash_slashed hcomponents)
    rw [slashed_splitOn] at hchain hlast
    refine .inr ?_
    rw [hcs]
    obtain rfl | rfl := hsplit
    · exact hchain
    · rw [← List.cons_append, List.isChain_append]
      exact ⟨hchain, List.isChain_singleton _, fun a ha _ _ ha' => absurd (ha' ▸ ha) hlast⟩

theorem nil_notMem_of_isPlain (hcs : path.toList = '/' :: cs) (h : IsPlain path) :
    [] ∉ componentChars path.toList := by
  obtain rfl | h := h
  · decide
  have hbody : body path.toList = dropTrailing cs := by rw [hcs]; rfl
  have hsplit := eq_dropTrailing_or cs
  unfold componentChars
  rw [hbody]
  split
  · exact List.not_mem_nil
  · next hne =>
    intro hmem
    rw [hcs] at h
    obtain heq | heq := hsplit
    · -- the path does not end in a slash
      rw [← heq] at hne hmem
      have hlast := getLast?_slashed_of_isChain (slashed_splitOn cs ▸ h) hmem
      rw [slashed_splitOn, List.getLast?_cons_of_ne_nil (by simpa using hne)] at hlast
      exact getLast?_ne_of_eq_dropTrailing heq hlast
    · -- the slash at the end would be the second one
      rw [heq, ← List.cons_append, List.isChain_append] at h
      have hlast := getLast?_slashed_of_isChain (slashed_splitOn (dropTrailing cs) ▸ h.1) hmem
      rw [slashed_splitOn] at hlast
      exact absurd rfl (h.2.2 _ hlast _ rfl rfl)

/-- An absolute path has no empty component just in case it is plain. -/
theorem nil_notMem_componentChars_iff (hpath : Text.startsWith '/' path = true) :
    [] ∉ componentChars path.toList ↔ IsPlain path := by
  obtain ⟨cs, hcs⟩ := exists_cons_of_startsWith hpath
  exact ⟨isPlain_of_nil_notMem hcs, nil_notMem_of_isPlain hcs⟩

end Path

namespace Segment

variable {template : String} {piece name : List Char} {s : Segment}

theorem filterMap_name?_literal (t : String) (ss : List Segment) :
    (literal t :: ss).filterMap name? = ss.filterMap name? := rfl

theorem filterMap_name?_param (n : String) (ss : List Segment) :
    (param n :: ss).filterMap name? = n :: ss.filterMap name? := rfl

theorem eq_of_inBraces? (h : inBraces? piece = some name) : piece = '\x7b' :: name ++ ['\x7d'] := by
  unfold inBraces? at h
  split at h
  · next cs =>
    split at h
    · next hlast =>
      cases h
      rw [List.cons_append, List.dropLast_append_getLast? _ hlast]
    · cases h
  · cases h

theorem toList_text_of_read (h : read template piece = .ok s) : s.text.toList = piece := by
  unfold read at h
  split at h
  · cases h
    exact String.toList_ofList
  · split at h
    · cases h
    · next name hname =>
      split at h
      · cases h
      · split at h
        · cases h
        · cases h
          rw [eq_of_inBraces? hname]
          simp [text]

end Segment

namespace PathPattern

variable {template : String} {strict : Bool} {p : PathPattern}

theorem forall₂_readPieces {names : List String} {pieces : List (List Char)}
    {segments : List Segment} (h : readPieces template names pieces = .ok segments) :
    List.Forall₂ (fun piece s => Segment.read template piece = .ok s) pieces segments := by
  induction pieces generalizing names segments with
  | nil =>
      cases h
      exact .nil
  | cons piece rest ih =>
      rw [readPieces] at h
      split at h
      · cases h
      · next t hread =>
        obtain ⟨more, hmore, rfl⟩ := exists_of_map_eq_ok h
        exact .cons hread (ih hmore)
      · next n hread =>
        split at h
        · cases h
        · obtain ⟨more, hmore, rfl⟩ := exists_of_map_eq_ok h
          exact .cons hread (ih hmore)

theorem segments_of_compile (h : compile template strict = .ok p) :
    List.Forall₂ (fun piece s => Segment.read template piece = .ok s)
      (pieces template) p.segments := by
  unfold compile at h
  split at h
  · cases h
  · obtain ⟨segments, hread, rfl⟩ := exists_of_map_eq_ok h
    exact forall₂_readPieces hread

theorem fields_of_compile (h : compile template strict = .ok p) :
    Text.startsWith '/' template = true ∧ p.strict = strict ∧
      p.trailingSlash = Path.hasTrailingSlash template.toList := by
  unfold compile at h
  split at h
  · cases h
  · next hstart =>
    obtain ⟨segments, -, rfl⟩ := exists_of_map_eq_ok h
    exact ⟨by simpa using hstart, rfl, rfl⟩

theorem template_of_compile (h : compile template strict = .ok p) : p.template = template := by
  unfold compile at h
  split at h
  · cases h
  · obtain ⟨segments, -, rfl⟩ := exists_of_map_eq_ok h
    rfl

theorem pieces_eq (template : String) :
    pieces template = (Path.componentChars template.toList).filter fun piece => !piece.isEmpty := by
  unfold pieces Path.componentChars
  split
  · next hbody =>
    rw [List.isEmpty_iff.1 hbody]
    rfl
  · rfl

/-- The segments are spelled as the components of the template that are not empty. -/
theorem map_text_segments (h : compile template strict = .ok p) :
    p.segments.map (·.text.toList) =
      (Path.componentChars template.toList).filter fun piece => !piece.isEmpty := by
  rw [← pieces_eq]
  have hread := segments_of_compile h
  generalize pieces template = pieces, p.segments = segments at hread ⊢
  induction hread with
  | nil => rfl
  | cons hread _ ih => rw [List.map_cons, ih, Segment.toList_text_of_read hread]

theorem name?_eq_none_of_isLiteral (h : p.isLiteral = true) : ∀ s ∈ p.segments, s.name? = none := by
  unfold isLiteral paramNames at h
  simpa [List.filterMap_eq_nil_iff] using h

/-- Literal segments match the components that they are spelled as, and nothing else. -/
theorem acceptsAll_iff_of_literal {ss : List Segment} {components : List String}
    (h : ∀ s ∈ ss, s.name? = none) :
    acceptsAll ss components = true ↔ ss.map (·.text) = components := by
  induction ss generalizing components with
  | nil => cases components <;> simp [acceptsAll]
  | cons s ss ih =>
      obtain ⟨hs, hss⟩ := List.forall_mem_cons.1 h
      cases components with
      | nil => simp [acceptsAll]
      | cons c cs =>
          cases s with
          | literal t => simp [acceptsAll, Segment.accepts, Segment.text, ih hss]
          | param n => cases hs

theorem accepts_iff_of_trailingSlash_eq {path : String}
    (h : Path.hasTrailingSlash path.toList = p.trailingSlash) :
    p.accepts path = true ↔ acceptsAll p.segments (Path.components path) = true := by
  simp [accepts, h]

/-- A template has as many components as its pattern has segments, and is matched by its pattern if
that has no parameters, if and only if no slash of it follows a slash: the pattern leaves out the
empty components, and a path does not. -/
theorem length_eq_iff_isPlain (h : compile template strict = .ok p) :
    (Path.length template = p.length ↔ Path.IsPlain template) ∧
      (p.isLiteral = true → (p.accepts template = true ↔ Path.IsPlain template)) := by
  obtain ⟨hstart, -, hslash⟩ := fields_of_compile h
  have htext := map_text_segments h
  have hnonempty : (∀ piece ∈ Path.componentChars template.toList, (!piece.isEmpty) = true) ↔
      Path.IsPlain template := by
    rw [← Path.nil_notMem_componentChars_iff hstart]
    simp only [Bool.not_eq_true', List.isEmpty_eq_false_iff]
    exact ⟨fun h hnil => h [] hnil rfl, fun h piece hpiece hnil => h (hnil ▸ hpiece)⟩
  constructor
  · have hlength : p.length =
        ((Path.componentChars template.toList).filter fun piece => !piece.isEmpty).length := by
      rw [← htext, List.length_map, length]
    rw [Path.length, Path.components, List.length_map, hlength, eq_comm, ← hnonempty]
    exact List.length_filter_eq_length_iff
  · intro hliteral
    have hmatch : p.segments.map (·.text) = Path.components template ↔
        p.segments.map (·.text.toList) = Path.componentChars template.toList := by
      rw [← List.map_inj_right fun _ _ => String.toList_inj.1, List.map_map,
        Path.map_toList_components]
      rfl
    rw [accepts_iff_of_trailingSlash_eq hslash.symm,
      acceptsAll_iff_of_literal (name?_eq_none_of_isLiteral hliteral), hmatch, htext, ← hnonempty]
    exact List.filter_eq_self

/-- A route that cannot be reached by the path that it was registered with. -/
theorem length_eq_iff_isPlain_doubled :
    ∃ p, compile "/a//b" false = .ok p ∧ Path.length "/a//b" ≠ p.length ∧
      p.accepts "/a//b" = false ∧ p.accepts "/a/b" = true := by
  have hcompile : compile "/a//b" false =
      .ok ⟨"/a//b", [.literal "a", .literal "b"], false, false⟩ := by decide +kernel
  have hplain : ¬ Path.IsPlain "/a//b" := by
    unfold Path.IsPlain
    decide +kernel
  obtain ⟨hlength, haccepts⟩ := length_eq_iff_isPlain hcompile
  refine ⟨_, hcompile, fun h => hplain (hlength.1 h), ?_, by decide +kernel⟩
  exact Bool.eq_false_iff.2 fun h => hplain ((haccepts rfl).1 h)

end PathPattern

end HttpDispatch
