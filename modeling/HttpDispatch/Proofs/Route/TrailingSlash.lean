import HttpDispatch.Proofs.Route.Builder
import Mathlib.Data.List.GetD

/-!
# One more slash at the end of a path

A path that does not end in a slash has the same components with one more slash behind it
(`Path.componentChars_concat`). A scope does not end in a slash, so it covers both spellings or
neither (`FilterEntry.appliesTo_slash`). Unless slashes matter, a table treats the two spellings as
one path (`RouteTable.SameUnder`); where they do, no pattern accepts both.
-/

namespace HttpDispatch

namespace Path

variable {cs : List Char}

theorem dropLeading_append (h : cs ≠ []) (tail : List Char) :
    dropLeading (cs ++ tail) = dropLeading cs ++ tail := by
  obtain ⟨c, cs, rfl⟩ := List.exists_cons_of_ne_nil h
  rw [List.cons_append]
  unfold dropLeading
  split
  · next heq =>
    obtain ⟨rfl, rfl⟩ := List.cons.inj heq
    rfl
  · next hslash =>
    split
    · next heq =>
      obtain ⟨rfl, rfl⟩ := List.cons.inj heq
      exact absurd rfl (hslash _)
    · rfl

theorem dropTrailing_concat (cs : List Char) : dropTrailing (cs ++ ['/']) = cs := by
  simp [dropTrailing, endsInSlash]

theorem endsInSlash_dropLeading (h : cs.getLast? ≠ some '/') :
    endsInSlash (dropLeading cs) = false := by
  unfold dropLeading
  split
  · next tail =>
    cases tail with
    | nil => rfl
    | cons c tail =>
        rw [List.getLast?_cons_of_ne_nil (List.cons_ne_nil c tail)] at h
        exact beq_false_of_ne h
  · exact beq_false_of_ne h

/-- One more slash at the end leaves the components as they are. -/
theorem componentChars_concat (hne : cs ≠ []) (hlast : cs.getLast? ≠ some '/') :
    componentChars (cs ++ ['/']) = componentChars cs := by
  have hbody : body (cs ++ ['/']) = body cs := by
    rw [body, dropLeading_append hne, dropTrailing_concat, body, dropTrailing,
      endsInSlash_dropLeading hlast]
    simp
  rw [componentChars, componentChars, hbody]

theorem hasTrailingSlash_concat (hne : cs ≠ []) : hasTrailingSlash (cs ++ ['/']) = true := by
  simp [hasTrailingSlash, dropLeading_append hne, endsInSlash]

/-- The path can have one more slash at its end. -/
structure Unslashed (path : String) : Prop where
  ne_nil : path.toList ≠ []
  last : path.toList.getLast? ≠ some '/'

variable {path : String}

theorem Unslashed.components_slash (h : Unslashed path) :
    components (path ++ "/") = components path := by
  rw [components, components, String.toList_append]
  exact congrArg _ (componentChars_concat h.ne_nil h.last)

theorem Unslashed.hasTrailingSlash_slash (h : Unslashed path) :
    hasTrailingSlash (path ++ "/").toList = true ∧ hasTrailingSlash path.toList = false := by
  rw [String.toList_append]
  exact ⟨hasTrailingSlash_concat h.ne_nil, endsInSlash_dropLeading h.last⟩

end Path

namespace PathPattern

variable {p : PathPattern} {path : String}

theorem params_slash (p : PathPattern) (h : Path.Unslashed path) :
    p.params (path ++ "/") = p.params path := by
  rw [params, params, h.components_slash]

theorem accepts_slash (h : Path.Unslashed path) (hp : p.strict = false) :
    p.accepts (path ++ "/") = p.accepts path := by
  rw [accepts, accepts, h.components_slash, hp]
  rfl

/-- Where slashes matter a pattern asks for one at the end, or for none. -/
theorem not_accepts_both (h : Path.Unslashed path) (hp : p.strict = true) :
    ¬ (p.accepts path = true ∧ p.accepts (path ++ "/") = true) := by
  obtain ⟨hslash, hnone⟩ := h.hasTrailingSlash_slash
  rintro ⟨hpath, hpath'⟩
  rw [accepts, hp, hnone] at hpath
  rw [accepts, hp, hslash] at hpath'
  cases htrailing : p.trailingSlash with
  | true => simp [htrailing] at hpath
  | false => simp [htrailing] at hpath'

end PathPattern

theorem Text.getLast?_dropEndWhile_ne (s : String) (c : Char) :
    (dropEndWhile c s).toList.getLast? ≠ some c := by
  rw [dropEndWhile, String.toList_ofList, List.getLast?_reverse]
  intro hhead
  have hnot := List.head?_dropWhile_not (· = c) s.toList.reverse
  rw [hhead] at hnot
  simp at hnot

namespace FilterEntry

variable {F : Type} {path : String}

theorem getLast?_ne_of_readScope {raw : Option String} {scope : String}
    (h : readScope raw = .ok (some scope)) : scope.toList.getLast? ≠ some '/' := by
  unfold readScope at h
  split at h
  · cases h
  · dsimp only at h
    split at h
    · cases h
    · split at h
      · obtain rfl := Option.some.inj (Except.ok.inj h)
        exact Text.getLast?_dropEndWhile_ne _ _
      · cases h

/-- A scope that does not end in a slash covers both spellings of a path, or neither. -/
theorem appliesTo_slash {f : FilterEntry F}
    (hf : ∀ scope ∈ f.scope, scope.toList.getLast? ≠ some '/') (path : String) :
    f.appliesTo (path ++ "/") = f.appliesTo path := by
  obtain ⟨_ | scope, filter⟩ := f
  · rfl
  rw [Bool.eq_iff_iff, appliesTo_scope_iff, appliesTo_scope_iff, String.toList_append]
  constructor
  · rintro ⟨tail, htail, rfl | ⟨cs, rfl⟩⟩
    · rw [List.append_nil] at htail
      exact absurd (htail ▸ List.getLast?_concat) (hf scope rfl)
    · obtain ⟨init, c, hinit⟩ :=
        List.eq_nil_or_concat' ('/' :: cs) |>.resolve_left (List.cons_ne_nil _ _)
      rw [hinit, ← List.append_assoc] at htail
      refine ⟨init, (List.append_inj' htail rfl).1, ?_⟩
      cases init with
      | nil => exact .inl rfl
      | cons d init =>
          obtain ⟨rfl, -⟩ := List.cons.inj hinit
          exact .inr ⟨init, rfl⟩
  · rintro ⟨tail, htail, hends⟩
    refine ⟨tail ++ ['/'], by rw [htail, List.append_assoc]; rfl, ?_⟩
    obtain rfl | ⟨cs, rfl⟩ := hends
    · exact .inr ⟨[], rfl⟩
    · exact .inr ⟨cs ++ ['/'], rfl⟩

theorem getLast?_ne_of_ofPrefix? {raw : Option String} {filter : F} {f : FilterEntry F}
    (h : ofPrefix? raw filter = some f) : ∀ scope ∈ f.scope, scope.toList.getLast? ≠ some '/' := by
  obtain ⟨read, hread, rfl⟩ := Option.map_eq_some_iff.1 h
  rintro scope ⟨⟩
  cases hs : readScope raw with
  | error e => simp [hs, Except.toOption] at hread
  | ok read =>
      obtain rfl : read = some scope := by simpa [hs, Except.toOption] using hread
      exact getLast?_ne_of_readScope hs

end FilterEntry

variable {H B A : Type}

namespace RouteTable

/-- The table finds the same for the path with one more slash at its end: the same route or none,
the same values for the parameters of that route, and the same filters. -/
structure SameUnder (t : RouteTable H B A) (m : Method) (path : String) : Prop where
  route : t.route? m (path ++ "/") = t.route? m path
  params : ∀ e, t.route? m path = some e → e.pattern.params (path ++ "/") = e.pattern.params path
  before : t.beforeFor (path ++ "/") = t.beforeFor path
  after : t.afterFor (path ++ "/") = t.afterFor path

variable {strict : Bool} {cap : Nat} {rs : List (Registration H B A)} {path : String}

theorem strict_of_mem_accepted {e : RouteEntry H} (h : e ∈ accepted strict rs) :
    e.pattern.strict = strict := by
  obtain ⟨v, raw, roles, -, hc⟩ := exists_compile_of_mem_accepted h
  exact (PathPattern.fields_of_compile hc).2.1

theorem strict_of_mem_routes {e : RouteEntry H}
    (h : e ∈ ((empty strict cap).registerValid rs).routes) : e.pattern.strict = strict := by
  have hroutes := (empty strict cap : RouteTable H B A).perm_routes_callAll rs
  rw [callAll_eq, routes_empty, List.append_nil] at hroutes
  exact strict_of_mem_accepted (hroutes.mem_iff.1 h)

theorem scope_of_mem_before {f : FilterEntry B}
    (h : f ∈ ((empty strict cap).registerValid rs).before) :
    ∀ scope ∈ f.scope, scope.toList.getLast? ≠ some '/' := by
  rw [((empty strict cap).filters_registerValid rs).1] at h
  obtain ⟨r, -, hmade⟩ := List.mem_filterMap.1 h
  cases r with
  | before raw f | around raw f a => exact FilterEntry.getLast?_ne_of_ofPrefix? hmade
  | route v path roles handler | after raw f => cases hmade

theorem scope_of_mem_after {f : FilterEntry A}
    (h : f ∈ ((empty strict cap).registerValid rs).after) :
    ∀ scope ∈ f.scope, scope.toList.getLast? ≠ some '/' := by
  rw [((empty strict cap).filters_registerValid rs).2] at h
  obtain ⟨r, -, hmade⟩ := List.mem_filterMap.1 h
  cases r with
  | after raw f | around raw b f => exact FilterEntry.getLast?_ne_of_ofPrefix? hmade
  | route v path roles handler | before raw f => cases hmade

theorem route?_slash (h : Path.Unslashed path) (m : Method) :
    ((empty false cap).registerValid rs).route? m (path ++ "/") =
      ((empty false cap).registerValid rs).route? m path := by
  unfold route?
  cases Verb.ofMethod? m with
  | none => rfl
  | some v =>
      dsimp only
      rw [(holds_registerValid false cap rs).find?_eq, (holds_registerValid false cap rs).find?_eq,
        ← List.head?_filter, ← List.head?_filter]
      refine congrArg _ (List.filter_congr fun e he => ?_)
      rw [PathPattern.accepts_slash h (strict_of_mem_accepted he)]

theorem mem_routes_of_route? {t : RouteTable H B A} {m : Method} {e : RouteEntry H}
    (h : t.route? m path = some e) : e ∈ t.routes := by
  unfold route? at h
  split at h
  · cases h
  · next v _ =>
    have hmem : e ∈ (t.index v).candidates path := List.mem_of_find?_eq_some h
    refine List.mem_flatMap.2 ⟨v, Verb.mem_all v, List.mem_flatten.2 ⟨_, ?_, hmem⟩⟩
    have hslot := (t.index v).bucketFor_lt (Path.length path)
    rw [RouteIndex.candidates, RouteIndex.bucket, List.getD_eq_getElem _ _ hslot]
    exact List.getElem_mem hslot

theorem accepts_of_route? {t : RouteTable H B A} {m : Method} {e : RouteEntry H}
    (h : t.route? m path = some e) : e.pattern.accepts path = true := by
  unfold route? at h
  split at h
  · cases h
  · exact List.find?_some (p := fun e : RouteEntry H => e.pattern.accepts path) h

theorem filtersFor_slash (strict : Bool) (cap : Nat) (rs : List (Registration H B A))
    (path : String) : ((empty strict cap).registerValid rs).beforeFor (path ++ "/") =
        ((empty strict cap).registerValid rs).beforeFor path ∧
      ((empty strict cap).registerValid rs).afterFor (path ++ "/") =
        ((empty strict cap).registerValid rs).afterFor path :=
  ⟨List.filter_congr fun _ hf => FilterEntry.appliesTo_slash (scope_of_mem_before hf) path,
    List.filter_congr fun _ hf => FilterEntry.appliesTo_slash (scope_of_mem_after hf) path⟩

/-- Unless slashes matter, a path that does not end in one is served with one more like without it.
Where they matter, no route of a table is for both. -/
theorem spellings_registerValid {path : String} (hne : path ≠ "")
    (hlast : path.toList.getLast? ≠ some '/') (strict : Bool) (cap : Nat)
    (rs : List (Registration H B A)) (m : Method) :
    (strict = false → ((empty strict cap).registerValid rs).SameUnder m path) ∧
    (strict = true →
      (∀ e ∈ ((empty strict cap).registerValid rs).routes,
        ¬ (e.pattern.accepts path = true ∧ e.pattern.accepts (path ++ "/") = true)) ∧
      ∀ e, ((empty strict cap).registerValid rs).route? m path = some e →
        ((empty strict cap).registerValid rs).route? m (path ++ "/") ≠ some e) := by
  have hpath : Path.Unslashed path := ⟨fun hnil => hne (String.toList_eq_nil_iff.1 hnil), hlast⟩
  constructor
  · rintro rfl
    obtain ⟨hbefore, hafter⟩ := filtersFor_slash false cap rs path
    exact ⟨route?_slash hpath m, fun e _ => e.pattern.params_slash hpath, hbefore, hafter⟩
  · rintro rfl
    refine ⟨fun e he => PathPattern.not_accepts_both hpath (strict_of_mem_routes he),
      fun e he he' => ?_⟩
    have hmem : e ∈ ((empty true cap).registerValid rs).routes := mem_routes_of_route? he
    exact PathPattern.not_accepts_both hpath (strict_of_mem_routes hmem)
      ⟨accepts_of_route? he, accepts_of_route? he'⟩

def spelledTwice : List (Registration ℕ ℕ ℕ) :=
  [.around (some "/a/*") 0 1, .route .get "/a/\x7bx\x7d" [] 2, .route .get "/a/\x7bx\x7d/" [] 3]

/-- Where slashes matter the second route is for the path with a slash; where they do not, the first
one is. -/
theorem spellings_registerValid_twice :
    "/a/7" ≠ "" ∧ "/a/7".toList.getLast? ≠ some '/' ∧
      (((empty false 5).registerValid spelledTwice).route? .get "/a/7/").map (·.handler) = some 2 ∧
      (((empty false 5).registerValid spelledTwice).beforeFor "/a/7/").map (·.filter) = [0] ∧
      (((empty true 5).registerValid spelledTwice).route? .get "/a/7/").map (·.handler) = some 3 ∧
      ∀ e, ((empty true 5).registerValid spelledTwice).route? .get "/a/7" = some e →
        ((empty true 5).registerValid spelledTwice).route? .get "/a/7/" ≠ some e := by
  have hne : "/a/7" ≠ "" := by decide
  have hlast : "/a/7".toList.getLast? ≠ some '/' := by decide
  obtain ⟨hlenient, -⟩ := spellings_registerValid hne hlast false 5 spelledTwice .get
  obtain ⟨-, hstrict⟩ := spellings_registerValid hne hlast true 5 spelledTwice .get
  have hslash : "/a/7" ++ "/" = "/a/7/" := by decide
  rw [hslash] at hstrict
  refine ⟨hne, hlast, ?_, ?_, by decide +kernel, (hstrict rfl).2⟩
  · rw [← hslash, (hlenient rfl).route]
    decide +kernel
  · rw [← hslash, (hlenient rfl).before]
    decide +kernel

end RouteTable

end HttpDispatch
