import HttpDispatch.Route.Registration
import Mathlib.Data.List.Basic

/-!
# Lookup is a plain scan

A table keeps its routes in buckets and looks through one of them. The other side is a list: the
routes that a sequence of registrations has made, in their order (`RouteTable.accepted`), and the
first of them that has the method of the request and matches its path (`RouteTable.scan?`).

`RouteTable.Holds` says which routes stand in which bucket. It holds of the empty table and is kept
by every registration. A pattern that matches a path has as many segments as the path has
components, so the routes outside of the path's own bucket cannot match.
-/

namespace HttpDispatch

variable {H B A : Type}

/-- The route that a registration makes; none if it is a filter, or if its template is refused. -/
def Registration.accepted? (strict : Bool) : Registration H B A → Option (RouteEntry H)
  | .route v path roles handler =>
    (PathPattern.compile path strict).toOption.map fun pattern =>
      ⟨v.name, pattern, (roles.mergeSort (· ≤ ·)).eraseDups, handler⟩
  | .before _ _ | .after _ _ | .around _ _ _ => none

namespace RouteTable

def accepted (strict : Bool) (rs : List (Registration H B A)) : List (RouteEntry H) :=
  rs.filterMap (·.accepted? strict)

/-- The first route with the method of a request whose pattern matches its path. -/
def scan? (entries : List (RouteEntry H)) (m : Method) (path : String) : Option (RouteEntry H) :=
  entries.find? fun e => e.method = m.name && e.pattern.accepts path

end RouteTable

namespace PathPattern

theorem length_eq_of_acceptsAll {segments : List Segment} {components : List String}
    (h : acceptsAll segments components = true) : segments.length = components.length := by
  induction segments generalizing components with
  | nil =>
      cases components with
      | nil => rfl
      | cons c cs => cases h
  | cons s ss ih =>
      cases components with
      | nil => cases h
      | cons c cs =>
          rw [acceptsAll, Bool.and_eq_true] at h
          rw [List.length_cons, List.length_cons, ih h.2]

/-- Segments and components are counted alike wherever a pattern matches. -/
theorem length_eq_of_accepts {p : PathPattern} {path : String} (h : p.accepts path = true) :
    p.length = Path.length path := by
  rw [accepts, Bool.and_eq_true] at h
  exact length_eq_of_acceptsAll h.2

end PathPattern

namespace RouteIndex

@[simp] theorem cap_empty (cap : Nat) : (empty cap : RouteIndex H).cap = cap := by
  simp [RouteIndex.cap, empty]

@[simp] theorem bucket_empty (cap slot : Nat) : (empty cap : RouteIndex H).bucket slot = [] := by
  rw [bucket, empty, List.getD_eq_getElem?_getD, List.getElem?_replicate]
  split <;> rfl

@[simp] theorem cap_add (i : RouteIndex H) (e : RouteEntry H) : (i.add e).cap = i.cap := by
  simp [cap, add]

theorem bucketFor_lt (i : RouteIndex H) (segments : Nat) :
    i.bucketFor segments < i.buckets.length := by
  have hpos : 0 < i.buckets.length := List.length_pos_iff.2 i.nonempty
  rw [bucketFor, cap]
  omega

theorem bucket_add (i : RouteIndex H) (e : RouteEntry H) (slot : Nat) :
    (i.add e).bucket slot =
      i.bucket slot ++ if i.bucketFor e.pattern.length = slot then [e] else [] := by
  rw [bucket, add, List.getD_eq_getElem?_getD, List.getElem?_modify, bucket,
    List.getD_eq_getElem?_getD]
  by_cases h : i.bucketFor e.pattern.length = slot
  · have hlt : slot < i.buckets.length := h ▸ i.bucketFor_lt e.pattern.length
    simp only [if_pos h, List.getElem?_eq_getElem hlt]
    rfl
  · simp only [if_neg h, List.append_nil]
    cases i.buckets[slot]? <;> rfl

end RouteIndex

namespace Verb

theorem mem_all (v : Verb) : v ∈ all := by
  cases v <;> decide

theorem name_of_ofMethod? {m : Method} {v : Verb} (h : ofMethod? m = some v) : v.name = m.name := by
  have hp := List.find?_some h
  exact of_decide_eq_true hp

theorem name_ne_of_ofMethod? {m : Method} (h : ofMethod? m = none) (v : Verb) :
    v.name ≠ m.name := by
  have hv := List.find?_eq_none.1 h v (mem_all v)
  intro hm
  exact hv (decide_eq_true hm)

theorem name_injective {v w : Verb} (h : v.name = w.name) : v = w := by
  revert h
  cases v <;> cases w <;> decide

end Verb

namespace RouteTable

/-- The routes of the table are the given ones, those of each method and each number of segments, up
to the cap, in their own bucket and in the given order. -/
structure Holds (t : RouteTable H B A) (strict : Bool) (cap : Nat) (entries : List (RouteEntry H)) :
    Prop where
  strict_eq : t.strict = strict
  cap_eq : ∀ v, (t.index v).cap = cap
  bucket_eq : ∀ v slot, (t.index v).bucket slot =
    entries.filter fun e => e.method = v.name && min e.pattern.length cap = slot

theorem holds_empty (strict : Bool) (cap : Nat) :
    Holds (empty strict cap : RouteTable H B A) strict cap [] where
  strict_eq := rfl
  cap_eq _ := RouteIndex.cap_empty cap
  bucket_eq _ slot := RouteIndex.bucket_empty cap slot

theorem Holds.registerIfValid_of_index_eq {t : RouteTable H B A} {strict : Bool} {cap : Nat}
    {entries : List (RouteEntry H)} (h : Holds t strict cap entries) {r : Registration H B A}
    (hr : ∀ u, t.register r = .ok u → u.strict = t.strict ∧ u.index = t.index) :
    Holds (t.registerIfValid r) strict cap entries := by
  cases hu : t.register r with
  | error e => rwa [registerIfValid_eq_of_error hu]
  | ok u =>
      obtain ⟨hs, hi⟩ := hr u hu
      rw [registerIfValid_eq_of_ok hu]
      exact ⟨hs.trans h.strict_eq, hi ▸ h.cap_eq, hi ▸ h.bucket_eq⟩

theorem index_eq_of_addBefore {t u : RouteTable H B A} {scope : Option String} {f : B}
    (h : t.addBefore scope f = .ok u) : u.strict = t.strict ∧ u.index = t.index := by
  unfold addBefore at h
  cases hs : FilterEntry.readScope scope with
  | error e =>
      rw [hs] at h
      cases h
  | ok scope =>
      rw [hs] at h
      cases h
      exact ⟨rfl, rfl⟩

theorem index_eq_of_addAfter {t u : RouteTable H B A} {scope : Option String} {f : A}
    (h : t.addAfter scope f = .ok u) : u.strict = t.strict ∧ u.index = t.index := by
  unfold addAfter at h
  cases hs : FilterEntry.readScope scope with
  | error e =>
      rw [hs] at h
      cases h
  | ok scope =>
      rw [hs] at h
      cases h
      exact ⟨rfl, rfl⟩

theorem index_eq_of_addAround {t u : RouteTable H B A} {scope : Option String} {b : B} {a : A}
    (h : t.addAround scope b a = .ok u) : u.strict = t.strict ∧ u.index = t.index := by
  unfold addAround at h
  cases hb : t.addBefore scope b with
  | error e =>
      rw [hb] at h
      cases h
  | ok t' =>
      rw [hb] at h
      obtain ⟨hs, hi⟩ := index_eq_of_addBefore hb
      obtain ⟨hs', hi'⟩ := index_eq_of_addAfter h
      exact ⟨hs'.trans hs, hi'.trans hi⟩

/-- A route that is added comes last in its bucket. -/
theorem Holds.addRoute {t u : RouteTable H B A} {strict : Bool} {cap : Nat}
    {entries : List (RouteEntry H)} {v : Verb} {path : String} {roles : List String} {handler : H}
    {pattern : PathPattern} (h : Holds t strict cap entries)
    (hp : PathPattern.compile path t.strict = .ok pattern)
    (hu : t.addRoute v path roles handler = .ok u) :
    Holds u strict cap
      (entries ++ [⟨v.name, pattern, (roles.mergeSort (· ≤ ·)).eraseDups, handler⟩]) := by
  simp only [RouteTable.addRoute, hp, Except.ok.injEq] at hu
  subst hu
  generalize hentry : (⟨v.name, pattern, (roles.mergeSort (· ≤ ·)).eraseDups, handler⟩ :
    RouteEntry H) = entry
  have hmethod : entry.method = v.name := hentry ▸ rfl
  refine ⟨h.strict_eq, ?_, ?_⟩
  · intro w
    by_cases hw : w = v
    · simp only [if_pos hw, RouteIndex.cap_add, h.cap_eq]
    · simp only [if_neg hw, h.cap_eq]
  · intro w slot
    rw [List.filter_append, ← h.bucket_eq]
    by_cases hw : w = v
    · subst hw
      simp [RouteIndex.bucket_add, RouteIndex.bucketFor, h.cap_eq, List.filter_singleton, hmethod]
    · have hne : entry.method ≠ w.name := by
        rw [hmethod]
        exact fun hn => hw (Verb.name_injective hn).symm
      simp [hw, hne]

theorem Holds.registerIfValid {t : RouteTable H B A} {strict : Bool} {cap : Nat}
    {entries : List (RouteEntry H)} (h : Holds t strict cap entries) (r : Registration H B A) :
    Holds (t.registerIfValid r) strict cap (entries ++ (r.accepted? strict).toList) := by
  cases r with
  | route v path roles handler =>
      have hstrict := h.strict_eq
      subst hstrict
      simp only [Registration.accepted?]
      cases hp : PathPattern.compile path t.strict with
      | error cause =>
          have hr : t.register (.route v path roles handler) =
              .error (.invalidPattern v path cause) := by
            simp only [register, RouteTable.addRoute, hp]
          rw [registerIfValid_eq_of_error hr]
          simpa [Except.toOption] using h
      | ok pattern =>
          cases hu : t.register (.route v path roles handler) with
          | error e => simp [register, RouteTable.addRoute, hp] at hu
          | ok u =>
              rw [registerIfValid_eq_of_ok hu]
              exact h.addRoute hp hu
  | before scope f =>
      rw [Registration.accepted?, Option.toList_none, List.append_nil]
      exact h.registerIfValid_of_index_eq fun u hu => index_eq_of_addBefore hu
  | after scope f =>
      rw [Registration.accepted?, Option.toList_none, List.append_nil]
      exact h.registerIfValid_of_index_eq fun u hu => index_eq_of_addAfter hu
  | around scope b a =>
      rw [Registration.accepted?, Option.toList_none, List.append_nil]
      exact h.registerIfValid_of_index_eq fun u hu => index_eq_of_addAround hu

/-- After any sequence of registrations, some of which may fail, the routes of the table are those
that the registrations have made. -/
theorem holds_registerValid (strict : Bool) (cap : Nat) (rs : List (Registration H B A)) :
    Holds ((empty strict cap).registerValid rs) strict cap (accepted strict rs) := by
  have hrun : ∀ (t : RouteTable H B A) (entries : List (RouteEntry H)),
      Holds t strict cap entries → Holds (t.registerValid rs) strict cap
        (entries ++ accepted strict rs) := by
    induction rs with
    | nil =>
        intro t entries h
        simpa [registerValid, accepted] using h
    | cons r rs ih =>
        intro t entries h
        have hstep := ih _ _ (h.registerIfValid r)
        have hsplit : entries ++ accepted strict (r :: rs) =
            entries ++ (r.accepted? strict).toList ++ accepted strict rs := by
          cases hr : r.accepted? strict <;> simp [accepted, hr]
        rw [hsplit]
        exact hstep
  exact hrun _ [] (holds_empty strict cap)

theorem exists_verb_of_mem_accepted {strict : Bool} {rs : List (Registration H B A)}
    {e : RouteEntry H} (h : e ∈ accepted strict rs) : ∃ v : Verb, e.method = v.name := by
  obtain ⟨r, -, hr⟩ := List.mem_filterMap.1 h
  cases r with
  | route v path roles handler =>
      obtain ⟨pattern, -, rfl⟩ := Option.map_eq_some_iff.1 hr
      exact ⟨v, rfl⟩
  | before scope f => cases hr
  | after scope f => cases hr
  | around scope b a => cases hr

/-- In its own bucket a lookup finds what a scan of all routes finds. -/
theorem Holds.find?_eq {t : RouteTable H B A} {strict : Bool} {cap : Nat}
    {entries : List (RouteEntry H)} (h : Holds t strict cap entries) (v : Verb) (path : String) :
    (t.index v).find? path =
      entries.find? fun e => e.method = v.name && e.pattern.accepts path := by
  rw [RouteIndex.find?, RouteIndex.candidates, h.bucket_eq, RouteIndex.bucketFor, h.cap_eq,
    List.find?_filter]
  congr 1
  funext e
  cases ha : e.pattern.accepts path with
  | false => simp
  | true => simp [PathPattern.length_eq_of_accepts ha]

theorem exists_registration_of_route? {strict : Bool} {cap : Nat} {rs : List (Registration H B A)}
    {m : Method} {path : String} {e : RouteEntry H}
    (h : ((empty strict cap).registerValid rs).route? m path = some e) :
    ∃ v raw roles, .route v raw roles e.handler ∈ rs := by
  rw [route?] at h
  split at h
  · cases h
  · rw [(holds_registerValid strict cap rs).find?_eq] at h
    obtain ⟨r, hr, haccepted⟩ := List.mem_filterMap.1 (List.mem_of_find?_eq_some h)
    cases r with
    | route v raw roles handler =>
        obtain ⟨pattern, -, rfl⟩ := Option.map_eq_some_iff.1 haccepted
        exact ⟨v, raw, roles, hr⟩
    | before raw f => cases haccepted
    | after raw f => cases haccepted
    | around raw b a => cases haccepted

/-- However many registrations have failed in between, a request is served by the first route in the
order of registration that has its method and matches its path. The bucket of a path is that of
every pattern which matches it. -/
theorem route?_registerValid (strict : Bool) (cap : Nat) (rs : List (Registration H B A))
    (m : Method) (path : String) :
    ((empty strict cap).registerValid rs).route? m path = scan? (accepted strict rs) m path ∧
      ∀ (p : PathPattern) (i : RouteIndex H), p.accepts path = true →
        i.bucketFor (Path.length path) = i.bucketFor p.length := by
  refine ⟨?_, ?_⟩
  · have h := holds_registerValid (B := B) (A := A) strict cap rs
    unfold route? scan?
    cases hv : Verb.ofMethod? m with
    | none =>
        refine (List.find?_eq_none.2 ?_).symm
        intro e he
        obtain ⟨v, hmethod⟩ := exists_verb_of_mem_accepted he
        simp [hmethod, Verb.name_ne_of_ofMethod? hv v]
    | some v =>
        simp only
        rw [h.find?_eq, Verb.name_of_ofMethod? hv]
  · intro p i hp
    rw [PathPattern.length_eq_of_accepts hp]

/-- Two routes that overlap, in the last bucket together with a longer one, after registrations that
fail. -/
def overlapping : List (Registration ℕ Unit Unit) :=
  [.route .get "/a/{x}/{x}" [] 0, .route .get "/{a}/{b}/c" [] 1,
    .before (some "x") (), .route .get "/a/{b}" [] 2, .route .get "/a/b" ["r"] 3]

/-- Of the two the one that was registered first serves the path. -/
theorem route?_registerValid_overlapping :
    (⟨"/a/{b}", [.literal "a", .param "b"], false, false⟩ : PathPattern).accepts "/a/b/" = true ∧
      (((empty false 1).registerValid overlapping).route? .get "/a/b/").map (·.handler) = some 2 ∧
      ∀ i : RouteIndex ℕ, i.bucketFor (Path.length "/a/b/") = i.bucketFor 2 := by
  obtain ⟨hroute, hbucket⟩ := route?_registerValid false 1 overlapping .get "/a/b/"
  have haccepts : (⟨"/a/{b}", [.literal "a", .param "b"], false, false⟩ : PathPattern).accepts
      "/a/b/" = true := by decide
  refine ⟨haccepts, ?_, fun i => hbucket _ i haccepts⟩
  rw [hroute]
  decide

end RouteTable

end HttpDispatch
