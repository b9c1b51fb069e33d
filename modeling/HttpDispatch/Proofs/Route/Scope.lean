import HttpDispatch.Proofs.Text.Basic
import HttpDispatch.Route.Registration
import Mathlib.Data.List.Basic

/-!
# The scope of a filter

A filter is registered for the paths under a sequence of components, which its prefix spells with or
without a slash or a star at the end (`Path.Spells`). Its scope is looked for in the characters of a
path, while the pattern of a route is compared with the components of the path. For absolute paths
the two agree: a path has the characters of the scope at its front, and nothing or a slash behind
them, if and only if its first components are those of the scope (`FilterEntry.appliesTo_iff`).

So a filter guards the routes under its prefix: `RouteTable.guards_registerValid`.
-/

namespace HttpDispatch

namespace Path

/-!
## Components of characters
-/

variable {cs tail : List Char} {l : List Char} {ls : List (List Char)}

def slashed (ls : List (List Char)) : List Char := ls.flatMap ('/' :: ·)

def EndsComponent (tail : List Char) : Prop := tail = [] ∨ ∃ cs, tail = '/' :: cs

theorem endsComponent_slashed (ls : List (List Char)) (h : EndsComponent tail) :
    EndsComponent (slashed ls ++ tail) := by
  cases ls with
  | nil => exact h
  | cons l ls => exact .inr ⟨_, rfl⟩

theorem splitOn_slash (cs : List Char) : ('/' :: cs).splitOn '/' = [] :: cs.splitOn '/' :=
  List.splitOn_append_cons_self_of_not_mem List.not_mem_nil cs

theorem splitOn_append (hl : '/' ∉ l) (h : EndsComponent tail) :
    (l ++ tail).splitOn '/' = l :: (tail.splitOn '/').tail := by
  obtain rfl | ⟨cs, rfl⟩ := h
  · rw [List.append_nil, List.splitOn_eq_singleton hl]
    rfl
  · rw [List.splitOn_append_cons_self_of_not_mem hl, splitOn_slash, List.tail_cons]

theorem splitOn_slashed (hls : ∀ l ∈ ls, '/' ∉ l) (h : EndsComponent tail) :
    (slashed ls ++ tail).splitOn '/' = [] :: (ls ++ (tail.splitOn '/').tail) := by
  induction ls with
  | nil =>
      obtain rfl | ⟨cs, rfl⟩ := h
      · rfl
      · rw [slashed, List.flatMap_nil, List.nil_append, splitOn_slash]
        rfl
  | cons l ls ih =>
      obtain ⟨hl, hls⟩ := List.forall_mem_cons.1 hls
      have hsplit : slashed (l :: ls) ++ tail = '/' :: (l ++ (slashed ls ++ tail)) := by
        simp [slashed]
      rw [hsplit, splitOn_slash, splitOn_append hl (endsComponent_slashed ls h), ih hls]
      rfl

theorem slashed_eq_cons_intercalate (hls : ls ≠ []) : slashed ls = '/' :: ['/'].intercalate ls := by
  induction ls with
  | nil => exact absurd rfl hls
  | cons l ls ih =>
      cases ls with
      | nil => simp [slashed]
      | cons l' ls =>
          rw [List.intercalate_cons_cons, slashed, List.flatMap_cons]
          rw [slashed] at ih
          rw [ih (List.cons_ne_nil _ _)]
          simp

theorem slashed_splitOn (cs : List Char) : slashed (cs.splitOn '/') = '/' :: cs := by
  rw [slashed_eq_cons_intercalate (List.splitOn_ne_nil _ _), List.intercalate_splitOn]

def IsComponent (l : List Char) : Prop := l ≠ [] ∧ '/' ∉ l

theorem getLast?_slashed_concat (init : List (List Char)) (hl : l ≠ []) :
    (slashed (init ++ [l])).getLast? = l.getLast? := by
  rw [slashed, List.flatMap_append, List.flatMap_singleton, ← List.singleton_append,
    ← List.append_assoc, List.getLast?_append_of_ne_nil _ hl]

theorem endsInSlash_slashed (hls : ∀ l ∈ ls, IsComponent l) : endsInSlash (slashed ls) = false := by
  obtain rfl | ⟨init, l, rfl⟩ := ls.eq_nil_or_concat'
  · rfl
  · obtain ⟨hne, hslash⟩ := hls l (by simp)
    rw [endsInSlash, getLast?_slashed_concat init hne]
    exact beq_false_of_ne fun h => hslash (List.mem_of_getLast? h)

theorem endsComponent_dropTrailing (h : EndsComponent tail) :
    EndsComponent (dropTrailing tail) := by
  obtain rfl | ⟨cs, rfl⟩ := h
  · exact .inl rfl
  · unfold dropTrailing
    split
    · cases cs with
      | nil => exact .inl rfl
      | cons c cs => exact .inr ⟨_, rfl⟩
    · exact .inr ⟨cs, rfl⟩

theorem dropTrailing_slashed_append (hls : ∀ l ∈ ls, IsComponent l) (tail : List Char) :
    dropTrailing (slashed ls ++ tail) = slashed ls ++ dropTrailing tail := by
  by_cases htail : tail = []
  · subst htail
    rw [List.append_nil, dropTrailing, endsInSlash_slashed hls]
    simp [dropTrailing, endsInSlash]
  · unfold dropTrailing endsInSlash
    rw [List.getLast?_append_of_ne_nil _ htail, List.dropLast_append_of_ne_nil htail]
    split <;> rfl

theorem dropTrailing_cons {cs : List Char} (h : cs ≠ []) (c : Char) :
    dropTrailing (c :: cs) = c :: dropTrailing cs := by
  unfold dropTrailing endsInSlash
  rw [List.getLast?_cons_of_ne_nil h, List.dropLast_cons_of_ne_nil h]
  split <;> rfl

theorem eq_dropTrailing_or (cs : List Char) :
    cs = dropTrailing cs ∨ cs = dropTrailing cs ++ ['/'] := by
  unfold dropTrailing
  split
  · next h =>
    exact .inr (List.dropLast_append_getLast? '/' (eq_of_beq h)).symm
  · exact .inl rfl

/-- Of a path that has the given components at its front, these are the first components. -/
theorem exists_componentChars_eq (hne : ls ≠ []) (hls : ∀ l ∈ ls, IsComponent l)
    (h : EndsComponent tail) : ∃ more, componentChars (slashed ls ++ tail) = ls ++ more := by
  obtain ⟨l, rest, rfl⟩ := List.exists_cons_of_ne_nil hne
  have hl := (List.forall_mem_cons.1 hls).1
  have hfront : ∀ t, slashed (l :: rest) ++ t = '/' :: (l ++ (slashed rest ++ t)) := by
    intro t
    simp [slashed]
  have hbody : body (slashed (l :: rest) ++ tail) = l ++ (slashed rest ++ dropTrailing tail) := by
    have hdrop := dropTrailing_slashed_append hls tail
    rw [hfront, hfront, dropTrailing_cons (by simp [hl.1])] at hdrop
    rw [hfront]
    exact (List.cons_inj_right '/').1 hdrop
  have hsplit := splitOn_slashed (fun l h => (hls l h).2) (endsComponent_dropTrailing h)
  rw [hfront, splitOn_slash, ← hbody] at hsplit
  exact ⟨_, (if_neg (by simp [hbody, hl.1])).trans ((List.cons_inj_right []).1 hsplit)⟩

theorem exists_eq_slashed_append {cs : List Char} {more : List (List Char)} (hne : ls ≠ [])
    (h : componentChars ('/' :: cs) = ls ++ more) :
    ∃ tail, '/' :: cs = slashed ls ++ tail ∧ EndsComponent tail := by
  have hsplit : (dropTrailing cs).splitOn '/' = ls ++ more := by
    unfold componentChars at h
    split at h
    · exact absurd (List.append_eq_nil_iff.1 h.symm).1 hne
    · exact h
  have hbody : '/' :: dropTrailing cs = slashed ls ++ slashed more := by
    rw [← slashed_splitOn, hsplit, slashed, List.flatMap_append]
    rfl
  obtain heq | heq := eq_dropTrailing_or cs
  · refine ⟨slashed more, by rw [heq, hbody], ?_⟩
    exact List.append_nil (slashed more) ▸ endsComponent_slashed more (.inl rfl)
  · refine ⟨slashed more ++ ['/'], ?_, endsComponent_slashed more (.inr ⟨[], rfl⟩)⟩
    rw [heq, ← List.cons_append, hbody, List.append_assoc]

/-!
## Components of paths
-/

def ofComponents (ls : List String) : String := String.ofList (slashed (ls.map String.toList))

/-- The components of a scope: there is at least one, none is empty or contains a slash, and the
last does not end in a star, which would be taken for one that is not part of it. -/
structure IsScope (ls : List String) : Prop where
  ne_nil : ls ≠ []
  nonempty : ∀ l ∈ ls, l ≠ ""
  not_mem : ∀ l ∈ ls, '/' ∉ l.toList
  star : ∀ l ∈ ls.getLast?, l.toList.getLast? ≠ some '*'

/-- The prefixes that stand for a scope. -/
inductive Spells (ls : List String) : String → Prop
  | plain : Spells ls (ofComponents ls)
  | slash : Spells ls (ofComponents ls ++ "/")
  | star : Spells ls (ofComponents ls ++ "/*")

variable {names : List String} {path : String}

theorem IsScope.isComponent (h : IsScope names) : ∀ l ∈ names.map String.toList, IsComponent l := by
  intro l hl
  obtain ⟨name, hname, rfl⟩ := List.mem_map.1 hl
  exact ⟨fun hnil => h.nonempty name hname (String.toList_eq_nil_iff.1 hnil), h.not_mem name hname⟩

theorem map_toList_components (path : String) :
    (components path).map String.toList = componentChars path.toList := by
  simp [components, Function.comp_def]

theorem exists_cons_of_startsWith (h : Text.startsWith '/' path = true) :
    ∃ cs, path.toList = '/' :: cs := by
  rw [Text.startsWith] at h
  exact List.head?_eq_some_iff.1 (eq_of_beq h)

/-- An absolute path has the given first components if and only if these are at its front. -/
theorem prefix_components_iff (h : IsScope names) (hpath : Text.startsWith '/' path = true) :
    names <+: components path ↔
      ∃ tail, path.toList = (ofComponents names).toList ++ tail ∧ EndsComponent tail := by
  have hchars : (ofComponents names).toList = slashed (names.map String.toList) :=
    String.toList_ofList
  have hne : names.map String.toList ≠ [] := by simpa using h.ne_nil
  rw [hchars]
  constructor
  · rintro ⟨more, hmore⟩
    obtain ⟨cs, hcs⟩ := exists_cons_of_startsWith hpath
    have hcomponents := map_toList_components path
    rw [← hmore, List.map_append, hcs] at hcomponents
    rw [hcs]
    exact exists_eq_slashed_append hne hcomponents.symm
  · rintro ⟨tail, htail, hends⟩
    obtain ⟨more, hmore⟩ := exists_componentChars_eq hne h.isComponent hends
    refine ⟨more.map String.ofList, ?_⟩
    rw [components, htail, hmore, List.map_append, List.map_map]
    simp [Function.comp_def]

theorem IsScope.ends (h : IsScope names) :
    Text.startsWith '/' (ofComponents names) = true ∧
      (ofComponents names).toList.getLast? ≠ some '/' ∧
      (ofComponents names).toList.getLast? ≠ some '*' := by
  have hchars : (ofComponents names).toList = slashed (names.map String.toList) :=
    String.toList_ofList
  rw [Text.startsWith, hchars]
  refine ⟨?_, ?_, ?_⟩
  · obtain ⟨l, rest, rfl⟩ := List.exists_cons_of_ne_nil h.ne_nil
    rfl
  · exact ne_of_beq_false (endsInSlash_slashed h.isComponent)
  · obtain ⟨init, l, rfl⟩ := names.eq_nil_or_concat'.resolve_left h.ne_nil
    have hl := (h.isComponent l.toList (by simp)).1
    rw [List.map_append, List.map_singleton, getLast?_slashed_concat _ hl]
    exact h.star l (by simp)

end Path

namespace FilterEntry

variable {F : Type} {names : List String} {path : String} {filter : F}

/-- A filter with a scope applies to the paths at and under it. -/
theorem appliesTo_scope_iff (scope : String) :
    appliesTo ⟨some scope, filter⟩ path = true ↔
      ∃ tail, path.toList = scope.toList ++ tail ∧ Path.EndsComponent tail := by
  simp only [appliesTo]
  constructor
  · intro happlies
    split at happlies
    · cases happlies
    · next tail htail =>
      refine ⟨tail, (List.isPrefixOf?_eq_some_iff_append_eq.1 htail).symm, ?_⟩
      cases tail with
      | nil => exact .inl rfl
      | cons c cs =>
          have hc : c = '/' := by simpa using happlies
          exact .inr ⟨cs, hc ▸ rfl⟩
  · rintro ⟨tail, htail, hends⟩
    rw [List.isPrefixOf?_eq_some_iff_append_eq.2 htail.symm]
    obtain rfl | ⟨cs, rfl⟩ := hends
    · rfl
    · rfl

/-- A filter applies to the absolute paths whose first components are those of its scope. -/
theorem appliesTo_iff (h : Path.IsScope names) (hpath : Text.startsWith '/' path = true) :
    appliesTo ⟨some (Path.ofComponents names), filter⟩ path = true ↔
      names <+: Path.components path := by
  rw [Path.prefix_components_iff h hpath, appliesTo_scope_iff]

/-- Every prefix that stands for a scope is read as that scope. -/
theorem readScope_of_spells (h : Path.IsScope names) {raw : String} (hraw : Path.Spells names raw) :
    readScope (some raw) = .ok (some (Path.ofComponents names)) := by
  obtain ⟨hstart, hslash, hstar⟩ := h.ends
  have htrimmed :
      Text.dropEndWhile '/' ((Text.dropEnd? "*" raw).getD raw) = Path.ofComponents names := by
    have hsingle :
        Text.dropEndWhile '/' (Path.ofComponents names ++ "/") = Path.ofComponents names :=
      (Text.dropEndWhile_append_singleton _ '/').trans (Text.dropEndWhile_of_getLast?_ne hslash)
    cases hraw with
    | plain =>
        rw [show "*" = String.singleton '*' from rfl, Text.dropEnd?_eq_none hstar, Option.getD_none,
          Text.dropEndWhile_of_getLast?_ne hslash]
    | slash =>
        rw [show "*" = String.singleton '*' from rfl, Text.dropEnd?_eq_none (by simp),
          Option.getD_none, hsingle]
    | star =>
        rw [show "/*" = "/" ++ "*" from rfl, ← String.append_assoc, Text.dropEnd?_append,
          Option.getD_some, hsingle]
  have hne : (Path.ofComponents names).isEmpty = false := by
    rw [String.isEmpty_eq_false_iff]
    rintro hnil
    rw [hnil] at hstart
    cases hstart
  simp only [readScope]
  rw [htrimmed, hne, hstart]
  rfl

/-- The entry of a filter that is registered with a prefix; none if the prefix is refused. -/
def ofPrefix? (raw : Option String) (filter : F) : Option (FilterEntry F) :=
  (readScope raw).toOption.map (⟨·, filter⟩)

theorem filter_of_ofPrefix? {raw : Option String} {filter : F} {f : FilterEntry F}
    (h : ofPrefix? raw filter = some f) : f.filter = filter := by
  obtain ⟨scope, -, rfl⟩ := Option.map_eq_some_iff.1 h
  rfl

theorem ofPrefix?_of_spells (h : Path.IsScope names) {raw : String} (hraw : Path.Spells names raw)
    (filter : F) : ofPrefix? (some raw) filter = some ⟨some (Path.ofComponents names), filter⟩ := by
  rw [ofPrefix?, readScope_of_spells h hraw]
  rfl

end FilterEntry

/-- The components of a path that a pattern accepts begin with the literals that the pattern begins
with. -/
theorem PathPattern.prefix_components_of_accepts {p : PathPattern} {names : List String}
    {path : String} (hp : names.map Segment.literal <+: p.segments) (h : p.accepts path = true) :
    names <+: Path.components path := by
  rw [accepts, Bool.and_eq_true] at h
  obtain ⟨more, hmore⟩ := hp
  have hall := hmore ▸ h.2
  generalize Path.components path = components at hall ⊢
  clear h hmore
  induction names generalizing components with
  | nil => exact List.nil_prefix
  | cons name names ih =>
      cases components with
      | nil => cases hall
      | cons c cs =>
          rw [List.map_cons, List.cons_append, acceptsAll, Bool.and_eq_true] at hall
          have hname : name = c := of_decide_eq_true hall.1
          exact hname ▸ List.cons_prefix_cons.2 ⟨rfl, ih cs hall.2⟩

variable {H B A : Type}

namespace Registration

def before? : Registration H B A → Option (FilterEntry B)
  | .before raw f | .around raw f _ => FilterEntry.ofPrefix? raw f
  | .route .. | .after .. => none

def after? : Registration H B A → Option (FilterEntry A)
  | .after raw f | .around raw _ f => FilterEntry.ofPrefix? raw f
  | .route .. | .before .. => none

end Registration

namespace RouteTable

theorem filters_registerIfValid (t : RouteTable H B A) (r : Registration H B A) :
    (t.registerIfValid r).before = t.before ++ r.before?.toList ∧
      (t.registerIfValid r).after = t.after ++ r.after?.toList := by
  cases r with
  | route v path roles handler =>
      simp only [registerIfValid, register, addRoute, Registration.before?, Registration.after?,
        Option.toList_none, List.append_nil]
      split <;> exact ⟨rfl, rfl⟩
  | before raw f =>
      simp only [registerIfValid, register, addBefore, Registration.before?, Registration.after?,
        FilterEntry.ofPrefix?]
      cases FilterEntry.readScope raw <;> simp [Except.map, Except.toOption]
  | after raw f =>
      simp only [registerIfValid, register, addAfter, Registration.before?, Registration.after?,
        FilterEntry.ofPrefix?]
      cases FilterEntry.readScope raw <;> simp [Except.map, Except.toOption]
  | around raw b a =>
      simp only [registerIfValid, register, addAround, addBefore, addAfter, Registration.before?,
        Registration.after?, FilterEntry.ofPrefix?]
      cases FilterEntry.readScope raw <;> simp [Except.map, Except.toOption]

/-- The filters of a table are those that were registered with a prefix that is not refused, in
their order. -/
theorem filters_registerValid (t : RouteTable H B A) (rs : List (Registration H B A)) :
    (t.registerValid rs).before = t.before ++ rs.filterMap (·.before?) ∧
      (t.registerValid rs).after = t.after ++ rs.filterMap (·.after?) := by
  induction rs generalizing t with
  | nil => simp [registerValid]
  | cons r rs ih =>
      obtain ⟨hbefore, hafter⟩ := t.filters_registerIfValid r
      obtain ⟨hbefore', hafter'⟩ := ih (t.registerIfValid r)
      rw [hbefore] at hbefore'
      rw [hafter] at hafter'
      refine ⟨hbefore'.trans ?_, hafter'.trans ?_⟩
      · rw [List.append_assoc]
        cases h : r.before? <;> simp [h]
      · rw [List.append_assoc]
        cases h : r.after? <;> simp [h]

theorem exists_registration_of_mem_beforeFor {strict : Bool} {cap : Nat}
    {rs : List (Registration H B A)} {path : String} {f : FilterEntry B}
    (h : f ∈ ((empty strict cap).registerValid rs).beforeFor path) :
    ∃ raw, .before raw f.filter ∈ rs ∨ ∃ a, .around raw f.filter a ∈ rs := by
  obtain ⟨hbefore, -⟩ := (empty strict cap).filters_registerValid rs
  have hmem : f ∈ ((empty strict cap).registerValid rs).before := List.mem_of_mem_filter h
  rw [hbefore] at hmem
  obtain ⟨r, hr, hmade⟩ := List.mem_filterMap.1 hmem
  cases r with
  | route v raw roles handler => cases hmade
  | before raw g => exact ⟨raw, .inl (FilterEntry.filter_of_ofPrefix? hmade ▸ hr)⟩
  | after raw g => cases hmade
  | around raw b a => exact ⟨raw, .inr ⟨a, FilterEntry.filter_of_ofPrefix? hmade ▸ hr⟩⟩

theorem exists_registration_of_mem_afterFor {strict : Bool} {cap : Nat}
    {rs : List (Registration H B A)} {path : String} {f : FilterEntry A}
    (h : f ∈ ((empty strict cap).registerValid rs).afterFor path) :
    ∃ raw, .after raw f.filter ∈ rs ∨ ∃ b, .around raw b f.filter ∈ rs := by
  obtain ⟨-, hafter⟩ := (empty strict cap).filters_registerValid rs
  have hmem : f ∈ ((empty strict cap).registerValid rs).after := List.mem_of_mem_filter h
  rw [hafter] at hmem
  obtain ⟨r, hr, hmade⟩ := List.mem_filterMap.1 hmem
  cases r with
  | route v raw roles handler => cases hmade
  | before raw g => cases hmade
  | after raw g => exact ⟨raw, .inl (FilterEntry.filter_of_ofPrefix? hmade ▸ hr)⟩
  | around raw b a => exact ⟨raw, .inr ⟨b, FilterEntry.filter_of_ofPrefix? hmade ▸ hr⟩⟩

end RouteTable

namespace Registration

/-- The filters before handlers that registrations make for a path, in their order. -/
def beforeFor (rs : List (Registration H B A)) (path : String) : List (FilterEntry B) :=
  (rs.filterMap (·.before?)).filter (·.appliesTo path)

def afterFor (rs : List (Registration H B A)) (path : String) : List (FilterEntry A) :=
  (rs.filterMap (·.after?)).filter (·.appliesTo path)

theorem filtersFor_registerValid (strict : Bool) (cap : Nat) (rs : List (Registration H B A))
    (path : String) :
    ((RouteTable.empty strict cap).registerValid rs).beforeFor path = beforeFor rs path ∧
      ((RouteTable.empty strict cap).registerValid rs).afterFor path = afterFor rs path := by
  obtain ⟨hbefore, hafter⟩ := (RouteTable.empty strict cap).filters_registerValid rs
  unfold RouteTable.beforeFor RouteTable.afterFor
  rw [hbefore, hafter]
  exact ⟨rfl, rfl⟩

/-- Filters that are registered for all paths stand between those that are registered before and
after them. -/
theorem filtersFor_append_around (earlier later : List (Registration H B A)) (b : B) (a : A)
    (path : String) :
    beforeFor (earlier ++ .around none b a :: later) path =
        beforeFor earlier path ++ ⟨none, b⟩ :: beforeFor later path ∧
      afterFor (earlier ++ .around none b a :: later) path =
        afterFor earlier path ++ ⟨none, a⟩ :: afterFor later path := by
  have hbefore : (.around none b a : Registration H B A).before? = some ⟨none, b⟩ := rfl
  have hafter : (.around none b a : Registration H B A).after? = some ⟨none, a⟩ := rfl
  unfold beforeFor afterFor
  rw [List.filterMap_append, List.filterMap_cons_some hbefore, List.filter_append,
    List.filter_cons_of_pos rfl, List.filterMap_append,
    List.filterMap_cons_some hafter, List.filter_append, List.filter_cons_of_pos rfl]
  exact ⟨rfl, rfl⟩

end Registration

namespace RouteTable

/-- Among the filters that are chosen for a path, `f` guards the routes under a scope: it is chosen
for every absolute path that the pattern of such a route accepts, and applies to no absolute path
but those under the scope. -/
def Guards {F : Type} (chosen : String → List (FilterEntry F)) (names : List String)
    (f : F) : Prop :=
  ∃ e : FilterEntry F, e.filter = f ∧ ∀ path, Text.startsWith '/' path = true →
    (∀ p : PathPattern, names.map Segment.literal <+: p.segments → p.accepts path = true →
      e ∈ chosen path) ∧
    (e.appliesTo path = true → (Path.components path).take names.length = names)

theorem guards_of_mem {F : Type} {names : List String} (hnames : Path.IsScope names)
    {entries : List (FilterEntry F)} {f : F}
    (h : ⟨some (Path.ofComponents names), f⟩ ∈ entries) :
    Guards (fun path => entries.filter (·.appliesTo path)) names f := by
  refine ⟨⟨some (Path.ofComponents names), f⟩, rfl, fun path hpath => ⟨?_, ?_⟩⟩
  · intro p hp haccepts
    have hcomponents := p.prefix_components_of_accepts hp haccepts
    exact List.mem_filter.2 ⟨h, (FilterEntry.appliesTo_iff hnames hpath).2 hcomponents⟩
  · intro happlies
    exact List.prefix_iff_eq_take.1 ((FilterEntry.appliesTo_iff hnames hpath).1 happlies) |>.symm

/-- A filter that is registered with a prefix guards the routes under it, in whatever order filters
and routes are registered, and however the prefix, the template of the route and the path of the
request are spelled. -/
theorem guards_registerValid {names : List String} (hnames : Path.IsScope names) {raw : String}
    (hraw : Path.Spells names raw) (t : RouteTable H B A) (rs : List (Registration H B A)) :
    (∀ f, (.before (some raw) f ∈ rs ∨ ∃ a, .around (some raw) f a ∈ rs) →
      Guards (t.registerValid rs).beforeFor names f) ∧
    (∀ f, (.after (some raw) f ∈ rs ∨ ∃ b, .around (some raw) b f ∈ rs) →
      Guards (t.registerValid rs).afterFor names f) := by
  obtain ⟨hbefore, hafter⟩ := t.filters_registerValid rs
  have hentry := @FilterEntry.ofPrefix?_of_spells
  refine ⟨fun f hf => guards_of_mem hnames ?_, fun f hf => guards_of_mem hnames ?_⟩
  · rw [hbefore, List.mem_append]
    obtain hf | ⟨a, hf⟩ := hf
    · exact .inr (List.mem_filterMap.2 ⟨_, hf, hentry hnames hraw f⟩)
    · exact .inr (List.mem_filterMap.2 ⟨_, hf, hentry hnames hraw f⟩)
  · rw [hafter, List.mem_append]
    obtain hf | ⟨b, hf⟩ := hf
    · exact .inr (List.mem_filterMap.2 ⟨_, hf, hentry hnames hraw f⟩)
    · exact .inr (List.mem_filterMap.2 ⟨_, hf, hentry hnames hraw f⟩)

/-- A filter with a star at the end of its prefix, between routes whose templates spell their
slashes in other ways. -/
def guarded : List (Registration ℕ ℕ ℕ) :=
  [.route .get "//area//{id}/" [] 0, .around (some "/area/*") 1 2, .route .get "/area" [] 3,
    .before (some "area") 4]

theorem guards_registerValid_guarded :
    Guards ((empty true 5).registerValid guarded).beforeFor ["area"] 1 ∧
      Guards ((empty true 5).registerValid guarded).afterFor ["area"] 2 ∧
      (((empty true 5).registerValid guarded).route? .get "/area/7/").map (·.handler) = some 0 ∧
      (((empty true 5).registerValid guarded).beforeFor "/area/7/").map (·.filter) = [1] := by
  have hnames : Path.IsScope ["area"] := ⟨by decide, by decide, by decide, by decide⟩
  have hraw : Path.Spells ["area"] "/area/*" := Path.Spells.star
  obtain ⟨hbefore, hafter⟩ := guards_registerValid hnames hraw (empty true 5) guarded
  refine ⟨hbefore 1 (.inr ⟨2, by simp [guarded]⟩), hafter 2 (.inr ⟨1, by simp [guarded]⟩), ?_, ?_⟩
  · decide +kernel
  · decide +kernel

end RouteTable

end HttpDispatch
