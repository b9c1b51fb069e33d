import HttpDispatch.Attempt
import HttpDispatch.Proofs.Route.Scan
import HttpDispatch.Proofs.Route.Scope
import HttpDispatch.Proofs.Route.Template
import Mathlib.Data.List.Perm.Basic

/-!
# Tables that are built in place

A table is built by calls that change it in place: a call that fails may leave behind what it has
done so far, and middleware is registered as two filters, one after the other (`RouteTable.call`).
The second of the two is refused only if the first is, so every call does all of its work or none
(`RouteTable.call_eq`).

After any calls the table is that of the registrations that have succeeded (`RouteTable.BuiltFrom`).
The buckets are known from the scan of a table. The routes of all buckets together are the
registered ones in another order (`RouteTable.perm_routes_registerValid`), which gives their number
and their templates.
-/

namespace HttpDispatch

variable {H B A : Type}

namespace Registration

def isRoute : Registration H B A → Bool
  | .route .. => true
  | .before .. | .after .. | .around .. => false

def isValid (strict : Bool) : Registration H B A → Bool
  | .route _ path _ _ => (PathPattern.compile path strict).isOk
  | .before raw _ | .after raw _ | .around raw _ _ => (FilterEntry.readScope raw).isOk

end Registration

namespace RouteTable

/-- The table after an addition; the table as it was, if that fails. -/
def put (t : RouteTable H B A) (r : Except RouteError (RouteTable H B A)) :
    Attempt (RouteTable H B A) RouteError Unit :=
  match r with
  | .ok u => (.ok (), u)
  | .error e => (.error e, t)

/-- A registration in place. What the first of two filters has changed stays changed if the second
is refused. -/
def call (t : RouteTable H B A) : Registration H B A → Attempt (RouteTable H B A) RouteError Unit
  | .route v path roles h => t.put (t.addRoute v path roles h)
  | .before raw f => t.put (t.addBefore raw f)
  | .after raw f => t.put (t.addAfter raw f)
  | .around raw b a => (t.put (t.addBefore raw b)).andThen fun _ u => u.put (u.addAfter raw a)

def callAll (t : RouteTable H B A) (rs : List (Registration H B A)) : RouteTable H B A :=
  rs.foldl (fun t r => (t.call r).2) t

def succeeded (t : RouteTable H B A) : List (Registration H B A) → List (Registration H B A)
  | [] => []
  | r :: rs =>
    match t.call r with
    | (.ok (), u) => r :: u.succeeded rs
    | (.error _, u) => u.succeeded rs

/-- The table consists of what has been registered, and of nothing else. -/
structure BuiltFrom (t : RouteTable H B A) (strict : Bool) (cap : Nat)
    (done : List (Registration H B A)) :
    Prop where
  cap_eq : ∀ v, (t.index v).cap = cap
  bucket_eq : ∀ v slot, (t.index v).bucket slot =
    (accepted strict done).filter fun e => e.method = v.name && min e.pattern.length cap = slot
  /-- A lookup goes through the routes in the bucket of the path. -/
  candidates_eq : ∀ v path, (t.index v).candidates path =
    (accepted strict done).filter fun e =>
      e.method = v.name && min e.pattern.length cap = min (Path.length path) cap
  size_eq : t.size = done.countP (·.isRoute)
  templates_ascending : t.templates.Pairwise (· < ·)
  mem_templates : ∀ raw, raw ∈ t.templates ↔ ∃ v roles h, .route v raw roles h ∈ done
  before_eq : t.before = done.filterMap (·.before?)
  after_eq : t.after = done.filterMap (·.after?)

variable {t : RouteTable H B A} {r : Registration H B A}

/-!
## Calls
-/

/-- A call does all of its work, or none: a prefix that is good for the one filter is good for the
other. -/
theorem call_eq (t : RouteTable H B A) (r : Registration H B A) :
    t.call r = t.put (t.register r) := by
  cases r with
  | route v path roles h => rfl
  | before raw f => rfl
  | after raw f => rfl
  | around raw b a =>
      simp only [call, register, addAround, addBefore, addAfter]
      cases FilterEntry.readScope raw <;> rfl

theorem snd_call (t : RouteTable H B A) (r : Registration H B A) :
    (t.call r).2 = t.registerIfValid r := by
  rw [call_eq]
  cases h : t.register r with
  | ok u => exact (registerIfValid_eq_of_ok h).symm
  | error e => exact (registerIfValid_eq_of_error h).symm

theorem callAll_eq (t : RouteTable H B A) (rs : List (Registration H B A)) :
    t.callAll rs = t.registerValid rs := by
  simp only [callAll, registerValid, snd_call]

/-- A registration is refused, and nothing changes, or it succeeds, and the mode of the
table stays. -/
theorem call_cases (t : RouteTable H B A) (r : Registration H B A) :
    (r.isValid t.strict = false ∧ ∃ e, t.register r = .error e ∧ t.call r = (.error e, t)) ∨
      (r.isValid t.strict = true ∧
        ∃ u, t.register r = .ok u ∧ t.call r = (.ok (), u) ∧ u.strict = t.strict) := by
  rw [call_eq]
  cases r with
  | route v path roles h =>
      simp only [register, addRoute, Registration.isValid]
      cases PathPattern.compile path t.strict with
      | error e => exact .inl ⟨rfl, _, rfl, rfl⟩
      | ok p => exact .inr ⟨rfl, _, rfl, rfl, rfl⟩
  | before raw f | after raw f | around raw b a =>
      simp only [register, addAround, addBefore, addAfter, Registration.isValid]
      cases FilterEntry.readScope raw with
      | error e => exact .inl ⟨rfl, _, rfl, rfl⟩
      | ok scope => exact .inr ⟨rfl, _, rfl, rfl, rfl⟩

theorem eq_of_call_error {e : RouteError} (h : (t.call r).1 = .error e) : (t.call r).2 = t := by
  obtain ⟨-, e', -, heq⟩ | ⟨-, u, -, heq, -⟩ := t.call_cases r
  · rw [heq]
  · rw [heq] at h
    cases h

theorem call_around_cases (t : RouteTable H B A) (raw : Option String) (b : B) (a : A) :
    (∃ e, t.call (.around raw b a) = (.error e, t)) ∨
      ∃ scope, t.call (.around raw b a) =
        (.ok (),
          { t with before := t.before ++ [⟨scope, b⟩], after := t.after ++ [⟨scope, a⟩] }) := by
  rw [call_eq]
  simp only [register, addAround, addBefore, addAfter]
  cases FilterEntry.readScope raw with
  | error e => exact .inl ⟨e, rfl⟩
  | ok scope => exact .inr ⟨scope, rfl⟩

theorem succeeded_eq_filter (t : RouteTable H B A) (rs : List (Registration H B A)) :
    t.succeeded rs = rs.filter (·.isValid t.strict) := by
  induction rs generalizing t with
  | nil => rfl
  | cons r rs ih =>
      rw [succeeded, List.filter_cons]
      obtain ⟨hvalid, e, -, heq⟩ | ⟨hvalid, u, -, heq, hstrict⟩ := t.call_cases r
      · rw [heq, hvalid]
        exact ih t
      · rw [heq, hvalid, ← hstrict]
        exact congrArg (r :: ·) (ih u)

end RouteTable

namespace Registration

theorem isSome_accepted? (strict : Bool) (r : Registration H B A) :
    (r.accepted? strict).isSome = (r.isRoute && r.isValid strict) := by
  cases r with
  | route v path roles h =>
      simp only [accepted?, isRoute, isValid, Bool.true_and, Option.isSome_map]
      cases PathPattern.compile path strict <;> rfl
  | before raw f | after raw f | around raw b a => rfl

theorem makes_nothing {strict : Bool} {r : Registration H B A} (h : r.isValid strict = false) :
    r.accepted? strict = none ∧ r.before? = none ∧ r.after? = none := by
  cases r with
  | route v path roles handler =>
      rw [isValid] at h
      rw [accepted?]
      cases hp : PathPattern.compile path strict with
      | ok p => simp [hp, Except.isOk, Except.toBool] at h
      | error e => exact ⟨rfl, rfl, rfl⟩
  | before raw f | after raw f | around raw b a =>
      rw [isValid] at h
      cases hs : FilterEntry.readScope raw with
      | ok scope => simp [hs, Except.isOk, Except.toBool] at h
      | error e => simp [accepted?, before?, after?, FilterEntry.ofPrefix?, hs, Except.toOption]

/-- What valid registrations make is all that is made. -/
theorem filterMap_filter_isValid {γ : Type} {strict : Bool} {made? : Registration H B A → Option γ}
    (hmade : ∀ r, r.isValid strict = false → made? r = none) (rs : List (Registration H B A)) :
    (rs.filter (·.isValid strict)).filterMap made? = rs.filterMap made? := by
  induction rs with
  | nil => rfl
  | cons r rs ih =>
      cases hvalid : r.isValid strict with
      | true => rw [List.filter_cons_of_pos hvalid, List.filterMap_cons, List.filterMap_cons, ih]
      | false =>
        rw [List.filter_cons_of_neg (by simp [hvalid]), List.filterMap_cons_none (hmade r hvalid),
          ih]

end Registration

/-!
## All routes
-/

theorem perm_flatten_modify {α : Type} {ls : List (List α)} {k : Nat} (hk : k < ls.length) (a : α) :
    (ls.modify k (· ++ [a])).flatten.Perm (a :: ls.flatten) := by
  induction ls generalizing k with
  | nil => cases hk
  | cons l ls ih =>
      cases k with
      | zero =>
          rw [List.modify_zero_cons, List.flatten_cons, List.append_assoc]
          exact List.perm_middle
      | succ k =>
          rw [List.modify_succ_cons, List.flatten_cons]
          exact ((ih (Nat.lt_of_succ_lt_succ hk)).append_left l).trans List.perm_middle

theorem perm_flatMap_of_eq {κ α : Type} {ks : List κ} {k : κ} {f g : κ → List α} {a : α}
    (hks : ks.Nodup) (hk : k ∈ ks) (hat : (g k).Perm (a :: f k)) (helse : ∀ j, j ≠ k → g j = f j) :
    (ks.flatMap g).Perm (a :: ks.flatMap f) := by
  induction ks with
  | nil => cases hk
  | cons j ks ih =>
      obtain ⟨hj, hks⟩ := List.nodup_cons.1 hks
      rw [List.flatMap_cons, List.flatMap_cons]
      obtain rfl | hk := List.mem_cons.1 hk
      · have hsame : ks.flatMap g = ks.flatMap f :=
          List.flatMap_congr fun i hi => helse i fun heq => hj (heq ▸ hi)
        rw [hsame]
        exact hat.append_right _
      · rw [helse j fun heq => hj (heq ▸ hk)]
        exact ((ih hks hk).append_left _).trans List.perm_middle

namespace RouteTable

variable {t u : RouteTable H B A}

theorem perm_routes_of_addRoute {v : Verb} {path : String} {roles : List String} {handler : H}
    (h : t.addRoute v path roles handler = .ok u) :
    ∃ e, Registration.accepted? t.strict (.route v path roles handler : Registration H B A) =
      some e ∧
      u.routes.Perm (e :: t.routes) := by
  unfold addRoute at h
  cases hp : PathPattern.compile path t.strict with
  | error cause => simp [hp] at h
  | ok pattern =>
      rw [hp] at h
      dsimp only at h
      obtain rfl := Except.ok.inj h
      refine ⟨_, by rw [Registration.accepted?, hp]; rfl, ?_⟩
      refine perm_flatMap_of_eq (by decide) (Verb.mem_all v) ?_ fun w hw => ?_
      · dsimp only
        rw [if_pos rfl]
        exact perm_flatten_modify ((t.index v).bucketFor_lt _) _
      · dsimp only
        rw [if_neg hw]

/-- The route that a registration makes is one more among the routes of the table. -/
theorem perm_routes_call (t : RouteTable H B A) (r : Registration H B A) :
    (t.call r).2.routes.Perm ((r.accepted? t.strict).toList ++ t.routes) := by
  obtain ⟨hvalid, e, -, heq⟩ | ⟨-, u, hu, heq, -⟩ := t.call_cases r
  · rw [heq, (Registration.makes_nothing hvalid).1]
    exact .refl _
  · rw [heq]
    cases r with
    | route v path roles handler =>
        obtain ⟨e, he, hperm⟩ := perm_routes_of_addRoute hu
        rw [he]
        exact hperm
    | before raw f =>
        rw [routes, (index_eq_of_addBefore hu).2]
        exact .refl _
    | after raw f =>
        rw [routes, (index_eq_of_addAfter hu).2]
        exact .refl _
    | around raw b a =>
        rw [routes, (index_eq_of_addAround hu).2]
        exact .refl _

theorem strict_call (t : RouteTable H B A) (r : Registration H B A) :
    (t.call r).2.strict = t.strict := by
  obtain ⟨-, e, -, heq⟩ | ⟨-, u, -, heq, hstrict⟩ := t.call_cases r
  · rw [heq]
  · rw [heq, hstrict]

theorem perm_routes_callAll (t : RouteTable H B A) (rs : List (Registration H B A)) :
    (t.callAll rs).routes.Perm (accepted t.strict rs ++ t.routes) := by
  induction rs generalizing t with
  | nil => exact .refl _
  | cons r rs ih =>
      have hrest := ih (t.call r).2
      rw [t.strict_call r] at hrest
      have hboth := hrest.trans ((t.perm_routes_call r).append_left _)
      cases hr : r.accepted? t.strict with
      | none => simpa [accepted, callAll, hr] using hboth
      | some e =>
          rw [hr] at hboth
          rw [accepted, List.filterMap_cons_some hr]
          exact hboth.trans List.perm_middle

theorem routes_empty (strict : Bool) (cap : Nat) :
    (empty strict cap : RouteTable H B A).routes = [] := by
  have hbuckets : (RouteIndex.empty cap : RouteIndex H).toList = [] := by
    simp [RouteIndex.toList, RouteIndex.empty, List.flatten_replicate_nil]
  simp [routes, empty, hbuckets]

end RouteTable

/-!
## Templates
-/

theorem pairwise_eraseDups {l : List String} (h : l.Pairwise (· ≤ ·)) :
    l.eraseDups.Pairwise (· < ·) := by
  induction hn : l.length using Nat.strong_induction_on generalizing l with
  | _ n ih =>
    cases l with
    | nil => exact .nil
    | cons a l =>
        obtain ⟨ha, hl⟩ := List.pairwise_cons.1 h
        have hlen := List.length_filter_le (fun b => !b == a) l
        rw [List.eraseDups_cons, List.pairwise_cons]
        refine ⟨fun b hb => ?_, ih _ (by rw [← hn, List.length_cons]; omega) (hl.filter _) rfl⟩
        obtain ⟨hmem, hne⟩ := List.mem_filter.1 (List.mem_eraseDups.1 hb)
        by_contra hlt
        exact absurd (String.le_antisymm (String.not_lt.1 hlt) (ha b hmem)) (by simpa using hne)

namespace RouteTable

variable {strict : Bool} {cap : Nat}

theorem templates_ascending (t : RouteTable H B A) : t.templates.Pairwise (· < ·) := by
  have hsorted : ((t.routes.map (·.pattern.template)).mergeSort (· ≤ ·)).Pairwise fun a b =>
      decide (a ≤ b) :=
    List.pairwise_mergeSort
      (fun a b c hab hbc =>
        by simpa using String.le_trans (by simpa using hab) (by simpa using hbc))
      (fun a b => by simpa using String.le_total a b) _
  exact pairwise_eraseDups (hsorted.imp fun h => by simpa using h)

theorem mem_templates {t : RouteTable H B A} {raw : String} :
    raw ∈ t.templates ↔ ∃ e ∈ t.routes, e.pattern.template = raw := by
  rw [templates, List.mem_eraseDups, List.mem_mergeSort, List.mem_map]

theorem exists_compile_of_mem_accepted {rs : List (Registration H B A)} {e : RouteEntry H}
    (h : e ∈ accepted strict rs) : ∃ v path roles, .route v path roles e.handler ∈ rs ∧
      PathPattern.compile path strict = .ok e.pattern := by
  obtain ⟨r, hr, hmade⟩ := List.mem_filterMap.1 h
  cases r with
  | route v path roles handler =>
      obtain ⟨pattern, hp, rfl⟩ := Option.map_eq_some_iff.1 hmade
      refine ⟨v, path, roles, hr, ?_⟩
      cases hc : PathPattern.compile path strict with
      | error e => simp [hc, Except.toOption] at hp
      | ok q => simpa [hc, Except.toOption] using hp
  | before raw f | after raw f | around raw b a => cases hmade

theorem exists_accepted_iff (rs : List (Registration H B A)) (raw : String) :
    (∃ e ∈ accepted strict rs, e.pattern.template = raw) ↔
      ∃ v roles h, .route v raw roles h ∈ rs.filter (·.isValid strict) := by
  constructor
  · rintro ⟨e, he, rfl⟩
    obtain ⟨v, path, roles, hr, hc⟩ := exists_compile_of_mem_accepted he
    rw [PathPattern.template_of_compile hc]
    exact ⟨v, roles, e.handler, List.mem_filter.2 ⟨hr, by rw [Registration.isValid, hc]; rfl⟩⟩
  · rintro ⟨v, roles, handler, hmem⟩
    obtain ⟨hr, hvalid⟩ := List.mem_filter.1 hmem
    cases hc : PathPattern.compile raw strict with
    | error e => simp [Registration.isValid, hc, Except.isOk, Except.toBool] at hvalid
    | ok pattern =>
        refine ⟨⟨v.name, pattern, (roles.mergeSort (· ≤ ·)).eraseDups, handler⟩,
          List.mem_filterMap.2 ⟨_, hr, ?_⟩, PathPattern.template_of_compile hc⟩
        rw [Registration.accepted?, hc]
        rfl

/-- However many of the calls on a table fail, it is built from those that succeed. A call that
fails leaves the table as it was, and middleware is registered on both sides or on none. -/
theorem builtFrom_callAll (strict : Bool) (cap : Nat) (rs : List (Registration H B A)) :
    BuiltFrom ((empty strict cap).callAll rs) strict cap ((empty strict cap).succeeded rs) ∧
    ∀ t : RouteTable H B A,
      (∀ r e, (t.call r).1 = .error e → (t.call r).2 = t) ∧
      ∀ raw b a, (∃ e, t.call (.around raw b a) = (.error e, t)) ∨
        ∃ scope, t.call (.around raw b a) =
          (.ok (),
            { t with before := t.before ++ [⟨scope, b⟩], after := t.after ++ [⟨scope, a⟩] }) := by
  refine ⟨?_, fun t => ⟨fun r e => eq_of_call_error, t.call_around_cases⟩⟩
  have hdone : (empty strict cap : RouteTable H B A).succeeded rs = rs.filter (·.isValid strict) :=
    succeeded_eq_filter _ rs
  have haccepted : accepted strict (rs.filter (·.isValid strict)) = accepted strict rs :=
    Registration.filterMap_filter_isValid (fun r h => (Registration.makes_nothing h).1) rs
  have hroutes := (empty strict cap : RouteTable H B A).perm_routes_callAll rs
  rw [routes_empty, List.append_nil] at hroutes
  have hholds := holds_registerValid strict cap rs
  obtain ⟨hbefore, hafter⟩ := (empty strict cap).filters_registerValid rs
  rw [← callAll_eq] at hholds hbefore hafter
  rw [hdone]
  refine ⟨hholds.cap_eq, ?_, ?_, ?_, templates_ascending _, fun raw => ?_, ?_, ?_⟩
  · rw [haccepted]
    exact hholds.bucket_eq
  · intro v path
    rw [haccepted, RouteIndex.candidates, hholds.bucket_eq, RouteIndex.bucketFor, hholds.cap_eq]
  · have hlength := hroutes.length_eq
    rw [accepted, List.length_filterMap_eq_countP] at hlength
    rw [size, List.countP_filter]
    exact hlength.trans (congrArg (List.countP · rs) (funext fun r => r.isSome_accepted? strict))
  · rw [mem_templates, ← exists_accepted_iff]
    simp only [hroutes.mem_iff]
    rfl
  · rw [Registration.filterMap_filter_isValid fun r h => (Registration.makes_nothing h).2.1]
    exact hbefore
  · rw [Registration.filterMap_filter_isValid fun r h => (Registration.makes_nothing h).2.2]
    exact hafter

def halfValid : List (Registration ℕ ℕ ℕ) :=
  [.route .post "/b" [] 0, .route .get "/a/\x7bx\x7d/\x7bx\x7d" [] 1, .around (some "a") 2 3,
    .around (some "/a/*") 4 5, .route .get "/a/\x7bx\x7d/" ["r"] 6, .route .get "/b" [] 7]

theorem builtFrom_callAll_halfValid :
    ((empty false 1).call (.around (some "a") 2 3 : Registration ℕ ℕ ℕ)).1 = .error
      (.invalidPrefix "a") ∧
      ((empty false 1).call (.around (some "a") 2 3 : Registration ℕ ℕ ℕ)).2 = empty false 1 ∧
      ((empty false 1).callAll halfValid).size = 3 ∧
      ((empty false 1).callAll halfValid).after.map (·.filter) = [5] := by
  obtain ⟨hbuilt, hfails⟩ := builtFrom_callAll false 1 halfValid
  have hrefused : ((empty false 1).call (.around (some "a") 2 3 : Registration ℕ ℕ ℕ)).1 =
      .error (.invalidPrefix "a") := by decide +kernel
  refine ⟨hrefused, (hfails _).1 _ _ hrefused, ?_, ?_⟩
  · rw [hbuilt.size_eq]
    decide +kernel
  · rw [hbuilt.after_eq]
    decide +kernel

end RouteTable

end HttpDispatch
