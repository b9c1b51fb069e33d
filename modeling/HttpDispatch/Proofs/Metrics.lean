import HttpDispatch.Metrics
import Mathlib.Algebra.BigOperators.Fin
import Mathlib.Algebra.Order.BigOperators.Group.Finset
import Mathlib.Data.String.Basic
import Mathlib.Data.UInt

/-!
# What the counters show

Counters are words, and a word shows the lowest 64 bits of what has been counted. `Metrics.Tallies`
says for all of them together what that is: how many requests have been counted at their start, and
what the templates of the routes were for which requests have been counted at their end. It is kept
by either, and when routes become known.
-/

namespace HttpDispatch.Metrics

def counters (m : Metrics) (template : String) : RouteCounters := (m.routes.lookup template).getD {}

/-- Some routes have become known, and nothing has been counted. -/
def GrowsTo (m m' : Metrics) : Prop := ∃ templates : List String, templates.foldl register m = m'

theorem GrowsTo.refl (m : Metrics) : m.GrowsTo m := ⟨[], rfl⟩

theorem GrowsTo.trans {m m' m'' : Metrics} (h : m.GrowsTo m') (h' : m'.GrowsTo m'') :
    m.GrowsTo m'' := by
  obtain ⟨ts, rfl⟩ := h
  obtain ⟨ts', rfl⟩ := h'
  exact ⟨ts ++ ts', List.foldl_append⟩

/-!
## The rows of routes
-/

section

variable {template : String} {f : RouteCounters → RouteCounters}
    {rows : List (String × RouteCounters)}

theorem mem_keys_updateRoute {k : String} :
    k ∈ (updateRoute template f rows).map Prod.fst ↔ k = template ∨ k ∈ rows.map Prod.fst := by
  induction rows with
  | nil => simp [updateRoute]
  | cons row rest ih =>
      obtain ⟨t, c⟩ := row
      rw [updateRoute]
      split
      · simp
      · split
        · next ht => simp [ht]
        · simp only [List.map_cons, List.mem_cons, ih]
          exact or_left_comm

theorem ascending_updateRoute (h : rows.Pairwise (·.1 < ·.1)) :
    (updateRoute template f rows).Pairwise (·.1 < ·.1) := by
  induction rows with
  | nil => exact List.pairwise_singleton _ _
  | cons row rest ih =>
      obtain ⟨t, c⟩ := row
      obtain ⟨ht, hrest⟩ := List.pairwise_cons.1 h
      rw [updateRoute]
      split
      · next hlt =>
        refine List.pairwise_cons.2 ⟨List.forall_mem_cons.2 ⟨hlt, ?_⟩, h⟩
        exact fun row hrow => hlt.trans (ht row hrow)
      · next hle =>
        split
        · exact List.pairwise_cons.2 ⟨ht, hrest⟩
        · next hne =>
          refine List.pairwise_cons.2 ⟨fun row hrow => ?_, ih hrest⟩
          obtain heq | hkey := mem_keys_updateRoute.1 (List.mem_map_of_mem hrow)
          · exact heq ▸ lt_of_le_of_ne (not_lt.1 hle) (Ne.symm hne)
          · obtain ⟨row', hrow', heq⟩ := List.mem_map.1 hkey
            exact heq ▸ ht row' hrow'

theorem lookup_cons_eq (row : String × RouteCounters) (k : String) :
    (row :: rows).lookup k = if k = row.1 then some row.2 else rows.lookup k := by
  rw [List.lookup_cons]
  by_cases hk : k = row.1
  · rw [if_pos hk, beq_iff_eq.2 hk]
  · rw [if_neg hk, beq_false_of_ne hk]

theorem lookup_eq_none_of_lt {t : String} (h : ∀ row ∈ rows, t < row.1) : rows.lookup t = none :=
  List.lookup_eq_none_iff.2 fun row hrow => bne_iff_ne.2 (h row hrow).ne

theorem lookup_of_mem (h : rows.Pairwise (·.1 < ·.1)) {row : String × RouteCounters}
    (hrow : row ∈ rows) : rows.lookup row.1 = some row.2 := by
  induction rows with
  | nil => cases hrow
  | cons first rest ih =>
      obtain ⟨hfirst, hrest⟩ := List.pairwise_cons.1 h
      rw [lookup_cons_eq]
      obtain rfl | hmem := List.mem_cons.1 hrow
      · rw [if_pos rfl]
      · rw [if_neg (hfirst row hmem).ne']
        exact ih hrest hmem

theorem lookup_updateRoute (h : rows.Pairwise (·.1 < ·.1)) (k : String) :
    (updateRoute template f rows).lookup k =
      if k = template then some (f ((rows.lookup template).getD {})) else rows.lookup k := by
  induction rows with
  | nil => exact lookup_cons_eq (template, f {}) k
  | cons row rest ih =>
      obtain ⟨t, c⟩ := row
      obtain ⟨ht, hrest⟩ := List.pairwise_cons.1 h
      rw [updateRoute]
      split
      · next hlt =>
        have hnone : ((t, c) :: rest).lookup template = none :=
          lookup_eq_none_of_lt
            (List.forall_mem_cons.2 ⟨hlt, fun row hrow => hlt.trans (ht row hrow)⟩)
        rw [hnone, lookup_cons_eq]
        rfl
      · split
        · next heq =>
          subst heq
          simp only [lookup_cons_eq]
          split
          · rfl
          · rfl
        · next hne =>
          simp only [lookup_cons_eq, ih hrest, if_neg hne]
          split
          · next hk => rw [if_neg (hk ▸ Ne.symm hne)]
          · rfl

end

section

variable {m : Metrics}

theorem counters_register (h : m.routes.Pairwise (·.1 < ·.1)) (template k : String) :
    (m.register template).counters k = m.counters k := by
  unfold counters register
  rw [lookup_updateRoute h]
  split
  · next hk => rw [hk]; rfl
  · rfl

theorem counters_finished (h : m.routes.Pairwise (·.1 < ·.1)) (status : Status) (nanos : UInt64)
    (template k : String) :
    (m.finished status nanos (some template)).counters k =
      if k = template then RouteCounters.finished (m.counters k) status nanos
      else m.counters k := by
  unfold counters finished
  rw [lookup_updateRoute h]
  split
  · next hk => rw [hk]; rfl
  · rfl

theorem counters_of_mem (h : m.routes.Pairwise (·.1 < ·.1)) {row : String × RouteCounters}
    (hrow : row ∈ m.routes) : m.counters row.1 = row.2 := by
  unfold counters
  rw [lookup_of_mem h hrow]
  rfl

end

/-!
## What has been counted
-/

/-- What the counters show: `passed` requests have been counted at their start, of which `inFlight`
are still being handled, and `reached` are the templates of the routes for which requests have been
counted at their end. -/
structure Tallies (m : Metrics) (inFlight passed : ℕ) (reached : List String) : Prop where
  inFlight : m.inFlight = .ofNat inFlight
  requests : m.requests = .ofNat passed
  classes : ∃ tally : Fin 5 → ℕ, (∀ c, m.classes c = .ofNat (tally c)) ∧
    ∑ c, tally c = reached.length
  ascending : m.routes.Pairwise (·.1 < ·.1)
  known : ∀ t ∈ reached, t ∈ m.routes.map Prod.fst
  routes : ∀ t, (m.counters t).requests = .ofNat (reached.count t)
  errors : ∀ t, ∃ errors ≤ reached.count t, (m.counters t).errors = .ofNat errors

theorem tallies_empty : ({} : Metrics).Tallies 0 0 [] where
  inFlight := rfl
  requests := rfl
  classes := ⟨fun _ => 0, fun _ => rfl, rfl⟩
  ascending := .nil
  known _ := nofun
  routes _ := rfl
  errors _ := ⟨0, le_rfl, rfl⟩

namespace Tallies

variable {m m' : Metrics} {inFlight passed : ℕ} {reached : List String}

theorem register (h : m.Tallies inFlight passed reached) (template : String) :
    (m.register template).Tallies inFlight passed reached where
  inFlight := h.inFlight
  requests := h.requests
  classes := h.classes
  ascending := ascending_updateRoute h.ascending
  known t ht := mem_keys_updateRoute.2 (.inr (h.known t ht))
  routes t := by rw [counters_register h.ascending]; exact h.routes t
  errors t := by rw [counters_register h.ascending]; exact h.errors t

theorem growsTo (h : m.Tallies inFlight passed reached) (hm : m.GrowsTo m') :
    m'.Tallies inFlight passed reached := by
  obtain ⟨templates, rfl⟩ := hm
  induction templates generalizing m with
  | nil => exact h
  | cons t ts ih => exact ih (h.register t)

theorem started (h : m.Tallies inFlight passed reached) :
    m.started.Tallies (inFlight + 1) (passed + 1) reached where
  inFlight := (congrArg (· + 1) h.inFlight).trans (UInt64.ofNat_add inFlight 1).symm
  requests := (congrArg (· + 1) h.requests).trans (UInt64.ofNat_add passed 1).symm
  classes := h.classes
  ascending := h.ascending
  known := h.known
  routes := h.routes
  errors := h.errors

/-- The end of a request is counted once in the class of its status and once for its route, whether
or not its start was counted. -/
theorem finished (h : m.Tallies inFlight passed reached) (hle : inFlight ≤ 1) (status : Status)
    (nanos : UInt64) (template : String) :
    (m.finished status nanos (some template)).Tallies 0 passed (reached ++ [template]) where
  inFlight := by
    have hgauge : (m.finished status nanos (some template)).inFlight =
        if m.inFlight = 0 then 0 else m.inFlight - 1 := rfl
    rw [hgauge, h.inFlight]
    obtain rfl | rfl := Nat.le_one_iff_eq_zero_or_eq_one.1 hle
    · rfl
    · rfl
  requests := h.requests
  classes := by
    obtain ⟨tally, hclasses, hsum⟩ := h.classes
    refine ⟨fun c => tally c + if c = classOf status then 1 else 0, fun c => ?_, ?_⟩
    · have hclass : (m.finished status nanos (some template)).classes c =
          if c = classOf status then m.classes c + 1 else m.classes c := rfl
      rw [hclass, hclasses, UInt64.ofNat_add]
      split
      · rfl
      · exact (UInt64.add_zero _).symm
    · rw [Finset.sum_add_distrib, hsum, Finset.sum_ite_eq' _ _ _, if_pos (Finset.mem_univ _),
        List.length_append, List.length_singleton]
  ascending := ascending_updateRoute h.ascending
  known t ht := by
    obtain hmem | hlast := List.mem_append.1 ht
    · exact mem_keys_updateRoute.2 (.inr (h.known t hmem))
    · exact mem_keys_updateRoute.2 (.inl (List.mem_singleton.1 hlast))
  routes t := by
    rw [counters_finished h.ascending, List.count_append]
    by_cases ht : t = template
    · rw [if_pos ht, ht, List.count_singleton_self, UInt64.ofNat_add, ← h.routes template]
      rfl
    · rw [if_neg ht, List.count_eq_zero_of_not_mem (mt List.mem_singleton.1 ht)]
      exact h.routes t
  errors t := by
    obtain ⟨errors, hle, herrors⟩ := h.errors t
    rw [counters_finished h.ascending, List.count_append]
    by_cases ht : t = template
    · have hfinished : (RouteCounters.finished (m.counters t) status nanos).errors =
          if status.isServerError then (m.counters t).errors + 1 else (m.counters t).errors := rfl
      rw [if_pos ht, hfinished, herrors, ht, List.count_singleton_self, ← ht]
      split
      · exact ⟨errors + 1, Nat.add_le_add_right hle 1, (UInt64.ofNat_add errors 1).symm⟩
      · exact ⟨errors, Nat.le_succ_of_le hle, rfl⟩
    · rw [if_neg ht, List.count_eq_zero_of_not_mem (mt List.mem_singleton.1 ht)]
      exact ⟨errors, hle, herrors⟩

/-!
### Sums over all classes, and over all routes
-/

theorem completed (h : m.Tallies inFlight passed reached) :
    m.completed = .ofNat reached.length := by
  obtain ⟨tally, hclasses, hsum⟩ := h.classes
  have hfold : ∀ (cs : List (Fin 5)) (n : ℕ),
      cs.foldl (fun sum c => sum + m.classes c) (.ofNat n) = .ofNat (n + (cs.map tally).sum) := by
    intro cs
    induction cs with
    | nil => exact fun n => rfl
    | cons c cs ih =>
        intro n
        rw [List.foldl_cons, hclasses, ← UInt64.ofNat_add, ih, List.map_cons, List.sum_cons,
          Nat.add_assoc]
  rw [← hsum, Fin.sum_univ_def, ← Nat.zero_add (List.sum _)]
  exact hfold _ 0

/-- Every template has its own row, so what has been counted for all rows is all that has been
counted. -/
theorem sum_count (h : m.Tallies inFlight passed reached) :
    (m.routes.map fun row => reached.count row.1).sum = reached.length := by
  have hnodup : (m.routes.map Prod.fst).Nodup :=
    List.pairwise_map.2 (h.ascending.imp fun hlt => hlt.ne)
  have hknown : ∀ t ∈ (reached : Multiset String), t ∈ (m.routes.map Prod.fst).toFinset :=
    fun t ht => List.mem_toFinset.2 (h.known t ht)
  have hcard := Multiset.sum_count_eq_card hknown
  rw [List.sum_toFinset _ hnodup, List.map_map, Multiset.coe_card] at hcard
  rw [← hcard]
  exact congrArg List.sum (List.map_congr_left fun row _ => (Multiset.coe_count _ _).symm)

theorem requests_of_mem (h : m.Tallies inFlight passed reached) {row : String × RouteCounters}
    (hrow : row ∈ m.routes) : row.2.requests = .ofNat (reached.count row.1) := by
  rw [← counters_of_mem h.ascending hrow]
  exact h.routes row.1

theorem sum_requests (h : m.Tallies inFlight passed reached) :
    (m.routes.map (·.2.requests)).sum = .ofNat reached.length := by
  have hsum : ∀ ns : List ℕ, (ns.map UInt64.ofNat).sum = UInt64.ofNat ns.sum := by
    intro ns
    induction ns with
    | nil => rfl
    | cons n ns ih => rw [List.map_cons, List.sum_cons, ih, List.sum_cons, UInt64.ofNat_add]
  have hrows :
      m.routes.map (·.2.requests) = (m.routes.map fun row => reached.count row.1).map .ofNat := by
    rw [List.map_map]
    exact List.map_congr_left fun row hrow => h.requests_of_mem hrow
  rw [hrows, hsum, h.sum_count]

/-!
### Counters that have not run over
-/

theorem sum_toNat_classes (h : m.Tallies inFlight passed reached)
    (hlt : reached.length < UInt64.size) : ∑ c, (m.classes c).toNat = reached.length := by
  obtain ⟨tally, hclasses, hsum⟩ := h.classes
  rw [← hsum]
  refine Finset.sum_congr rfl fun c _ => ?_
  have hle : tally c ≤ ∑ c, tally c :=
    Finset.single_le_sum (fun _ _ => Nat.zero_le _) (Finset.mem_univ c)
  rw [hclasses, UInt64.toNat_ofNat_of_lt' (by omega)]

theorem sum_toNat_requests (h : m.Tallies inFlight passed reached)
    (hlt : reached.length < UInt64.size) :
    (m.routes.map (·.2.requests.toNat)).sum = reached.length := by
  rw [← h.sum_count]
  refine congrArg List.sum (List.map_congr_left fun row hrow => ?_)
  have hle : reached.count row.1 ≤ reached.length := List.count_le_length
  rw [h.requests_of_mem hrow, UInt64.toNat_ofNat_of_lt' (by omega)]

theorem errors_le_requests (h : m.Tallies inFlight passed reached)
    (hlt : reached.length < UInt64.size) (t : String) :
    (m.counters t).errors ≤ (m.counters t).requests := by
  obtain ⟨errors, hle, herrors⟩ := h.errors t
  have hcount : reached.count t ≤ reached.length := List.count_le_length
  rw [herrors, h.routes t, UInt64.le_iff_toNat_le, UInt64.toNat_ofNat_of_lt' (by omega),
    UInt64.toNat_ofNat_of_lt' (by omega)]
  exact hle

end Tallies

end HttpDispatch.Metrics
