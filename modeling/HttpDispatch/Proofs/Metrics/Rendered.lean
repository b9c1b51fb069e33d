import HttpDispatch.Proofs.Metrics
import HttpDispatch.Proofs.Metrics.Exposition

/-!
# What collectors read

The text of the counters is made of families, one for each name of a metric, and the reader of the
exposition format gives back their samples, provided that the templates of the routes need no
escapes (`Metrics.read?_render`).
-/

namespace HttpDispatch

namespace Exposition

/-- All that a text says under one name: a help text, a type, and rows of labels and values. -/
structure Family where
  name : String
  help : String
  kind : String
  rows : List (List (String × String) × ℚ)

namespace Family

def samples (f : Family) : List Sample := f.rows.map fun row => ⟨f.name, row.1, row.2⟩

def entries (f : Family) : List Entry :=
  .help f.name f.help :: .type f.name f.kind :: f.samples.map .sample

theorem map_name_entries (f : Family) :
    f.entries.map Entry.name = List.replicate (f.rows.length + 2) f.name := by
  rw [entries, samples, List.map_cons, List.map_cons, List.map_map, List.map_map]
  exact congrArg (f.name :: f.name :: ·) List.map_const'

theorem pairwise_entries {f : Family} (h : f.rows.Pairwise fun row row' => ¬ row.1.Perm row'.1) :
    f.entries.Pairwise Entry.Precedes := by
  refine List.pairwise_cons.2 ⟨?_, List.pairwise_cons.2 ⟨?_, ?_⟩⟩
  · refine List.forall_mem_cons.2 ⟨trivial, List.forall_mem_map.2 fun _ _ => trivial⟩
  · exact List.forall_mem_map.2 fun _ _ => trivial
  · refine List.pairwise_map.2 (List.pairwise_map.2 (h.imp ?_))
    exact fun hrow _ => hrow

theorem name_of_mem_entries {f : Family} {e : Entry} (h : e ∈ f.entries) : e.name = f.name := by
  have hname : e.name ∈ List.replicate (f.rows.length + 2) f.name :=
    f.map_name_entries ▸ List.mem_map_of_mem h
  exact List.eq_of_mem_replicate hname

theorem filterMap_entries (f : Family) : f.entries.filterMap Entry.sample? = f.samples := by
  have hsamples : ∀ ss : List Sample, (ss.map Entry.sample).filterMap Entry.sample? = ss := by
    intro ss
    rw [List.filterMap_map]
    exact List.filterMap_some
  exact hsamples f.samples

end Family

theorem Entry.precedes_of_name_ne {e e' : Entry} (h : e.name ≠ e'.name) : e.Precedes e' := by
  cases e <;> cases e' <;> first | exact h | exact trivial | exact fun heq => absurd heq h

theorem grouped_replicate_append {n : String} {ns : List String} (hn : n ∉ ns) (h : Grouped ns)
    (k : Nat) : Grouped (List.replicate k n ++ ns) := by
  induction k with
  | zero => exact h
  | succ k ih =>
      rw [List.replicate_succ, List.cons_append]
      refine ⟨fun hmem => hn ?_, ih⟩
      rw [List.dropWhile_append_of_pos fun m hm =>
        decide_eq_true (List.eq_of_mem_replicate hm)] at hmem
      exact List.dropWhile_subset _ hmem

theorem grouped_families {fs : List Family} (h : (fs.map Family.name).Nodup) :
    Grouped ((fs.flatMap Family.entries).map Entry.name) := by
  induction fs with
  | nil => exact trivial
  | cons f fs ih =>
      rw [List.map_cons, List.nodup_cons] at h
      rw [List.flatMap_cons, List.map_append, f.map_name_entries]
      refine grouped_replicate_append (fun hmem => h.1 ?_) (ih h.2) _
      obtain ⟨e, he, hname⟩ := List.mem_map.1 hmem
      obtain ⟨f', hf', he'⟩ := List.mem_flatMap.1 he
      rw [← hname, Family.name_of_mem_entries he']
      exact List.mem_map_of_mem hf'

theorem pairwise_families {fs : List Family} (h : (fs.map Family.name).Nodup)
    (hrows : ∀ f ∈ fs, f.rows.Pairwise fun row row' => ¬ row.1.Perm row'.1) :
    (fs.flatMap Family.entries).Pairwise Entry.Precedes := by
  refine List.pairwise_flatMap.2 ⟨fun f hf => Family.pairwise_entries (hrows f hf), ?_⟩
  refine (List.pairwise_map.1 h).imp fun hne e he e' he' => Entry.precedes_of_name_ne ?_
  rwa [Family.name_of_mem_entries he, Family.name_of_mem_entries he']

/-- A text whose lines are those of families is read as the samples of these, one family after the
other. -/
theorem read?_families {lines : List String} {fs : List Family}
    (h : List.Forall₂ Says lines (fs.flatMap Family.entries)) (hnames : (fs.map Family.name).Nodup)
    (hrows : ∀ f ∈ fs, f.rows.Pairwise fun row row' => ¬ row.1.Perm row'.1) :
    read? (String.join lines) = some (fs.flatMap Family.samples) := by
  rw [read?, entries?_join h, Option.bind_some,
    if_pos ⟨grouped_families hnames, pairwise_families hnames hrows⟩, List.filterMap_flatMap]
  exact congrArg (fun f => some (fs.flatMap f)) (funext Family.filterMap_entries)

end Exposition

open Exposition

namespace Metrics

variable {m : Metrics}

/-!
## The lines
-/

/-- What a family is introduced by can be written as it is. -/
def IsHeading (name help kind : String) : Prop :=
  isName startsMetric name.toList = true ∧ skipGap help.toList = help.toList ∧ '\\' ∉ help.toList ∧
    '\n' ∉ help.toList ∧ kind ∈ kinds

instance (name help kind : String) : Decidable (IsHeading name help kind) :=
  inferInstanceAs
    (Decidable (isName startsMetric name.toList = true ∧ skipGap help.toList = help.toList ∧
      '\\' ∉ help.toList ∧ '\n' ∉ help.toList ∧ kind ∈ kinds))

variable {name value : String} {v : ℚ}

theorem not_mem_of_isName (hname : isName startsMetric name.toList = true) : '\n' ∉ name.toList :=
  fun h => (exists_cons_of_isName (fun _ h => h) hname).2 _ h (by decide)

theorem not_mem_of_decimal? (hvalue : decimal? value.toList = some v) : '\n' ∉ value.toList :=
  fun h => not_mem_marks_of_decimal? hvalue _ h (by decide)

theorem says_introduction {help kind : String} (h : IsHeading name help kind) :
    List.Forall₂ Says (introduction name help kind) [.help name help, .type name kind] := by
  obtain ⟨hname, hstart, hplain, hbreak, hkind⟩ := h
  have hnameBreak := not_mem_of_isName hname
  have hkinds : ∀ kind ∈ kinds, '\n' ∉ kind.toList := by decide
  have hkindBreak := hkinds kind hkind
  refine .cons ?_ (.cons ?_ .nil)
  · refine ⟨_, ?_, ?_, line?_help hname hstart (by simpa using hplain)⟩
    · simp
    · simp [hnameBreak, hbreak]
  · refine ⟨_, ?_, ?_, line?_type hname hkind⟩
    · simp
    · simp [hnameBreak, hkindBreak]

theorem says_sample (hname : isName startsMetric name.toList = true)
    (hvalue : decimal? value.toList = some v) :
    Says (sample name value) (.sample ⟨name, [], v⟩) := by
  refine ⟨_, ?_, ?_, line?_sample hname hvalue⟩
  · simp [sample]
  · simp [not_mem_of_isName hname, not_mem_of_decimal? hvalue]

theorem not_mem_of_isPlain {text : String} (h : IsPlain text) : '\n' ∉ text.toList :=
  fun hc => absurd (h '\n' hc) (by decide)

theorem says_labelled {label text : String} (hname : isName startsMetric name.toList = true)
    (hlabel : isName startsLabel label.toList = true) (htext : IsPlain text)
    (hvalue : decimal? value.toList = some v) :
    Says (labelled name label text value) (.sample ⟨name, [(label, text)], v⟩) := by
  have hlabelBreak : '\n' ∉ label.toList :=
    fun h => (exists_cons_of_isName (fun _ => startsMetric_of_startsLabel) hlabel).2 _ h (by decide)
  refine ⟨_, ?_, ?_, line?_labelled hname hlabel htext hvalue⟩
  · simp [labelled, sample]
  · simp [not_mem_of_isName hname, not_mem_of_decimal? hvalue, hlabelBreak,
      not_mem_of_isPlain htext]

/-- A quote is not written in the way in which it is read. -/
example : line? (labelled "requests" "path" "/\"" "1").toList.dropLast = none := by decide +kernel

/-!
## The values
-/

theorem decimal?_toString (n : UInt64) : decimal? (toString n).toList = some (n.toNat : ℚ) := by
  have hdigits : (toString n).toList = Nat.toDigits 10 n.toNat := Nat.toList_repr
  rw [hdigits, decimal?_toDigits]

theorem ofDigitChars_padded (n places : Nat) (hpos : 0 < places) (h : n < 10 ^ places) :
    (List.replicate (places - (Nat.toDigits 10 n).length) '0' ++ Nat.toDigits 10 n).length =
      places ∧
      Nat.ofDigitChars 10 (List.replicate (places - (Nat.toDigits 10 n).length) '0' ++
        Nat.toDigits 10 n) 0 = n := by
  have hle : (Nat.toDigits 10 n).length ≤ places :=
    (Nat.length_toDigits_le_iff (by decide) hpos).2 h
  constructor
  · rw [List.length_append, List.length_replicate, Nat.sub_add_cancel hle]
  · rw [Nat.ofDigitChars_append, Nat.ofDigitChars_replicate_zero, Nat.mul_zero,
      Nat.ofDigitChars_ten_toDigits]

/-- Seconds with six places are read as the number of microseconds that they stand for. -/
theorem decimal?_seconds (nanos : UInt64) :
    decimal? (seconds nanos).toList = some ((microseconds nanos : ℚ) / 10 ^ 6) := by
  unfold seconds
  generalize microseconds nanos = micros
  have hwhole : (toString (micros / 1000000)).toList = Nat.toDigits 10 (micros / 1000000) :=
    Nat.toList_repr
  have hpart : (toString (micros % 1000000)).toList = Nat.toDigits 10 (micros % 1000000) :=
    Nat.toList_repr
  obtain ⟨hlength, hpadded⟩ := ofDigitChars_padded (micros % 1000000) 6 (by decide)
    (Nat.mod_lt _ (by decide))
  have hdigits : ∀ c ∈ Nat.toDigits 10 (micros / 1000000) ++ (List.replicate
      (6 - (Nat.toDigits 10 (micros % 1000000)).length) '0' ++ Nat.toDigits 10 (micros % 1000000)),
      c.isDigit = true := by
    intro c hc
    simp only [List.mem_append] at hc
    obtain hc | hc | hc := hc
    · exact (Numeral.isDecimal_toDigits _).isDigit c hc
    · rw [List.eq_of_mem_replicate hc]
      rfl
    · exact (Numeral.isDecimal_toDigits _).isDigit c hc
  simp only [String.toList_append, String.toList_ofList, hwhole, hpart, ← String.length_toList,
    List.append_assoc]
  generalize List.replicate (6 - (Nat.toDigits 10 (micros % 1000000)).length) '0' ++
    Nat.toDigits 10 (micros % 1000000) = part at hlength hpadded hdigits ⊢
  have hne : part ≠ [] := by
    rintro rfl
    cases hlength
  refine (decimal?_append Nat.toDigits_ne_nil hne hdigits).trans ?_
  rw [Nat.ofDigitChars_append, Nat.ofDigitChars_eq_ofDigitChars_zero, hpadded, hlength,
    Nat.ofDigitChars_ten_toDigits, show 10 ^ 6 = 1000000 from rfl, Nat.div_add_mod]

/-- The binary number that is nearest to three and a half millionths is a little less than that. -/
example : seconds 3500 = "0.000003" := by decide +kernel

/-!
## The families
-/

def families (m : Metrics) : List Family :=
  [{ name := "brrtcore_requests_total", help := "Requests that matched a route", kind := "counter",
     rows := [([], m.requests.toNat)] },
   { name := "brrtcore_requests_in_flight", help := "Requests currently being handled",
     kind := "gauge", rows := [([], m.inFlight.toNat)] },
   { name := "brrtcore_request_latency_seconds", help := "Average request latency", kind := "gauge",
     rows := [([], microseconds m.latencyAverage / 10 ^ 6)] },
   { name := "brrtcore_responses_total", help := "Responses by status class", kind := "counter",
     rows := [1, 2, 3, 4, 5].map fun c =>
       ([("class", toString c ++ "xx")], (m.classCount c).toNat) },
   { name := "brrtcore_route_requests_total", help := "Requests per route pattern",
     kind := "counter", rows := m.routes.map fun (t, c) => ([("path", t)], c.requests.toNat) },
   { name := "brrtcore_route_errors_total", help := "5xx responses per route pattern",
     kind := "counter", rows := m.routes.map fun (t, c) => ([("path", t)], c.errors.toNat) },
   { name := "brrtcore_route_latency_seconds", help := "Average latency per route pattern",
     kind := "gauge",
     rows := m.routes.map fun (t, c) =>
       ([("path", t)], microseconds (averageLatency c.latency c.requests) / 10 ^ 6) }]

theorem says_family {help kind : String} {rows : List (List (String × String) × ℚ)}
    {lines : List String} (h : IsHeading name help kind)
    (hlines : List.Forall₂ Says lines ((Family.samples ⟨name, help, kind, rows⟩).map .sample)) :
    List.Forall₂ Says (introduction name help kind ++ lines)
      (Family.entries ⟨name, help, kind, rows⟩) :=
  List.rel_append (says_introduction h) hlines

theorem says_rows {α : Type} {rows : List α} {help kind label : String} {text value : α → String}
    {v : α → ℚ} (hname : isName startsMetric name.toList = true)
    (hlabel : isName startsLabel label.toList = true)
    (htext : ∀ a ∈ rows, IsPlain (text a)) (hvalue : ∀ a, decimal? (value a).toList = some (v a)) :
    List.Forall₂ Says (rows.map fun a => labelled name label (text a) (value a))
      (Family.samples
        ⟨name, help, kind, rows.map fun a => ([(label, text a)], v a)⟩ |>.map .sample) := by
  rw [Family.samples, List.map_map, List.map_map, List.forall₂_map_left_iff,
    List.forall₂_map_right_iff, List.forall₂_same]
  exact fun a ha => says_labelled hname hlabel (htext a ha) (hvalue a)

theorem says_lines (hplain : ∀ row ∈ m.routes, IsPlain row.1) :
    List.Forall₂ Says m.lines (m.families.flatMap Family.entries) := by
  have happend : ∀ {ls ls' : List String} {es es' : List Entry}, List.Forall₂ Says ls es →
      List.Forall₂ Says ls' es' → List.Forall₂ Says (ls ++ ls') (es ++ es') :=
        fun h h' => List.rel_append h h'
  have hclasses : ∀ c ∈ [1, 2, 3, 4, 5], IsPlain (toString c ++ "xx") := by decide
  unfold lines families
  simp only [List.append_assoc, List.flatMap_cons, List.flatMap_nil, List.append_nil]
  simp only [← List.append_assoc (introduction _ _ _)]
  refine happend (says_family (by decide +kernel) ?_) (happend (says_family (by decide +kernel) ?_)
    (happend (says_family (by decide +kernel) ?_) (happend (says_family (by decide +kernel) ?_)
    (happend (says_family (by decide +kernel) ?_) (happend (says_family (by decide +kernel) ?_)
    (says_family (by decide +kernel) ?_))))))
  · exact .cons (says_sample (by decide +kernel) (decimal?_toString _)) .nil
  · exact .cons (says_sample (by decide +kernel) (decimal?_toString _)) .nil
  · exact .cons (says_sample (by decide +kernel) (decimal?_seconds _)) .nil
  · exact says_rows (by decide +kernel) (by decide +kernel) hclasses fun c => decimal?_toString _
  · exact says_rows (by decide +kernel) (by decide +kernel) hplain fun row => decimal?_toString _
  · exact says_rows (by decide +kernel) (by decide +kernel) hplain fun row => decimal?_toString _
  · exact says_rows (by decide +kernel) (by decide +kernel) hplain fun row => decimal?_seconds _

/-- What the counters can come to, by the routes that become known and the requests that are
counted. -/
inductive Reachable : Metrics → Prop
  | empty : Reachable {}
  | register (m : Metrics) (template : String) (h : Reachable m) : Reachable (m.register template)
  | started (m : Metrics) (h : Reachable m) : Reachable m.started
  | finished (m : Metrics) (status : Status) (nanos : UInt64) (template : Option String)
      (h : Reachable m) :
    Reachable (m.finished status nanos template)

theorem Reachable.ascending (h : m.Reachable) : m.routes.Pairwise (·.1 < ·.1) := by
  induction h with
  | empty => exact .nil
  | register m template _ ih => exact ascending_updateRoute ih
  | started m _ ih => exact ih
  | finished m status nanos template _ ih =>
      cases template with
      | none => exact ih
      | some template => exact ascending_updateRoute ih

theorem Reachable.pairwise_rows (h : m.Reachable) (v : String × RouteCounters → ℚ) :
    (m.routes.map fun row => ([("path", row.1)], v row)).Pairwise fun row row' =>
      ¬ row.1.Perm row'.1 := by
  refine List.pairwise_map.2 (h.ascending.imp fun hlt hperm => ?_)
  have heq := List.singleton_perm_singleton.1 hperm
  exact hlt.ne (congrArg Prod.snd heq)

theorem Reachable.pairwise_families (h : m.Reachable) :
    ∀ f ∈ m.families, f.rows.Pairwise fun row row' => ¬ row.1.Perm row'.1 := by
  have hclasses : [1, 2, 3, 4, 5].Pairwise fun c c' : ℕ =>
      ¬ [("class", toString c ++ "xx")].Perm [("class", toString c' ++ "xx")] := by decide
  simp only [families, List.forall_mem_cons]
  refine ⟨List.pairwise_singleton _ _, List.pairwise_singleton _ _, List.pairwise_singleton _ _,
    List.pairwise_map.2 hclasses, h.pairwise_rows _, h.pairwise_rows _, h.pairwise_rows _, nofun⟩

def averageSample (m : Metrics) : Sample :=
  ⟨"brrtcore_request_latency_seconds", [], microseconds m.latencyAverage / 10 ^ 6⟩

/-- The samples of the counters: requests, requests that are being handled, and responses by class;
and for each route its requests, the errors among them, and how long they took. -/
def counterSamples (m : Metrics) : List Sample :=
  [⟨"brrtcore_requests_total", [], m.requests.toNat⟩,
    ⟨"brrtcore_requests_in_flight", [], m.inFlight.toNat⟩] ++
  ([1, 2, 3, 4, 5].map fun c =>
    ⟨"brrtcore_responses_total", [("class", toString c ++ "xx")], (m.classCount c).toNat⟩) ++
  (m.routes.map fun (t, c) => ⟨"brrtcore_route_requests_total", [("path", t)], c.requests.toNat⟩) ++
  (m.routes.map fun (t, c) => ⟨"brrtcore_route_errors_total", [("path", t)], c.errors.toNat⟩) ++
  (m.routes.map fun (t, c) => ⟨"brrtcore_route_latency_seconds", [("path", t)],
    microseconds (averageLatency c.latency c.requests) / 10 ^ 6⟩)

theorem samples_families (m : Metrics) :
    (m.families.flatMap Family.samples).Perm (m.averageSample :: m.counterSamples) := by
  simp only [families, counterSamples, averageSample, Family.samples, List.flatMap_cons,
    List.flatMap_nil, List.map_map, List.map_cons, List.map_nil,
    List.append_assoc, List.append_nil, List.cons_append, List.nil_append]
  exact ((List.Perm.swap _ _ _).cons _).trans (List.Perm.swap _ _ _)

theorem read?_eq (h : m.Reachable) (hplain : ∀ row ∈ m.routes, IsPlain row.1) :
    read? m.render = some (m.families.flatMap Family.samples) := by
  have hnames : (m.families.map Family.name).Nodup :=
    (by decide :
      ["brrtcore_requests_total", "brrtcore_requests_in_flight", "brrtcore_request_latency_seconds",
        "brrtcore_responses_total", "brrtcore_route_requests_total", "brrtcore_route_errors_total",
        "brrtcore_route_latency_seconds"].Nodup)
  exact read?_families (says_lines hplain) hnames h.pairwise_families

/-- Where no template needs escapes, the text of the counters is read back: it has the samples of
the counters, the average over all requests, and nothing else. -/
theorem read?_render (h : m.Reachable) (hplain : ∀ row ∈ m.routes, IsPlain row.1) :
    ∃ samples, read? m.render = some samples ∧ samples.Perm (m.averageSample :: m.counterSamples) :=
  ⟨_, read?_eq h hplain, m.samples_families⟩

def failedOnce : Metrics :=
  (({} : Metrics).register "/users/\x7bid\x7d").started.finished .internalServerError 2500
    (some "/users/\x7bid\x7d")

theorem reachable_failedOnce : failedOnce.Reachable :=
  .finished _ _ _ _ (.started _ (.register _ _ .empty))

theorem isPlain_failedOnce : ∀ row ∈ failedOnce.routes, IsPlain row.1 := by decide +kernel

theorem read?_render_failedOnce :
    failedOnce.Reachable ∧ (∀ row ∈ failedOnce.routes, IsPlain row.1) ∧
      ∃ samples, read? failedOnce.render = some samples ∧
        samples.Perm (failedOnce.averageSample :: failedOnce.counterSamples) :=
  ⟨reachable_failedOnce, isPlain_failedOnce, read?_render reachable_failedOnce isPlain_failedOnce⟩

/-- The counters are not all that is read. -/
theorem not_perm_counterSamples :
    failedOnce.Reachable ∧
      ¬ ∃ samples, read? failedOnce.render = some samples ∧
      samples.Perm failedOnce.counterSamples := by
  refine ⟨reachable_failedOnce, ?_⟩
  rintro ⟨samples, hread, hperm⟩
  rw [read?_eq reachable_failedOnce isPlain_failedOnce] at hread
  cases hread
  have hlength := (failedOnce.samples_families.symm.trans hperm).length_eq
  rw [List.length_cons] at hlength
  omega

end Metrics

end HttpDispatch
