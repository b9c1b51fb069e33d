import HttpDispatch.EventStream.Emitter
import HttpDispatch.Proofs.Text.Basic
import HttpDispatch.Proofs.Text.Numeral

/-!
# What a listener makes of an event stream

A listener cuts the text that arrives into lines, which end at a line feed, at a carriage return and
a line feed, or at a carriage return alone. A line is a field, whose value follows the first colon
and one blank after it; a blank line completes an event if there was data.

An emitter cuts texts into lines by another rule: a carriage return that no line feed follows does
not end a line (`Listener.hasLoneReturn`). Where there is none, a listener sees an event as it was
emitted (`Listener.eventsFrom_event`).
-/

namespace HttpDispatch

namespace Listener

/-- The complete lines of a text whose first line begins with `begun`. -/
def linesFrom (begun : List Char) : List Char → List (List Char)
  | [] => []
  | '\n' :: cs => begun :: linesFrom [] cs
  | '\r' :: '\n' :: cs => begun :: linesFrom [] cs
  | '\r' :: cs => begun :: linesFrom [] cs
  | c :: cs => linesFrom (begun ++ [c]) cs

/-- The name and the value of a line. One blank after the colon does not belong to the value. -/
def field (line : List Char) : List Char × List Char :=
  match Text.cutChars ':' line with
  | none => (line, [])
  | some (name, ' ' :: value) => (name, value)
  | some (name, value) => (name, value)

/-- An event that is not complete yet. Each line of its data is followed by a line feed. -/
structure Draft where
  id : Option String := none
  name : Option String := none
  retry : Option Nat := none
  data : List Char := []
deriving DecidableEq

namespace Draft

/-- The draft after one more field. A field of another name says nothing, and so does an identifier
with a null character. -/
def put (d : Draft) (name value : List Char) : Draft :=
  if name = "data".toList then { d with data := d.data ++ value ++ ['\n'] }
  else if name = "event".toList then { d with name := some (String.ofList value) }
  else if name = "id".toList then
    if '\x00' ∈ value then d else { d with id := some (String.ofList value) }
  else if name = "retry".toList then
    match Numeral.read? 10 value with
    | some n => { d with retry := some n }
    | none => d
  else d

/-- The event that a blank line completes. There is none if there was no data. -/
def event? (d : Draft) : Option Event :=
  if d.data = [] then none
  else some { id := d.id, name := d.name, retry := d.retry, data := String.ofList d.data.dropLast }

end Draft

def eventsFrom (d : Draft) : List (List Char) → List Event
  | [] => []
  | [] :: ls => d.event?.toList ++ eventsFrom {} ls
  | l :: ls => eventsFrom (d.put (field l).1 (field l).2) ls

/-- The events of a whole stream; `none` if its bytes are not text. -/
def receive (b : Bytes) : Option (List Event) :=
  (Text.decode? b).map fun s => eventsFrom {} (linesFrom [] s.toList)

def unifyBreaks : List Char → List Char
  | [] => []
  | '\n' :: cs => '\n' :: unifyBreaks cs
  | '\r' :: '\n' :: cs => '\n' :: unifyBreaks cs
  | '\r' :: cs => '\n' :: unifyBreaks cs
  | c :: cs => c :: unifyBreaks cs

def withoutBreaks (s : String) : String :=
  String.ofList (s.toList.filter fun c => c ≠ '\r' ∧ c ≠ '\n')

def hasLoneReturn : List Char → Bool
  | [] => false
  | '\r' :: '\n' :: cs => hasLoneReturn cs
  | '\r' :: _ => true
  | _ :: cs => hasLoneReturn cs

end Listener

def Event.seen (e : Event) : Event where
  id := e.id.map Listener.withoutBreaks
  name := e.name.map Listener.withoutBreaks
  retry := e.retry
  data := String.ofList (Listener.unifyBreaks e.data.toList)

namespace Listener.Draft

/-- What a listener sees of an event that comes after the lines of a draft. -/
def seen (d : Draft) (e : Event) : Event where
  id := e.seen.id.or d.id
  name := e.seen.name.or d.name
  retry := e.seen.retry.or d.retry
  data := String.ofList (d.data ++ unifyBreaks e.data.toList)

/-- Nothing of a draft is left in an event that comes after it: there is no data in it, and no field
that the event does not have. -/
def Fits (d : Draft) (e : Event) : Prop :=
  d.data = [] ∧ (e.id = none → d.id = none) ∧ (e.name = none → d.name = none) ∧
    (e.retry = none → d.retry = none)

instance (d : Draft) (e : Event) : Decidable (d.Fits e) := inferInstanceAs (Decidable (_ ∧ _))

theorem or_eq_left_iff {α : Type} {o o' : Option α} : o.or o' = o ↔ (o = none → o' = none) := by
  cases o <;> simp

theorem seen_eq_iff {d : Draft} {e : Event} : d.seen e = e.seen ↔ d.Fits e := by
  simp only [seen, Event.seen, Event.mk.injEq, or_eq_left_iff, Option.map_eq_none_iff,
    String.ofList_inj, List.append_left_eq_self, Fits]
  tauto

end Listener.Draft

/-- What a listener should see of a block: comments and hints are no events. -/
def Emitter.Block.seen? : Emitter.Block → Option Event
  | event e => some e.seen
  | comment _ | retry _ => none

namespace Event

/-!
## The lines that are emitted
-/

theorem exists_lines (s : List Char) : ∃ p ps, lines s = p :: ps := by
  refine List.exists_cons_of_ne_nil ?_
  simp [lines, List.splitOn_ne_nil]

theorem lines_lineFeed (s : List Char) : lines ('\n' :: s) = [] :: lines s := by
  simp [lines, List.splitOn_cons_eq_if_modifyHead, dropReturn]

theorem lines_return_lineFeed (s : List Char) : lines ('\r' :: '\n' :: s) = [] :: lines s := by
  simp [lines, List.splitOn_cons_eq_if_modifyHead, dropReturn]

theorem dropReturn_cons_of_ne_nil (c : Char) {p : List Char} (h : p ≠ []) :
    dropReturn (c :: p) = c :: dropReturn p := by
  obtain ⟨a, p, rfl⟩ := List.exists_cons_of_ne_nil h
  simp only [dropReturn, List.getLast?_cons_cons]
  split <;> rfl

theorem dropReturn_cons_of_ne {c : Char} (h : c ≠ '\r') (p : List Char) :
    dropReturn (c :: p) = c :: dropReturn p := by
  cases p with
  | nil => simp [dropReturn, h]
  | cons a p => exact dropReturn_cons_of_ne_nil c (List.cons_ne_nil a p)

theorem lines_cons {c : Char} (hn : c ≠ '\n') (hr : c ≠ '\r') {s p : List Char}
    {ps : List (List Char)} (h : lines s = p :: ps) : lines (c :: s) = (c :: p) :: ps := by
  unfold lines at h ⊢
  rw [List.splitOn_cons_eq_if_modifyHead, if_neg (by simpa using hn)]
  obtain ⟨q, qs, hq⟩ := List.exists_cons_of_ne_nil (List.splitOn_ne_nil '\n' s)
  rw [hq, List.map_cons, List.cons.injEq] at h
  rw [hq, List.modifyHead_cons, List.map_cons, dropReturn_cons_of_ne hr, h.1, h.2]

/-- A carriage return that no line feed follows belongs to the first line, unless it is the last
character of all. -/
theorem lines_return {s p : List Char} {ps : List (List Char)} (hne : s ≠ [])
    (hn : ∀ t, s ≠ '\n' :: t) (h : lines s = p :: ps) : lines ('\r' :: s) = ('\r' :: p) :: ps := by
  unfold lines at h ⊢
  rw [List.splitOn_cons_eq_if_modifyHead, if_neg (by decide)]
  obtain ⟨a, s, rfl⟩ := List.exists_cons_of_ne_nil hne
  have ha : a ≠ '\n' := fun ha => hn s (ha ▸ rfl)
  rw [List.splitOn_cons_eq_if_modifyHead, if_neg (by simpa using ha)] at h ⊢
  obtain ⟨q, qs, hq⟩ := List.exists_cons_of_ne_nil (List.splitOn_ne_nil '\n' s)
  rw [hq, List.modifyHead_cons, List.map_cons, List.cons.injEq] at h
  rw [hq, List.modifyHead_cons, List.modifyHead_cons, List.map_cons,
    dropReturn_cons_of_ne_nil _ (List.cons_ne_nil a q), h.1, h.2]

theorem not_mem_of_mem_lines {s p : List Char} (h : p ∈ lines s) : '\n' ∉ p := by
  obtain ⟨q, hq, rfl⟩ := List.mem_map.1 h
  intro hmem
  unfold dropReturn at hmem
  split at hmem
  · exact Text.not_mem_of_mem_splitOn hq (q.dropLast_subset hmem)
  · exact Text.not_mem_of_mem_splitOn hq hmem

end Event

namespace Listener

/-!
## Cutting at every end of a line
-/

theorem linesFrom_return (begun : List Char) {cs : List Char} (hn : ∀ t, cs ≠ '\n' :: t) :
    linesFrom begun ('\r' :: cs) = begun :: linesFrom [] cs := by
  rw [linesFrom]
  exact hn

theorem linesFrom_cons (begun : List Char) {c : Char} (hn : c ≠ '\n') (hr : c ≠ '\r')
    (cs : List Char) : linesFrom begun (c :: cs) = linesFrom (begun ++ [c]) cs := by
  rw [linesFrom]
  · exact hn
  · exact fun _ h => absurd h hr
  · exact hr

theorem unifyBreaks_return {cs : List Char} (hn : ∀ t, cs ≠ '\n' :: t) :
    unifyBreaks ('\r' :: cs) = '\n' :: unifyBreaks cs := by
  rw [unifyBreaks]
  exact hn

theorem unifyBreaks_cons {c : Char} (hn : c ≠ '\n') (hr : c ≠ '\r') (cs : List Char) :
    unifyBreaks (c :: cs) = c :: unifyBreaks cs := by
  rw [unifyBreaks]
  · exact hn
  · exact fun _ h => absurd h hr
  · exact hr

theorem hasLoneReturn_return {cs : List Char} (hn : ∀ t, cs ≠ '\n' :: t) :
    hasLoneReturn ('\r' :: cs) = true := by
  rw [hasLoneReturn]
  exact hn

theorem hasLoneReturn_cons {c : Char} (hr : c ≠ '\r') (cs : List Char) :
    hasLoneReturn (c :: cs) = hasLoneReturn cs := by
  rw [hasLoneReturn]
  · exact fun _ h => absurd h hr
  · exact hr

/-- Without lone carriage returns, the lines that are emitted are those that a listener cuts: no end
of a line is left in them, and they are what is between the ends of lines. -/
theorem lines_of_hasLoneReturn_eq_false {s : List Char} (h : hasLoneReturn s = false) :
    (Event.lines s).flatMap (· ++ ['\n']) = unifyBreaks s ++ ['\n'] ∧
      ∀ p ∈ Event.lines s, '\n' ∉ p ∧ '\r' ∉ p := by
  induction s using unifyBreaks.induct with
  | case1 => simp [Event.lines, Event.dropReturn, unifyBreaks]
  | case2 cs ih =>
      rw [hasLoneReturn_cons (by decide)] at h
      obtain ⟨hjoin, hmem⟩ := ih h
      simp only [Event.lines_lineFeed, unifyBreaks, List.flatMap_cons, hjoin, List.forall_mem_cons]
      exact ⟨rfl, by simp, hmem⟩
  | case3 cs ih =>
      rw [hasLoneReturn] at h
      obtain ⟨hjoin, hmem⟩ := ih h
      simp only [Event.lines_return_lineFeed, unifyBreaks, List.flatMap_cons, hjoin,
        List.forall_mem_cons]
      exact ⟨rfl, by simp, hmem⟩
  | case4 cs hn =>
      rw [hasLoneReturn_return hn] at h
      cases h
  | case5 c cs hn _ hr ih =>
      rw [hasLoneReturn_cons hr] at h
      obtain ⟨hjoin, hmem⟩ := ih h
      obtain ⟨p, ps, hlines⟩ := Event.exists_lines cs
      rw [hlines, List.forall_mem_cons] at hmem
      rw [hlines, List.flatMap_cons] at hjoin
      rw [Event.lines_cons hn hr hlines, unifyBreaks_cons hn hr, List.flatMap_cons,
        List.forall_mem_cons]
      refine ⟨?_, ?_, hmem.2⟩
      · rw [List.cons_append, List.cons_append, List.cons_append, hjoin]
      · simp [Ne.symm hn, Ne.symm hr, hmem.1]

theorem linesFrom_append {l : List Char} (hn : '\n' ∉ l) (hr : '\r' ∉ l) (begun rest : List Char) :
    linesFrom begun (l ++ rest) = linesFrom (begun ++ l) rest := by
  induction l generalizing begun with
  | nil => rw [List.nil_append, List.append_nil]
  | cons c l ih =>
      rw [List.mem_cons, not_or] at hn hr
      rw [List.cons_append, linesFrom_cons begun (Ne.symm hn.1) (Ne.symm hr.1), ih hn.2 hr.2,
        List.append_assoc]
      rfl

def line (name : String) (value : List Char) : List Char := name.toList ++ ':' :: ' ' :: value

theorem field_line {name : String} (h : ':' ∉ name.toList) (value : List Char) :
    field (line name value) = (name.toList, value) := by
  rw [field, line, Text.cutChars_append h]
  rfl

theorem eventsFrom_line (d : Draft) {name : String} (h : ':' ∉ name.toList) (value : List Char)
    (ls : List (List Char)) :
    eventsFrom d (line name value :: ls) = eventsFrom (d.put name.toList value) ls := by
  rw [eventsFrom, field_line h]
  simp [line]

structure IsName (name : String) : Prop where
  colon : ':' ∉ name.toList
  lineFeed : '\n' ∉ name.toList
  carriageReturn : '\r' ∉ name.toList

theorem linesFrom_fieldLine {name : String} (h : IsName name) {value : List Char}
    (hn : '\n' ∉ value) (hr : '\r' ∉ value) (rest : List Char) :
    linesFrom [] (Event.fieldLine name value ++ rest) = line name value :: linesFrom [] rest := by
  have hline : Event.fieldLine name value ++ rest = line name value ++ '\n' :: rest := by
    simp [Event.fieldLine, line]
  rw [hline, linesFrom_append, List.nil_append, linesFrom]
  · simp [line, h.lineFeed, hn]
  · simp [line, h.carriageReturn, hr]

theorem eventsFrom_fieldLine (d : Draft) {name : String} (h : IsName name) {value : List Char}
    (hn : '\n' ∉ value) (hr : '\r' ∉ value) (rest : List Char) :
    eventsFrom d (linesFrom [] (Event.fieldLine name value ++ rest)) =
      eventsFrom (d.put name.toList value) (linesFrom [] rest) := by
  rw [linesFrom_fieldLine h hn hr, eventsFrom_line d h.colon]

theorem isName_data : IsName "data" := ⟨by decide, by decide, by decide⟩

theorem isName_event : IsName "event" := ⟨by decide, by decide, by decide⟩

theorem isName_id : IsName "id" := ⟨by decide, by decide, by decide⟩

theorem isName_retry : IsName "retry" := ⟨by decide, by decide, by decide⟩

theorem isName_empty : IsName "" := ⟨by decide, by decide, by decide⟩

theorem eventsFrom_data (d : Draft) {ps : List (List Char)} (h : ∀ p ∈ ps, '\n' ∉ p ∧ '\r' ∉ p)
    (rest : List Char) :
    eventsFrom d (linesFrom [] (ps.flatMap (Event.fieldLine "data") ++ rest)) =
      eventsFrom { d with data := d.data ++ ps.flatMap (· ++ ['\n']) } (linesFrom [] rest) := by
  induction ps generalizing d with
  | nil => simp
  | cons p ps ih =>
      obtain ⟨⟨hn, hr⟩, hps⟩ := List.forall_mem_cons.1 h
      have hput : d.put "data".toList p = { d with data := d.data ++ p ++ ['\n'] } := if_pos rfl
      rw [List.flatMap_cons, List.append_assoc, eventsFrom_fieldLine d isName_data hn hr, hput,
        ih _ hps, List.flatMap_cons]
      simp only [List.append_assoc]

theorem singleLine_toList (s : String) : Event.singleLine s.toList = (withoutBreaks s).toList := by
  rw [withoutBreaks, String.toList_ofList]
  apply List.filter_congr
  intro c _
  simp [and_comm]

theorem put_id (d : Draft) {i : String} (h : '\x00' ∉ i.toList) :
    d.put "id".toList (Event.singleLine i.toList) = { d with id := some (withoutBreaks i) } := by
  have hnull : '\x00' ∉ Event.singleLine i.toList := fun hmem => h (List.mem_filter.1 hmem).1
  rw [Draft.put, if_neg (by decide), if_neg (by decide), if_pos rfl, if_neg hnull,
    singleLine_toList, String.ofList_toList]

theorem put_event (d : Draft) (name : String) :
    d.put "event".toList (Event.singleLine name.toList) =
      { d with name := some (withoutBreaks name) } := by
  rw [Draft.put, if_neg (by decide), if_pos rfl, singleLine_toList, String.ofList_toList]

theorem put_retry (d : Draft) (n : Nat) :
    d.put "retry".toList (Nat.toDigits 10 n) = { d with retry := some n } := by
  rw [Draft.put, if_neg (by decide), if_neg (by decide), if_neg (by decide), if_pos rfl,
    Numeral.read?_toDigits]

theorem not_mem_singleLine (s : String) :
    '\n' ∉ Event.singleLine s.toList ∧ '\r' ∉ Event.singleLine s.toList := by
  simp [Event.singleLine]

theorem not_mem_toDigits (n : Nat) : '\n' ∉ Nat.toDigits 10 n ∧ '\r' ∉ Nat.toDigits 10 n := by
  have hdigit : ∀ c ∈ Nat.toDigits 10 n, c.isDigit = true :=
    fun c hc => Nat.isDigit_of_mem_toDigits (by decide) (by decide) hc
  exact ⟨fun h => absurd (hdigit _ h) (by decide), fun h => absurd (hdigit _ h) (by decide)⟩

theorem eventsFrom_id (d : Draft) {o : Option String} (hid : ∀ i, o = some i → '\x00' ∉ i.toList)
    (rest : List Char) :
    eventsFrom d (linesFrom []
        ((o.map fun s => Event.fieldLine "id" (Event.singleLine s.toList)).getD [] ++ rest)) =
      eventsFrom { d with id := (o.map withoutBreaks).or d.id } (linesFrom [] rest) := by
  cases o with
  | none => rfl
  | some i =>
      rw [Option.map_some, Option.map_some, Option.some_or, ← put_id d (hid i rfl)]
      exact eventsFrom_fieldLine d isName_id (not_mem_singleLine i).1 (not_mem_singleLine i).2 rest

theorem eventsFrom_name (d : Draft) (o : Option String) (rest : List Char) :
    eventsFrom d (linesFrom []
        ((o.map fun s => Event.fieldLine "event" (Event.singleLine s.toList)).getD [] ++ rest)) =
      eventsFrom { d with name := (o.map withoutBreaks).or d.name } (linesFrom [] rest) := by
  cases o with
  | none => rfl
  | some name =>
      rw [Option.map_some, Option.map_some, Option.some_or, ← put_event d name]
      exact eventsFrom_fieldLine d isName_event (not_mem_singleLine name).1
        (not_mem_singleLine name).2 rest

theorem eventsFrom_retry (d : Draft) (n : Nat) (rest : List Char) :
    eventsFrom d (linesFrom [] (Event.fieldLine "retry" (Nat.toDigits 10 n) ++ rest)) =
      eventsFrom { d with retry := some n } (linesFrom [] rest) := by
  rw [← put_retry d n]
  exact eventsFrom_fieldLine d isName_retry (not_mem_toDigits n).1 (not_mem_toDigits n).2 rest

theorem eventsFrom_optionalRetry (d : Draft) (o : Option Nat) (rest : List Char) :
    eventsFrom d (linesFrom []
        ((o.map fun n => Event.fieldLine "retry" (Nat.toDigits 10 n)).getD [] ++ rest)) =
      eventsFrom { d with retry := o.or d.retry } (linesFrom [] rest) := by
  cases o with
  | none => rfl
  | some n => exact eventsFrom_retry d n rest

theorem eventsFrom_blank (d : Draft) (rest : List Char) :
    eventsFrom d (linesFrom [] ('\n' :: rest)) =
      d.event?.toList ++ eventsFrom {} (linesFrom [] rest) := by
  rw [linesFrom, eventsFrom]

/-- The fields before the data of an event take the place of those in the draft. -/
theorem eventsFrom_chars (d : Draft) {e : Event} (hid : ∀ i, e.id = some i → '\x00' ∉ i.toList)
    (rest : List Char) :
    eventsFrom d (linesFrom [] (e.chars ++ rest)) =
      eventsFrom
        { d with id := e.seen.id.or d.id, name := e.seen.name.or d.name,
                 retry := e.seen.retry.or d.retry }
        (linesFrom []
          ((Event.lines e.data.toList).flatMap (Event.fieldLine "data") ++ '\n' :: rest)) := by
  unfold Event.chars
  simp only [List.append_assoc, List.cons_append, List.nil_append]
  rw [eventsFrom_id d hid, eventsFrom_name, eventsFrom_optionalRetry]
  rfl

/-- An event completes the draft that it finds, and what follows is read from the start. -/
theorem eventsFrom_event (d : Draft) {e : Event} (hid : ∀ i, e.id = some i → '\x00' ∉ i.toList)
    (hdata : hasLoneReturn e.data.toList = false) (rest : List Char) :
    eventsFrom d (linesFrom [] (e.chars ++ rest)) =
      d.seen e :: eventsFrom {} (linesFrom [] rest) := by
  obtain ⟨hjoin, hlines⟩ := lines_of_hasLoneReturn_eq_false hdata
  rw [eventsFrom_chars d hid, eventsFrom_data _ hlines, hjoin,
    eventsFrom_blank, ← List.append_assoc]
  simp [Draft.event?, Draft.seen]

end Listener

end HttpDispatch
