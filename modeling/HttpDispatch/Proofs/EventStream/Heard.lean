import HttpDispatch.Proofs.EventStream.Closing
import HttpDispatch.Proofs.EventStream.Listener
import HttpDispatch.Proofs.Exchange.Head
import Mathlib.Algebra.Ring.Nat

/-!
# What is heard of the events that are emitted

`Emitter.receive_emitAll_iff` says when a listener sees the events that were emitted, and nothing
else. This can be told block by block (`Listener.HearsAll`): what a lone carriage return lets a
comment say stays in the draft of the listener until the next event or hint, which has to leave
nothing of it. Where comments say nothing, it is exactly for the data of the events to have no lone
carriage return.

That the condition is needed is a matter of size. A listener cannot see more data than there is in
the lines that it cuts (`Listener.eventsSize_eventsFrom_le`), and a lone carriage return takes from
a line of data what it stands for, at least (`Listener.dataSizeFrom_data`): what follows it is
another line, which may say anything, but it says less than it has characters. From one block to the
next it is a matter of number: something is seen of every event
(`Listener.eventsFrom_event_ne_nil`).
-/

namespace HttpDispatch

namespace Listener

/-!
## How much data arrives
-/

/-- How much a line adds to the data of an event. -/
def dataSize (l : List Char) : Nat :=
  if (field l).1 = "data".toList then (field l).2.length + 1 else 0

def dataSizeFrom (begun cs : List Char) : Nat := ((linesFrom begun cs).map dataSize).sum

def eventsSize (es : List Event) : Nat := (es.map fun e => e.data.toList.length + 1).sum

theorem length_data_put (d : Draft) (l : List Char) :
    (d.put (field l).1 (field l).2).data.length = d.data.length + dataSize l := by
  unfold Draft.put dataSize
  split
  · simp only [List.length_append, List.length_cons, List.length_nil]
    omega
  · repeat' split
    all_goals rfl

theorem eventsSize_event? (d : Draft) : eventsSize d.event?.toList = d.data.length := by
  unfold Draft.event? eventsSize
  split
  · next h => simp [h]
  · next h =>
    have := List.length_pos_iff.2 h
    simp
    omega

/-- No more data is seen than arrives. -/
theorem eventsSize_eventsFrom_le (d : Draft) (ls : List (List Char)) :
    eventsSize (eventsFrom d ls) ≤ d.data.length + (ls.map dataSize).sum := by
  induction ls generalizing d with
  | nil => exact Nat.zero_le _
  | cons l ls ih =>
      cases l with
      | nil =>
          have hsplit : eventsSize (eventsFrom d ([] :: ls)) =
              eventsSize d.event?.toList + eventsSize (eventsFrom {} ls) := by
            simp [eventsSize, eventsFrom]
          have hrest := ih {}
          rw [List.length_nil, Nat.zero_add] at hrest
          rw [hsplit, eventsSize_event?, List.map_cons, List.sum_cons]
          omega
      | cons c l =>
          have hrest := ih (d.put (field (c :: l)).1 (field (c :: l)).2)
          rw [length_data_put] at hrest
          rw [eventsFrom, List.map_cons, List.sum_cons]
          · omega
          · simp

theorem dataSize_le (l : List Char) : dataSize l ≤ l.length := by
  unfold dataSize field
  split
  · simp only
    split
    · next h =>
      rw [h]
      decide
    · exact Nat.zero_le _
  · next name value h =>
    rw [Text.eq_append_of_cutChars h]
    split
    · simp
      omega
    · exact Nat.zero_le _
  · next name value _ h =>
    rw [Text.eq_append_of_cutChars h]
    split
    · simp
    · exact Nat.zero_le _

theorem dataSizeFrom_lineFeed (begun rest : List Char) :
    dataSizeFrom begun ('\n' :: rest) = dataSize begun + dataSizeFrom [] rest := by
  rw [dataSizeFrom, linesFrom, List.map_cons, List.sum_cons]
  rfl

theorem dataSizeFrom_cons (begun : List Char) {c : Char} (hn : c ≠ '\n') (hr : c ≠ '\r')
    (rest : List Char) : dataSizeFrom begun (c :: rest) = dataSizeFrom (begun ++ [c]) rest := by
  rw [dataSizeFrom, linesFrom_cons begun hn hr, dataSizeFrom]

theorem dataSizeFrom_return {s : List Char} (h : '\n' ∉ s) (begun rest : List Char) :
    dataSizeFrom begun ('\r' :: (s ++ '\n' :: rest)) =
      dataSize begun +
        if s = [] then dataSizeFrom [] rest else dataSizeFrom [] (s ++ '\n' :: rest) := by
  cases s with
  | nil =>
      rw [List.nil_append, if_pos rfl, dataSizeFrom, linesFrom, List.map_cons, List.sum_cons]
      rfl
  | cons c s =>
      have hn : ∀ t, c :: s ++ '\n' :: rest ≠ '\n' :: t := by
        rintro t ⟨⟩
        exact h List.mem_cons_self
      rw [if_neg (List.cons_ne_nil c s), dataSizeFrom, linesFrom_return begun hn, List.map_cons,
        List.sum_cons]
      rfl

theorem dataSizeFrom_le {s : List Char} (h : '\n' ∉ s) (begun rest : List Char) :
    dataSizeFrom begun (s ++ '\n' :: rest) ≤ begun.length + s.length + dataSizeFrom [] rest := by
  induction s generalizing begun with
  | nil =>
      have := dataSize_le begun
      rw [List.nil_append, dataSizeFrom_lineFeed, List.length_nil]
      omega
  | cons c s ih =>
      rw [List.mem_cons, not_or] at h
      by_cases hr : c = '\r'
      · subst hr
        have hbegun := dataSize_le begun
        have hrest := ih h.2 []
        rw [List.length_nil] at hrest
        rw [List.cons_append, dataSizeFrom_return h.2, List.length_cons]
        split <;> omega
      · have hrest := ih h.2 (begun ++ [c])
        rw [List.length_append, List.length_singleton] at hrest
        rw [List.cons_append, dataSizeFrom_cons begun (Ne.symm h.1) hr, List.length_cons]
        omega

theorem dataSize_line {name : String} (h : IsName name) (value : List Char) :
    dataSize (line name value) = if name = "data" then value.length + 1 else 0 := by
  rw [dataSize, field_line h.colon]
  simp only [String.toList_inj]

/-- A line of data with a carriage return in it loses what the carriage return stands
for, at least. -/
theorem dataSizeFrom_data {s : List Char} (h : '\n' ∉ s) (value rest : List Char) :
    dataSizeFrom (line "data" value) (s ++ '\n' :: rest) + (if '\r' ∈ s then 1 else 0) ≤
      value.length + s.length + 1 + dataSizeFrom [] rest := by
  induction s generalizing value with
  | nil =>
      rw [List.nil_append, dataSizeFrom_lineFeed, dataSize_line isName_data]
      simp
  | cons c s ih =>
      rw [List.mem_cons, not_or] at h
      by_cases hr : c = '\r'
      · subst hr
        have hrest := dataSizeFrom_le h.2 [] rest
        rw [List.length_nil] at hrest
        rw [List.cons_append, dataSizeFrom_return h.2, dataSize_line isName_data, if_pos rfl,
          if_pos List.mem_cons_self, List.length_cons]
        split <;> omega
      · have hline : line "data" value ++ [c] = line "data" (value ++ [c]) := by simp [line]
        have hrest := ih h.2 (value ++ [c])
        rw [List.length_append, List.length_singleton] at hrest
        rw [List.cons_append, dataSizeFrom_cons _ (Ne.symm h.1) hr, hline, List.length_cons]
        simp only [List.mem_cons, Ne.symm hr, false_or]
        omega

theorem dataSizeFrom_fieldLine {name : String} (h : IsName name) (value rest : List Char) :
    dataSizeFrom [] (Event.fieldLine name value ++ rest) =
      dataSizeFrom (line name []) (value ++ '\n' :: rest) := by
  have hline : Event.fieldLine name value ++ rest = line name [] ++ (value ++ '\n' :: rest) := by
    simp [Event.fieldLine, line]
  rw [hline, dataSizeFrom, linesFrom_append, List.nil_append, dataSizeFrom]
  · simp [line, h.lineFeed]
  · simp [line, h.carriageReturn]

/-- How much data lines should bring. -/
def piecesSize (ps : List (List Char)) : Nat := (ps.map fun p => p.length + 1).sum

def broken (ps : List (List Char)) : Nat := ps.countP fun p => '\r' ∈ p

theorem dataSizeFrom_pieces {ps : List (List Char)} (h : ∀ p ∈ ps, '\n' ∉ p) (rest : List Char) :
    dataSizeFrom [] (ps.flatMap (Event.fieldLine "data") ++ rest) + broken ps ≤
      piecesSize ps + dataSizeFrom [] rest := by
  unfold broken piecesSize
  induction ps with
  | nil => simp
  | cons p ps ih =>
      obtain ⟨hp, hps⟩ := List.forall_mem_cons.1 h
      have hfirst := dataSizeFrom_data hp [] (ps.flatMap (Event.fieldLine "data") ++ rest)
      have hrest := ih hps
      rw [List.length_nil] at hfirst
      rw [List.flatMap_cons, List.append_assoc, dataSizeFrom_fieldLine isName_data,
        List.countP_cons, List.map_cons, List.sum_cons]
      simp only [decide_eq_true_eq]
      omega

@[simp]
theorem piecesSize_cons (p : List Char) (ps : List (List Char)) :
    piecesSize (p :: ps) = p.length + 1 + piecesSize ps := by
  simp [piecesSize]

@[simp]
theorem broken_cons (p : List Char) (ps : List (List Char)) :
    broken (p :: ps) = broken ps + if '\r' ∈ p then 1 else 0 := by
  simp [broken, List.countP_cons]

/-- Where the two rules for lines differ, lines are broken, or the data is shorter than it should
be. -/
theorem piecesSize_lines (s : List Char) :
    piecesSize (Event.lines s) ≤ (unifyBreaks s).length + 1 ∧
      piecesSize (Event.lines s) + (if hasLoneReturn s then 1 else 0) ≤
        (unifyBreaks s).length + 1 + broken (Event.lines s) := by
  induction s using unifyBreaks.induct with
  | case1 => decide
  | case2 cs ih =>
      rw [Event.lines_lineFeed, unifyBreaks, hasLoneReturn_cons (by decide), piecesSize_cons,
        broken_cons, List.length_cons]
      simp only [List.length_nil, List.not_mem_nil, if_false]
      omega
  | case3 cs ih =>
      rw [Event.lines_return_lineFeed, unifyBreaks, hasLoneReturn, piecesSize_cons,
        broken_cons, List.length_cons]
      simp only [List.length_nil, List.not_mem_nil, if_false]
      omega
  | case4 cs hn ih =>
      rw [hasLoneReturn_return hn, unifyBreaks_return hn, if_pos rfl, List.length_cons]
      by_cases hne : cs = []
      · subst hne
        decide
      · obtain ⟨p, ps, hlines⟩ := Event.exists_lines cs
        rw [hlines, piecesSize_cons] at ih
        rw [Event.lines_return hne hn hlines, piecesSize_cons, broken_cons, List.length_cons,
          if_pos List.mem_cons_self]
        omega
  | case5 c cs hn _ hr ih =>
      obtain ⟨p, ps, hlines⟩ := Event.exists_lines cs
      rw [hlines, piecesSize_cons, broken_cons] at ih
      rw [Event.lines_cons hn hr hlines, unifyBreaks_cons hn hr, hasLoneReturn_cons hr,
        piecesSize_cons, broken_cons, List.length_cons, List.length_cons]
      simp only [List.mem_cons, Ne.symm hr, false_or]
      omega

theorem dataSizeFrom_other {name : String} (h : IsName name) (hname : name ≠ "data")
    {value : List Char} (hn : '\n' ∉ value) (hr : '\r' ∉ value) (rest : List Char) :
    dataSizeFrom [] (Event.fieldLine name value ++ rest) = dataSizeFrom [] rest := by
  rw [dataSizeFrom, linesFrom_fieldLine h hn hr, List.map_cons, List.sum_cons, dataSize_line h,
    if_neg hname, Nat.zero_add, dataSizeFrom]

theorem dataSizeFrom_optional {α : Type} {name : String} (h : IsName name) (hname : name ≠ "data")
    {value : α → List Char} (hvalue : ∀ a, '\n' ∉ value a ∧ '\r' ∉ value a) (o : Option α)
    (rest : List Char) :
    dataSizeFrom [] ((o.map fun a => Event.fieldLine name (value a)).getD [] ++ rest) =
      dataSizeFrom [] rest := by
  cases o with
  | none => rfl
  | some a => exact dataSizeFrom_other h hname (hvalue a).1 (hvalue a).2 rest

/-- An event with a lone carriage return in its data brings less data than it should. -/
theorem dataSizeFrom_event (e : Event) (rest : List Char) :
    dataSizeFrom [] (e.chars ++ rest) + (if hasLoneReturn e.data.toList then 1 else 0) ≤
      eventsSize [e.seen] + dataSizeFrom [] rest := by
  have hlines :=
    dataSizeFrom_pieces (fun p hp => Event.not_mem_of_mem_lines (s := e.data.toList) hp)
    ('\n' :: rest)
  have hsize := (piecesSize_lines e.data.toList).2
  have hseen : eventsSize [e.seen] = (unifyBreaks e.data.toList).length + 1 := by
    simp [eventsSize, Event.seen]
  rw [dataSizeFrom_lineFeed] at hlines
  have hblank : dataSize [] = 0 := by decide
  unfold Event.chars
  simp only [List.append_assoc, List.cons_append, List.nil_append]
  rw [dataSizeFrom_optional isName_id (by decide) not_mem_singleLine,
    dataSizeFrom_optional isName_event (by decide) not_mem_singleLine,
    dataSizeFrom_optional isName_retry (by decide) not_mem_toDigits]
  omega

/-!
## Breaks in comments
-/

def Draft.after (d : Draft) : List (List Char) → Draft
  | [] => d
  | [] :: ls => Draft.after {} ls
  | l :: ls => (d.put (field l).1 (field l).2).after ls

theorem eventsFrom_append (d : Draft) (ls ls' : List (List Char)) :
    eventsFrom d (ls ++ ls') = eventsFrom d ls ++ eventsFrom (d.after ls) ls' := by
  induction ls generalizing d with
  | nil => rfl
  | cons l ls ih =>
      cases l with
      | nil => simp only [List.cons_append, eventsFrom, Draft.after, ih, List.append_assoc]
      | cons c l => simp only [List.cons_append, eventsFrom, Draft.after, ih]

theorem linesFrom_eq_modifyHead (begun cs : List Char) :
    linesFrom begun cs = (linesFrom [] cs).modifyHead (begun ++ ·) := by
  induction cs using unifyBreaks.induct generalizing begun with
  | case1 => rfl
  | case2 cs => simp [linesFrom]
  | case3 cs => simp [linesFrom]
  | case4 cs hn => simp [linesFrom_return _ hn]
  | case5 c cs hn _ hr ih =>
      rw [linesFrom_cons begun hn hr, linesFrom_cons [] hn hr, ih (begun ++ [c]), ih ([] ++ [c]),
        List.modifyHead_modifyHead]
      simp [Function.comp_def]

theorem append_ne_lineFeed_cons {cs : List Char} (hne : cs ≠ []) (hn : ∀ t, cs ≠ '\n' :: t)
    (s t : List Char) : cs ++ s ≠ '\n' :: t := by
  obtain ⟨c, cs, rfl⟩ := List.exists_cons_of_ne_nil hne
  rintro ⟨⟩
  exact hn cs rfl

theorem linesFrom_append_lineFeed (begun cs rest : List Char) :
    linesFrom begun (cs ++ '\n' :: rest) = linesFrom begun (cs ++ ['\n']) ++ linesFrom [] rest := by
  induction cs using unifyBreaks.induct generalizing begun with
  | case1 => simp [linesFrom]
  | case2 cs ih => simp [linesFrom, ih]
  | case3 cs ih => simp [linesFrom, ih]
  | case4 cs hn ih =>
      by_cases hne : cs = []
      · simp [hne, linesFrom]
      · rw [List.cons_append, List.cons_append,
          linesFrom_return begun (append_ne_lineFeed_cons hne hn _),
          linesFrom_return begun (append_ne_lineFeed_cons hne hn _), ih, List.cons_append]
  | case5 c cs hn _ hr ih => simp only [List.cons_append, linesFrom_cons _ hn hr, ih]

/-- The lines that a listener makes of an emitted line, but for the first. -/
def cutOff (p : List Char) : List (List Char) := (linesFrom [] (p ++ ['\n'])).tail

theorem linesFrom_append_lineFeed_ne_nil (begun cs : List Char) :
    linesFrom begun (cs ++ ['\n']) ≠ [] := by
  induction cs using unifyBreaks.induct generalizing begun with
  | case1 => simp [linesFrom]
  | case2 cs => simp [linesFrom]
  | case3 cs => simp [linesFrom]
  | case4 cs hn =>
      by_cases hne : cs = []
      · simp [hne, linesFrom]
      · rw [List.cons_append, linesFrom_return begun (append_ne_lineFeed_cons hne hn _)]
        exact List.cons_ne_nil _ _
  | case5 c cs hn _ hr ih =>
      rw [List.cons_append, linesFrom_cons begun hn hr]
      exact ih (begun ++ [c])

theorem exists_linesFrom_fieldLine {name : String} (h : IsName name) (p rest : List Char) :
    ∃ q, linesFrom [] (Event.fieldLine name p ++ rest) =
      line name q :: (cutOff p ++ linesFrom [] rest) := by
  obtain ⟨q, qs, hlines⟩ := List.exists_cons_of_ne_nil (linesFrom_append_lineFeed_ne_nil [] p)
  have hline : Event.fieldLine name p ++ rest = line name [] ++ (p ++ '\n' :: rest) := by
    simp [Event.fieldLine, line]
  refine ⟨q, ?_⟩
  rw [hline, linesFrom_append, linesFrom_append_lineFeed, linesFrom_eq_modifyHead, cutOff, hlines]
  · simp [line]
  · simp [line, h.lineFeed]
  · simp [line, h.carriageReturn]

/-- The lines of a comment that a listener does not take for a comment. -/
def smuggled (s : String) : List (List Char) := (Event.lines s.toList).flatMap cutOff

/-- Of a comment, a listener reads what is smuggled in, and nothing else. -/
theorem eventsFrom_comment (d : Draft) (ps : List (List Char)) (rest : List Char) :
    eventsFrom d (linesFrom [] (ps.flatMap (Event.fieldLine "") ++ rest)) =
      eventsFrom d (ps.flatMap cutOff ++ linesFrom [] rest) := by
  induction ps generalizing d with
  | nil => rfl
  | cons p ps ih =>
      obtain ⟨q, hlines⟩ := exists_linesFrom_fieldLine isName_empty p
        (ps.flatMap (Event.fieldLine "") ++ rest)
      have hput : d.put "".toList q = d := rfl
      rw [List.flatMap_cons, List.append_assoc, hlines, eventsFrom_line d isName_empty.colon, hput,
        eventsFrom_append, ih, ← eventsFrom_append, List.flatMap_cons, List.append_assoc]

theorem eventsFrom_commentChars (d : Draft) (s : String) :
    eventsFrom d (linesFrom [] (Event.commentChars s)) = eventsFrom d (smuggled s) := by
  have hcomment := eventsFrom_comment d (Event.lines s.toList) []
  rwa [List.append_nil, linesFrom, List.append_nil] at hcomment

/-- After a blank line, a stream is read from the start. -/
theorem eventsFrom_closed (d : Draft) {cs : List Char} (h : ['\n', '\n'] <:+ cs)
    (rest : List Char) :
    eventsFrom d (linesFrom [] (cs ++ rest)) =
      eventsFrom d (linesFrom [] cs) ++ eventsFrom {} (linesFrom [] rest) := by
  obtain ⟨s, rfl⟩ := h
  have hblank : ∀ t, linesFrom [] ('\n' :: t) = [] :: linesFrom [] t := fun _ => rfl
  rw [List.append_assoc, List.cons_append, List.cons_append, List.nil_append,
    linesFrom_append_lineFeed, linesFrom_append_lineFeed [] s ['\n'], hblank, hblank,
    eventsFrom_append, eventsFrom_append, eventsFrom, eventsFrom, linesFrom, eventsFrom]
  simp

theorem suffix_chars (e : Event) : ['\n', '\n'] <:+ e.chars := by
  obtain ⟨ps, p, hlines⟩ := (List.eq_nil_or_concat (Event.lines e.data.toList)).resolve_left
    (by simp [Event.lines, List.splitOn_ne_nil])
  have hpieces : (Event.lines e.data.toList).flatMap (Event.fieldLine "data") =
      ps.flatMap (Event.fieldLine "data") ++ line "data" p ++ ['\n'] := by
    simp [hlines, Event.fieldLine, line]
  rw [Event.chars, hpieces, ← List.append_assoc, List.append_assoc _ ['\n']]
  exact List.suffix_append _ _

theorem suffix_retryChars (n : Nat) : ['\n', '\n'] <:+ Event.retryChars n :=
  ⟨"retry".toList ++ ':' :: ' ' :: Nat.toDigits 10 n, by simp [Event.retryChars, Event.fieldLine]⟩

theorem eventsFrom_ne_nil {d : Draft} (hd : d.data ≠ []) {ls : List (List Char)} (h : [] ∈ ls) :
    eventsFrom d ls ≠ [] := by
  induction ls generalizing d with
  | nil => exact absurd h List.not_mem_nil
  | cons l ls ih =>
      cases l with
      | nil => simp [eventsFrom, Draft.event?, hd]
      | cons c l =>
          have hlength := length_data_put d (c :: l)
          have hpos := List.length_pos_iff.2 hd
          have hls : [] ∈ ls := (List.mem_cons.1 h).resolve_left (List.cons_ne_nil c l).symm
          rw [eventsFrom]
          · exact ih (List.length_pos_iff.1 (by omega)) hls
          · simp

theorem nil_mem_linesFrom_pieces (ps : List (List Char)) :
    [] ∈ linesFrom [] (ps.flatMap (Event.fieldLine "data") ++ ['\n']) := by
  induction ps with
  | nil => exact List.mem_cons_self
  | cons p ps ih =>
      obtain ⟨q, hlines⟩ := exists_linesFrom_fieldLine isName_data p
        (ps.flatMap (Event.fieldLine "data") ++ ['\n'])
      rw [List.flatMap_cons, List.append_assoc, hlines]
      exact List.mem_cons_of_mem _ (List.mem_append_right _ ih)

/-- Something is seen of every event, in whichever draft. -/
theorem eventsFrom_event_ne_nil (d : Draft) {e : Event}
    (hid : ∀ i, e.id = some i → '\x00' ∉ i.toList) : eventsFrom d (linesFrom [] e.chars) ≠ [] := by
  obtain ⟨p, ps, hpieces⟩ := Event.exists_lines e.data.toList
  obtain ⟨q, hlines⟩ := exists_linesFrom_fieldLine isName_data p
    (ps.flatMap (Event.fieldLine "data") ++ ['\n'])
  have hfields := eventsFrom_chars d hid []
  rw [List.append_nil] at hfields
  rw [hfields, hpieces, List.flatMap_cons, List.append_assoc, hlines,
    eventsFrom_line _ isName_data.colon]
  exact eventsFrom_ne_nil (by simp [Draft.put])
    (List.mem_append_right _ (nil_mem_linesFrom_pieces ps))

/-!
## Whole streams
-/

/-- Whether a block is seen as it should be, and nothing else of it, by a listener in whose draft
there is what comments have smuggled in. Where there is a lone carriage return in the data of an
event, this takes data in the draft that happens to make up for what is lost. -/
def Hears (d : Draft) : Emitter.Block → Prop
  | .event e =>
    if hasLoneReturn e.data.toList then
      d.data ≠ [] ∧ eventsFrom d (linesFrom [] e.chars) = [e.seen]
    else d.Fits e
  | .comment s => eventsFrom d (smuggled s) = []
  | .retry _ => d.data = []

instance (d : Draft) : (b : Emitter.Block) → Decidable (Hears d b)
  | .event e => by unfold Hears; infer_instance
  | .comment s => inferInstanceAs (Decidable (_ = _))
  | .retry _ => inferInstanceAs (Decidable (_ = _))

def Draft.next (d : Draft) : Emitter.Block → Draft
  | .event _ | .retry _ => {}
  | .comment s => d.after (smuggled s)

def HearsAll : Draft → List Emitter.Block → Prop
  | _, [] => True
  | d, b :: bs => Hears d b ∧ HearsAll (d.next b) bs

instance decidableHearsAll : (d : Draft) → (bs : List Emitter.Block) → Decidable (HearsAll d bs)
  | _, [] => .isTrue trivial
  | d, b :: bs =>
    have := decidableHearsAll (d.next b) bs
    inferInstanceAs (Decidable (Hears d b ∧ HearsAll (d.next b) bs))

/-- Nothing that is smuggled in by a comment is heard of, even if there are lone carriage returns in
it. -/
def IsQuiet (s : String) : Prop :=
  eventsFrom {} (smuggled s) = [] ∧ Draft.after {} (smuggled s) = {}

theorem smuggled_of_hasLoneReturn_eq_false {s : String} (h : hasLoneReturn s.toList = false) :
    smuggled s = [] := by
  refine List.flatMap_eq_nil_iff.2 fun p hp => ?_
  obtain ⟨hn, hr⟩ := (lines_of_hasLoneReturn_eq_false h).2 p hp
  rw [cutOff, linesFrom_append hn hr, linesFrom, List.tail_cons]
  rfl

theorem isQuiet_of_hasLoneReturn_eq_false {s : String} (h : hasLoneReturn s.toList = false) :
    IsQuiet s := by
  rw [IsQuiet, smuggled_of_hasLoneReturn_eq_false h]
  exact ⟨rfl, rfl⟩

variable {b : Emitter.Block} {bs : List Emitter.Block}

theorem eventsFrom_block (d : Draft) (b : Emitter.Block) (rest : List Char) :
    eventsFrom d (linesFrom [] (b.chars ++ rest)) =
      eventsFrom d (linesFrom [] b.chars) ++ eventsFrom (d.next b) (linesFrom [] rest) := by
  cases b with
  | event e => exact eventsFrom_closed d (suffix_chars e) rest
  | comment s =>
      change eventsFrom d (linesFrom [] (Event.commentChars s ++ rest)) =
        eventsFrom d (linesFrom [] (Event.commentChars s)) ++ _
      rw [eventsFrom_commentChars, Event.commentChars, eventsFrom_comment, eventsFrom_append]
      rfl
  | retry n => exact eventsFrom_closed d (suffix_retryChars n) rest

theorem eventsFrom_block_eq_iff {d : Draft}
    (hid : ∀ e i, b = .event e → e.id = some i → '\x00' ∉ i.toList) :
    eventsFrom d (linesFrom [] b.chars) = b.seen?.toList ↔ Hears d b := by
  cases b with
  | event e =>
      change eventsFrom d (linesFrom [] e.chars) = [e.seen] ↔ _
      rw [Hears]
      split
      · next hlone =>
        refine ⟨fun hseen => ⟨fun hnil => ?_, hseen⟩, And.right⟩
        -- with nothing in the draft, the data that is lost is missing from what is seen
        have hlost := dataSizeFrom_event e []
        have hle := eventsSize_eventsFrom_le d (linesFrom [] e.chars)
        rw [List.append_nil, if_pos hlone, ← hseen] at hlost
        rw [hnil, List.length_nil, ← dataSizeFrom] at hle
        have hzero : dataSizeFrom [] [] = 0 := rfl
        omega
      · next hlone =>
        have hevent := eventsFrom_event d (fun i => hid e i rfl) (Bool.eq_false_iff.2 hlone) []
        rw [List.append_nil] at hevent
        rw [hevent, linesFrom, eventsFrom, List.cons.injEq, Draft.seen_eq_iff]
        exact and_iff_left rfl
  | comment s => exact Eq.congr_left (eventsFrom_commentChars d s)
  | retry n =>
      unfold Emitter.Block.chars Event.retryChars
      rw [eventsFrom_retry, eventsFrom_blank, linesFrom, eventsFrom, List.append_nil]
      change Option.toList _ = [] ↔ d.data = []
      rw [Option.toList_eq_nil_iff, Draft.event?, ite_eq_left_iff]
      simp

theorem length_seen?_le (d : Draft)
    (hid : ∀ e i, b = .event e → e.id = some i → '\x00' ∉ i.toList) :
    b.seen?.toList.length ≤ (eventsFrom d (linesFrom [] b.chars)).length := by
  cases b with
  | event e => exact List.length_pos_iff.2 (eventsFrom_event_ne_nil d fun i => hid e i rfl)
  | comment s => exact Nat.zero_le _
  | retry n => exact Nat.zero_le _

theorem filterMap_seen?_cons (b : Emitter.Block) (bs : List Emitter.Block) :
    (b :: bs).filterMap Emitter.Block.seen? =
      b.seen?.toList ++ bs.filterMap Emitter.Block.seen? := by
  rw [List.filterMap_cons]
  cases b.seen? <;> rfl

theorem length_filterMap_seen?_le (d : Draft)
    (hid : ∀ e i, .event e ∈ bs → e.id = some i → '\x00' ∉ i.toList) :
    (bs.filterMap Emitter.Block.seen?).length ≤
      (eventsFrom d (linesFrom [] (bs.flatMap Emitter.Block.chars))).length := by
  induction bs generalizing d with
  | nil => exact Nat.zero_le _
  | cons b bs ih =>
      have hfirst := length_seen?_le (b := b) d fun e i hb => hid e i (hb ▸ List.mem_cons_self)
      have hrest := ih (d.next b) fun e i he => hid e i (List.mem_cons_of_mem b he)
      rw [List.flatMap_cons, eventsFrom_block, filterMap_seen?_cons, List.length_append,
        List.length_append]
      omega

/-- The events of a stream are those that were emitted if and only if each block is seen as it
should be: as something is seen of every event, nothing that is seen of one block can stand for
another. -/
theorem eventsFrom_blocks_eq_iff (d : Draft)
    (hid : ∀ e i, .event e ∈ bs → e.id = some i → '\x00' ∉ i.toList) :
    eventsFrom d (linesFrom [] (bs.flatMap Emitter.Block.chars)) =
      bs.filterMap Emitter.Block.seen? ↔ HearsAll d bs := by
  induction bs generalizing d with
  | nil => exact iff_of_true rfl trivial
  | cons b bs ih =>
      have hidb : ∀ e i, b = .event e → e.id = some i → '\x00' ∉ i.toList :=
        fun e i hb => hid e i (hb ▸ List.mem_cons_self)
      have hidbs : ∀ e i, .event e ∈ bs → e.id = some i → '\x00' ∉ i.toList :=
        fun e i he => hid e i (List.mem_cons_of_mem b he)
      rw [List.flatMap_cons, eventsFrom_block, filterMap_seen?_cons, HearsAll,
        ← eventsFrom_block_eq_iff hidb, ← ih (d.next b) hidbs]
      refine ⟨fun h => List.append_inj h ?_, fun h => h.1 ▸ h.2 ▸ rfl⟩
      have hfirst := length_seen?_le d hidb
      have hrest := length_filterMap_seen?_le (d.next b) hidbs
      have hlength := congrArg List.length h
      rw [List.length_append, List.length_append] at hlength
      omega

/-- If nothing is smuggled in by comments, it is for the data of the events to have no lone carriage
return. -/
theorem hearsAll_iff (hquiet : ∀ s, .comment s ∈ bs → IsQuiet s) :
    HearsAll {} bs ↔ ∀ e, .event e ∈ bs → hasLoneReturn e.data.toList = false := by
  induction bs with
  | nil => simp [HearsAll]
  | cons b bs ih =>
      have hrest := ih fun s hs => hquiet s (List.mem_cons_of_mem b hs)
      have hnext : Draft.next {} b = {} := by
        cases b with
        | event e => rfl
        | comment s => exact (hquiet s List.mem_cons_self).2
        | retry n => rfl
      have hfirst : Hears {} b ↔ ∀ e, b = .event e → hasLoneReturn e.data.toList = false := by
        cases b with
        | event e => simp [Hears, Draft.Fits]
        | comment s => simp [Hears, (hquiet s List.mem_cons_self).1]
        | retry n => simp [Hears]
      rw [HearsAll, hnext, hrest, hfirst]
      simp only [List.mem_cons, or_imp, forall_and, eq_comm]

/-- A lone carriage return in a comment can take the place of the text of an event. -/
example : ¬HearsAll {} [.comment "c\rdata: forged", .retry 5] := by decide

/-- It can also make up for what another one takes from the data of an event. -/
example : HearsAll {} [.comment "c\rdata: b", .event { data := "b\rb" }] := by decide +kernel

theorem receive_encode (cs : List Char) :
    receive (Text.encode (String.ofList cs)) = some (eventsFrom {} (linesFrom [] cs)) := by
  rw [receive, Text.decode?_encode, Option.map_some, String.toList_ofList]

end Listener

namespace Emitter

def emitAll (e : Emitter) : List Block → List (Except StreamEnded Unit) × Emitter
  | [] => ([], e)
  | b :: bs =>
    match e.emit b with
    | (result, e) =>
      match emitAll e bs with
      | (results, e) => (result :: results, e)

structure Open (e : Emitter) : Prop where
  state : e.state = .sending
  limit : e.out.limit = none
  flushFailure : e.out.flushFailure = none

variable {e : Emitter}

theorem Open.emit (h : e.Open) (b : Block) :
    ∃ e', e.emit b = (.ok (), e') ∧ e'.Open ∧ e'.out.written = e.out.written ++ b.bytes := by
  have htaken : e.out.taken b.bytes = b.bytes :=
    Writer.Reliable.taken_eq ⟨h.limit, h.flushFailure⟩ _
  obtain ⟨-, -, hemit⟩ | ⟨hmissing | hfailure, -⟩ := emit_cases h.state b
  · exact ⟨_, hemit, ⟨h.state, h.limit, h.flushFailure⟩, rfl⟩
  · exact absurd htaken hmissing
  · exact absurd h.flushFailure hfailure

theorem Open.emitAll (h : e.Open) (bs : List Block) :
    (e.emitAll bs).1 = bs.map (fun _ => .ok ()) ∧
      (e.emitAll bs).2.out.written =
        e.out.written ++ Text.encode (String.ofList (bs.flatMap Block.chars)) := by
  induction bs generalizing e with
  | nil => exact ⟨rfl, by simp [Emitter.emitAll, Text.encode_nil]⟩
  | cons b bs ih =>
      obtain ⟨e', hemit, hopen, hwritten⟩ := h.emit b
      obtain ⟨hresults, hrest⟩ := ih hopen
      unfold Emitter.emitAll
      rw [hemit]
      refine ⟨congrArg (.ok () :: ·) hresults, ?_⟩
      rw [List.flatMap_cons, Text.encode_ofList_append, ← List.append_assoc]
      exact hrest.trans (congrArg (· ++ _) hwritten)

/-- A listener sees exactly the events that were emitted, each with its fields and its data line by
line, and nothing of the comments and hints between them, if and only if `Listener.HearsAll` of the
blocks. If nothing is smuggled in by the comments, as when there is no lone carriage return in them,
this is to say that there is none in the data of any event either. -/
theorem receive_emitAll_iff (h : e.Open) {bs : List Block}
    (hid : ∀ ev i, .event ev ∈ bs → ev.id = some i → '\x00' ∉ i.toList) :
    ∃ sent, (e.emitAll bs).1 = bs.map (fun _ => .ok ()) ∧
      (e.emitAll bs).2.out.written = e.out.written ++ sent ∧
      (Listener.receive sent = some (bs.filterMap Block.seen?) ↔ Listener.HearsAll {} bs) ∧
      ((∀ s, .comment s ∈ bs → Listener.IsQuiet s) →
        (Listener.receive sent = some (bs.filterMap Block.seen?) ↔
          ∀ ev, .event ev ∈ bs → Listener.hasLoneReturn ev.data.toList = false)) := by
  obtain ⟨hresults, hwritten⟩ := h.emitAll bs
  have hiff : Listener.receive (Text.encode (String.ofList (bs.flatMap Block.chars))) =
      some (bs.filterMap Block.seen?) ↔ Listener.HearsAll {} bs := by
    rw [Listener.receive_encode, Option.some.injEq, Listener.eventsFrom_blocks_eq_iff {} hid]
  exact ⟨_, hresults, hwritten, hiff, fun hquiet => hiff.trans (Listener.hearsAll_iff hquiet)⟩

def opened : Emitter := { out := {} }

/-- Two events with comments and a hint between them. There is a lone carriage return in the second
comment, where it does no harm, and in the data of the second event, where it does. -/
def forging : List Block :=
  [.event { id := some "7", name := some "tick", data := "a\r\nb" }, .comment "c: d",
    .comment "c\rd: e", .retry 5, .event { data := "hello\r\rdata: forged" }]

/-- The listener sees a third event, which the data of the second one has put there. -/
theorem receive_emitAll_iff_forging :
    opened.Open ∧ (∀ ev i, .event ev ∈ forging → ev.id = some i → '\x00' ∉ i.toList) ∧
      (∃ sent, (opened.emitAll forging).1 = forging.map (fun _ => .ok ()) ∧
        (opened.emitAll forging).2.out.written = opened.out.written ++ sent ∧
        Listener.receive sent ≠ some (forging.filterMap Block.seen?)) ∧
      Listener.receive (opened.emitAll forging).2.out.written =
        some [{ id := some "7", name := some "tick", data := "a\nb" }, { data := "hello" },
          { data := "forged" }] := by
  have hopen : opened.Open := ⟨rfl, rfl, rfl⟩
  have hid : ∀ ev i, .event ev ∈ forging → ev.id = some i → '\x00' ∉ i.toList := by
    intro ev i hmem hi
    simp only [forging, List.mem_cons, Block.event.injEq, reduceCtorEq, List.not_mem_nil, false_or,
      or_false] at hmem
    obtain rfl | rfl := hmem
    · cases hi
      decide
    · cases hi
  obtain ⟨sent, hresults, hwritten, hiff, hquiet⟩ := receive_emitAll_iff hopen hid
  refine ⟨hopen, hid, ⟨sent, hresults, hwritten, fun hseen => ?_⟩, by decide +kernel⟩
  have hcomment : ∀ s, .comment s ∈ forging → Listener.IsQuiet s := by
    intro s hmem
    simp only [forging, List.mem_cons, Block.comment.injEq, reduceCtorEq, List.not_mem_nil,
      false_or, or_false] at hmem
    obtain rfl | rfl := hmem
    · exact Listener.isQuiet_of_hasLoneReturn_eq_false (by decide)
    · exact ⟨by decide, by decide⟩
  have hlone := (hquiet hcomment).1 hseen { data := "hello\r\rdata: forged" } (by decide)
  exact absurd hlone (by decide)

end Emitter

end HttpDispatch
