import HttpDispatch.Proofs.Text.Basic
import HttpDispatch.Proofs.Text.Numeral
import Mathlib.Algebra.Order.Ring.Rat
import Mathlib.Data.List.ReduceOption

/-!
# The exposition format

Collectors read the text of metrics line by line. A line shows a sample, with its name, its labels
and its value, or it introduces the samples of one name by a help text or by their type; any other
comment is left out. All lines for a name stand together, the type comes before the samples, and no
two samples have the same name and labels. In the text of a label a backslash stands before a
backslash, before a quote, and before the letter that stands for a line feed.

Values are read that are decimals without a sign and without an exponent, samples without a time,
and help texts without escapes. What has been written with these means is read back piece by piece
(`Exposition.entries?_append`).
-/

namespace HttpDispatch.Exposition

structure Sample where
  name : String
  labels : List (String × String)
  value : ℚ
deriving DecidableEq

inductive Entry where
  | help (name text : String)
  | type (name kind : String)
  | sample (s : Sample)
deriving DecidableEq

/-!
## The parts of a line
-/

def isGap (c : Char) : Bool := c = ' ' || c = '\t'

def skipGap (cs : List Char) : List Char := cs.dropWhile isGap

/-- What comes before the first gap, and what comes after it. -/
def word (cs : List Char) : List Char × List Char :=
  (cs.takeWhile (!isGap ·), skipGap (cs.dropWhile (!isGap ·)))

def startsLabel (c : Char) : Bool := c.isAlpha || c = '_'

def startsMetric (c : Char) : Bool := startsLabel c || c = ':'

def isName (starts : Char → Bool) : List Char → Bool
  | [] => false
  | c :: cs => starts c && cs.all fun c => starts c || c.isDigit

/-- The longest name that `cs` begins with, and what follows it. -/
def name? (starts : Char → Bool) (cs : List Char) : Option (String × List Char) :=
  let name := cs.takeWhile fun c => starts c || c.isDigit
  if isName starts name then some (String.ofList name, cs.dropWhile fun c => starts c || c.isDigit)
  else none

/-- What a character stands for that follows a backslash. -/
def unescape? : Char → Option Char
  | '\\' => some '\\'
  | '"' => some '"'
  | 'n' => some '\n'
  | _ => none

/-- The text that the next quote ends, and what follows that. -/
def quoted? : List Char → Option (List Char × List Char)
  | [] => none
  | '"' :: cs => some ([], cs)
  | '\\' :: c :: cs =>
      (unescape? c).bind fun c => (quoted? cs).map fun (text, rest) => (c :: text, rest)
  | c :: cs => (quoted? cs).map fun (text, rest) => (c :: text, rest)

def label? (cs : List Char) : Option ((String × String) × List Char) :=
  (name? startsLabel cs).bind fun (name, cs) =>
    match skipGap cs with
    | '=' :: cs =>
      match skipGap cs with
      | '"' :: cs => (quoted? cs).map fun (text, rest) => ((name, String.ofList text), rest)
      | _ => none
    | _ => none

/-- The labels before the closing brace, if there are less than `bound`, and what follows it. -/
def labels? : (bound : Nat) → List Char → Option (List (String × String) × List Char)
  | 0, _ => none
  | bound + 1, cs =>
    match skipGap cs with
    | '\x7d' :: rest => some ([], rest)
    | cs =>
      (label? cs).bind fun (label, cs) =>
        match skipGap cs with
        | '\x7d' :: rest => some ([label], rest)
        | ',' :: cs => (labels? bound cs).map fun (labels, rest) => (label :: labels, rest)
        | _ => none

def decimal? (cs : List Char) : Option ℚ :=
  match Text.cutChars '.' cs with
  | none => (Numeral.read? 10 cs).map fun n : ℕ => (n : ℚ)
  | some (whole, part) =>
    if whole.isEmpty || part.isEmpty then none
    else (Numeral.read? 10 (whole ++ part)).map fun n : ℕ => (n : ℚ) / 10 ^ part.length

def labelled? (cs : List Char) : Option (List (String × String) × List Char) :=
  match skipGap cs with
  | '\x7b' :: cs => labels? cs.length cs
  | cs => some ([], cs)

def sample? (cs : List Char) : Option Sample :=
  (name? startsMetric cs).bind fun (name, cs) =>
    (labelled? cs).bind fun (labels, cs) =>
      let (value, rest) := word (skipGap cs)
      if rest.isEmpty && (labels.map Prod.fst).Nodup then
        (decimal? value).map fun value => { name, labels, value }
      else none

def kinds : List String := ["counter", "gauge", "histogram", "summary", "untyped"]

def comment? (cs : List Char) : Option (Option Entry) :=
  let (keyword, cs) := word (skipGap cs)
  let (name, text) := word cs
  if keyword = "HELP".toList then
    if isName startsMetric name && !text.contains '\\' then
      some (some (.help (String.ofList name) (String.ofList text)))
    else none
  else if keyword = "TYPE".toList then
    let (kind, rest) := word text
    if isName startsMetric name && kinds.contains (String.ofList kind) && rest.isEmpty then
      some (some (.type (String.ofList name) (String.ofList kind)))
    else none
  else some none

def line? (cs : List Char) : Option (Option Entry) :=
  match skipGap cs with
  | [] => some none
  | '#' :: cs => comment? cs
  | cs => (sample? cs).map fun s => some (.sample s)

/-!
## The text as a whole
-/

/-- The lines of a text. Each has to be ended. -/
def lines? : List Char → Option (List (List Char))
  | [] => some []
  | '\n' :: cs => (lines? cs).map fun ls => [] :: ls
  | c :: cs =>
    match lines? cs with
    | some (l :: ls) => some ((c :: l) :: ls)
    | _ => none

def entries? (cs : List Char) : Option (List Entry) :=
  (lines? cs).bind fun ls => (ls.mapM line?).map List.reduceOption

def Entry.name : Entry → String
  | help name _ => name
  | type name _ => name
  | sample s => s.name

def Entry.sample? : Entry → Option Sample
  | sample s => some s
  | _ => none

/-- One line may come before the other. -/
def Entry.Precedes : Entry → Entry → Prop
  | help n _, help n' _ => n ≠ n'
  | type n _, type n' _ => n ≠ n'
  | sample s, type n _ => s.name ≠ n
  | sample s, sample s' => s.name = s'.name → ¬ s.labels.Perm s'.labels
  | _, _ => True

instance : DecidableRel Entry.Precedes
  | .help n _, .help n' _ => inferInstanceAs (Decidable (n ≠ n'))
  | .type n _, .type n' _ => inferInstanceAs (Decidable (n ≠ n'))
  | .sample s, .type n _ => inferInstanceAs (Decidable (s.name ≠ n))
  | .sample s, .sample s' =>
      inferInstanceAs (Decidable (s.name = s'.name → ¬ s.labels.Perm s'.labels))
  | .help _ _, .type _ _ => inferInstanceAs (Decidable True)
  | .help _ _, .sample _ => inferInstanceAs (Decidable True)
  | .type _ _, .help _ _ => inferInstanceAs (Decidable True)
  | .type _ _, .sample _ => inferInstanceAs (Decidable True)
  | .sample _, .help _ _ => inferInstanceAs (Decidable True)

/-- Equal names stand together. -/
def Grouped : List String → Prop
  | [] => True
  | n :: ns => n ∉ ns.dropWhile (· = n) ∧ Grouped ns

instance decidableGrouped : DecidablePred Grouped
  | [] => inferInstanceAs (Decidable True)
  | n :: ns =>
    have := decidableGrouped ns
    inferInstanceAs (Decidable (n ∉ ns.dropWhile (· = n) ∧ Grouped ns))

def read? (s : String) : Option (List Sample) :=
  (entries? s.toList).bind fun es =>
    if Grouped (es.map Entry.name) ∧ es.Pairwise Entry.Precedes then
      some (es.filterMap Entry.sample?) else none

/-!
## What has been written is read back
-/

section

variable {cs rest : List Char} {c : Char}

theorem skipGap_cons (hc : isGap c = false) (cs : List Char) : skipGap (c :: cs) = c :: cs :=
  List.dropWhile_cons_of_neg (Bool.eq_false_iff.1 hc)

theorem skipGap_blank (cs : List Char) : skipGap (' ' :: cs) = skipGap cs :=
  List.dropWhile_cons_of_pos rfl

theorem word_append_blank (h : ∀ c ∈ cs, isGap c = false) (rest : List Char) :
    word (cs ++ ' ' :: rest) = (cs, skipGap rest) := by
  obtain ⟨htake, hdrop⟩ := Text.takeWhile_append (p := (!isGap ·)) cs (' ' :: rest)
    (fun c hc => by rw [h c hc]; rfl) (by rintro c ⟨⟩; rfl)
  rw [word, htake, hdrop, skipGap_blank]

theorem word_of_forall (h : ∀ c ∈ cs, isGap c = false) : word cs = (cs, []) := by
  obtain ⟨htake, hdrop⟩ := Text.takeWhile_append (p := (!isGap ·)) cs []
    (fun c hc => by rw [h c hc]; rfl) nofun
  rw [List.append_nil] at htake hdrop
  rw [word, htake, hdrop]
  rfl

theorem name?_append {starts : Char → Bool} (h : isName starts cs = true)
    (hrest : ∀ c ∈ rest.head?, (starts c || c.isDigit) = false) :
    name? starts (cs ++ rest) = some (String.ofList cs, rest) := by
  have hparts : ∀ c ∈ cs, (starts c || c.isDigit) = true := by
    cases cs with
    | nil => cases h
    | cons c cs =>
        rw [isName, Bool.and_eq_true, List.all_eq_true] at h
        refine List.forall_mem_cons.2 ⟨?_, h.2⟩
        rw [h.1, Bool.true_or]
  obtain ⟨htake, hdrop⟩ := Text.takeWhile_append _ _ hparts hrest
  rw [name?, htake, hdrop]
  exact if_pos h

end

/-!
### Labels
-/

/-- How a character is written in the text of a label. -/
def escapeChar (c : Char) : List Char :=
  if c = '\\' then ['\\', '\\'] else
    if c = '"' then ['\\', '"'] else if c = '\n' then ['\\', 'n'] else [c]

/-- The text is written as it is. -/
def IsPlain (text : String) : Prop := ∀ c ∈ text.toList, escapeChar c = [c]

instance : DecidablePred IsPlain :=
  fun text => List.decidableBAll (fun c => escapeChar c = [c]) text.toList

theorem quoted?_escapeChar (c : Char) (cs : List Char) :
    quoted? (escapeChar c ++ cs) = (quoted? cs).map fun (text, rest) => (c :: text, rest) := by
  unfold escapeChar
  split
  · next h =>
    subst h
    rfl
  · next hbackslash =>
    split
    · next h =>
      subst h
      rfl
    · next hquote =>
      split
      · next h =>
        subst h
        rfl
      · rw [List.singleton_append, quoted?]
        · exact hquote
        · exact fun c' _ h => absurd h hbackslash

theorem quoted?_escape (text rest : List Char) :
    quoted? (text.flatMap escapeChar ++ '"' :: rest) = some (text, rest) := by
  induction text with
  | nil => rfl
  | cons c text ih =>
      rw [List.flatMap_cons, List.append_assoc, quoted?_escapeChar, ih]
      rfl

theorem IsPlain.flatMap_escapeChar {text : String} (h : IsPlain text) :
    text.toList.flatMap escapeChar = text.toList := by
  rw [List.flatMap_congr h, List.flatMap_singleton']

/-- Blanks, ends of lines, and the characters that are read first where a name may begin. -/
def marks : List Char := [' ', '\t', '\n', '#', '\x7d']

theorem isGap_of_not_mem_marks {c : Char} (h : c ∉ marks) : isGap c = false := by
  rw [isGap, Bool.or_eq_false_iff, decide_eq_false_iff_not, decide_eq_false_iff_not]
  constructor
  · rintro rfl
    exact h (by decide)
  · rintro rfl
    exact h (by decide)

theorem not_mem_marks_of_part {c : Char} (h : (startsMetric c || c.isDigit) = true) :
    c ∉ marks := by
  have hmarks : (marks.all fun d => !(startsMetric d || d.isDigit)) = true := by decide
  intro hc
  have hnone := List.all_eq_true.1 hmarks c hc
  rw [h] at hnone
  cases hnone

theorem startsMetric_of_startsLabel {c : Char} (h : startsLabel c = true) :
    startsMetric c = true := by
  rw [startsMetric, h, Bool.true_or]

theorem exists_cons_of_isName {starts : Char → Bool}
    (hstarts : ∀ c, starts c = true → startsMetric c = true) {cs : List Char}
    (h : isName starts cs = true) : (∃ c cs', cs = c :: cs') ∧ ∀ c ∈ cs, c ∉ marks := by
  cases cs with
  | nil => cases h
  | cons c cs =>
      rw [isName, Bool.and_eq_true, List.all_eq_true] at h
      refine ⟨⟨c, cs, rfl⟩, List.forall_mem_cons.2 ⟨?_, fun d hd => ?_⟩⟩
      · exact not_mem_marks_of_part (by rw [hstarts c h.1, Bool.true_or])
      · refine not_mem_marks_of_part (Bool.or_eq_true_iff.2 ?_)
        exact (Bool.or_eq_true_iff.1 (h.2 d hd)).imp_left (hstarts d)

theorem skipGap_name {starts : Char → Bool} (hstarts : ∀ c, starts c = true → startsMetric c = true)
    {cs : List Char} (h : isName starts cs = true) (tail : List Char) :
    skipGap (cs ++ tail) = cs ++ tail := by
  obtain ⟨⟨c, cs', rfl⟩, hmarks⟩ := exists_cons_of_isName hstarts h
  exact skipGap_cons (isGap_of_not_mem_marks (hmarks c List.mem_cons_self)) _

theorem labels?_append {label text : String} (hlabel : isName startsLabel label.toList = true)
    (htext : IsPlain text) (bound : Nat) (rest : List Char) :
    labels? (bound + 1) (label.toList ++ '=' :: '"' :: (text.toList ++ '"' :: '\x7d' :: rest)) =
      some ([(label, text)], rest) := by
  obtain ⟨⟨c, cs, hcs⟩, hmarks⟩ :=
    exists_cons_of_isName (fun _ => startsMetric_of_startsLabel) hlabel
  have hc : c ∉ marks := hmarks c (hcs ▸ List.mem_cons_self)
  have hquoted := quoted?_escape text.toList ('\x7d' :: rest)
  rw [htext.flatMap_escapeChar] at hquoted
  generalize htail : '=' :: '"' :: (text.toList ++ '"' :: '\x7d' :: rest) = tail
  have hname : name? startsLabel (label.toList ++ tail) = some (label, tail) := by
    rw [name?_append hlabel (by rw [← htail]; rintro c ⟨⟩; decide), String.ofList_toList]
  have hread : label? (label.toList ++ tail) = some ((label, text), '\x7d' :: rest) := by
    rw [label?, hname, Option.bind_some, ← htail]
    dsimp only
    rw [skipGap_cons (by decide)]
    simp only
    rw [skipGap_cons (by decide)]
    simp only [hquoted, Option.map_some, String.ofList_toList]
  rw [labels?, skipGap_name (fun _ => startsMetric_of_startsLabel) hlabel]
  split
  · next heq =>
    rw [hcs] at heq
    exact absurd ((List.cons.inj heq).1 ▸ (by decide : '\x7d' ∈ marks)) hc
  · rw [hread, Option.bind_some]
    dsimp only
    rw [skipGap_cons (by decide)]
    rfl

/-!
### Values
-/

theorem isDigit_of_decimal? {cs : List Char} {v : ℚ} (h : decimal? cs = some v) :
    ∀ c ∈ cs, c.isDigit = true ∨ c = '.' := by
  unfold decimal? at h
  split at h
  · obtain ⟨n, hn, -⟩ := Option.map_eq_some_iff.1 h
    exact fun c hc => .inl ((Numeral.read?_eq_some_iff.1 hn).isDigit c hc)
  · next whole part hcut =>
    split at h
    · cases h
    · obtain ⟨n, hn, -⟩ := Option.map_eq_some_iff.1 h
      have hdigits := (Numeral.read?_eq_some_iff.1 hn).isDigit
      rw [Text.eq_append_of_cutChars hcut]
      intro c hc
      obtain hc | hc := List.mem_append.1 hc
      · exact .inl (hdigits c (List.mem_append_left _ hc))
      · obtain rfl | hc := List.mem_cons.1 hc
        · exact .inr rfl
        · exact .inl (hdigits c (List.mem_append_right _ hc))

theorem decimal?_ne_nil {cs : List Char} {v : ℚ} (h : decimal? cs = some v) : cs ≠ [] := by
  rintro rfl
  cases h

theorem not_mem_marks_of_decimal? {cs : List Char} {v : ℚ} (h : decimal? cs = some v) :
    ∀ c ∈ cs, c ∉ marks := by
  intro c hc
  obtain hdigit | rfl := isDigit_of_decimal? h c hc
  · exact not_mem_marks_of_part (by rw [hdigit, Bool.or_true])
  · decide

theorem decimal?_toDigits (n : Nat) : decimal? (Nat.toDigits 10 n) = some (n : ℚ) := by
  have hdigit := (Numeral.isDecimal_toDigits n).isDigit
  rw [decimal?, Text.cutChars_eq_none fun h => absurd (hdigit _ h) (by decide)]
  dsimp only
  rw [Numeral.read?_toDigits]
  rfl

theorem decimal?_append {whole part : List Char} (hwhole : whole ≠ []) (hpart : part ≠ [])
    (h : ∀ c ∈ whole ++ part, c.isDigit = true) :
    decimal? (whole ++ '.' :: part) =
      some ((Nat.ofDigitChars 10 (whole ++ part) 0 : ℚ) / 10 ^ part.length) := by
  have hpoint : '.' ∉ whole := fun hmem => absurd (h _ (List.mem_append_left _ hmem)) (by decide)
  have hempty : (whole.isEmpty || part.isEmpty) = false := by simp [hwhole, hpart]
  rw [decimal?, Text.cutChars_append hpoint]
  dsimp only
  rw [hempty, if_neg Bool.false_ne_true, Numeral.read?_of_isDigit (by simp [hwhole]) h]
  rfl

/-!
### Lines
-/

theorem sample?_append {name : String} {labels : List (String × String)}
    {tail rest value : List Char} {v : ℚ} (hname : isName startsMetric name.toList = true)
    (htail : ∀ c ∈ tail.head?, (startsMetric c || c.isDigit) = false)
    (hlabels : labelled? tail = some (labels, rest))
    (hnodup : (labels.map Prod.fst).Nodup) (hrest : skipGap rest = value)
    (hvalue : decimal? value = some v) :
    sample? (name.toList ++ tail) = some ⟨name, labels, v⟩ := by
  have hword : word value = (value, []) :=
    word_of_forall fun c hc => isGap_of_not_mem_marks (not_mem_marks_of_decimal? hvalue c hc)
  rw [sample?, name?_append hname htail, Option.bind_some]
  dsimp only
  rw [hlabels, Option.bind_some]
  dsimp only
  rw [hrest, hword]
  dsimp only
  rw [if_pos (by simp [hnodup]), hvalue, Option.map_some, String.ofList_toList]

theorem line?_of_sample? {name : String} {tail : List Char} {s : Sample}
    (hname : isName startsMetric name.toList = true) (hs : sample? (name.toList ++ tail) = some s) :
    line? (name.toList ++ tail) = some (some (.sample s)) := by
  obtain ⟨⟨c, cs, hcs⟩, hmarks⟩ := exists_cons_of_isName (fun _ h => h) hname
  have hc : c ∉ marks := hmarks c (hcs ▸ List.mem_cons_self)
  rw [line?, skipGap_name (fun _ h => h) hname]
  split
  · next heq =>
    rw [hcs] at heq
    cases heq
  · next heq =>
    rw [hcs] at heq
    exact absurd ((List.cons.inj heq).1 ▸ (by decide : '#' ∈ marks)) hc
  · rw [hs, Option.map_some]

theorem skipGap_value {value : List Char} {v : ℚ} (h : decimal? value = some v) :
    skipGap value = value := by
  obtain ⟨c, cs, rfl⟩ := List.exists_cons_of_ne_nil (decimal?_ne_nil h)
  exact skipGap_cons (isGap_of_not_mem_marks (not_mem_marks_of_decimal? h c List.mem_cons_self)) _

variable {name value : String} {v : ℚ}

theorem line?_sample (hname : isName startsMetric name.toList = true)
    (hvalue : decimal? value.toList = some v) :
    line? (name.toList ++ ' ' :: value.toList) = some (some (.sample ⟨name, [], v⟩)) := by
  have hskip : skipGap (' ' :: value.toList) = value.toList :=
    (skipGap_blank _).trans (skipGap_value hvalue)
  have hlabels : labelled? (' ' :: value.toList) = some ([], value.toList) := by
    rw [labelled?, hskip]
    split
    · next heq =>
      refine absurd (isDigit_of_decimal? hvalue '\x7b' (heq ▸ List.mem_cons_self)) (by decide)
    · rfl
  exact line?_of_sample? hname
    (sample?_append hname (by rintro c ⟨⟩; decide) hlabels .nil (skipGap_value hvalue) hvalue)

theorem line?_labelled {label text : String} (hname : isName startsMetric name.toList = true)
    (hlabel : isName startsLabel label.toList = true) (htext : IsPlain text)
    (hvalue : decimal? value.toList = some v) :
    line? (name.toList ++ '\x7b' ::
      (label.toList ++ '=' :: '"' :: (text.toList ++ '"' :: '\x7d' :: ' ' ::
      value.toList))) = some (some (.sample ⟨name, [(label, text)], v⟩)) := by
  have hlabels :
      labelled? ('\x7b' :: (label.toList ++ '=' :: '"' :: (text.toList ++ '"' :: '\x7d' :: ' ' ::
      value.toList))) = some ([(label, text)], ' ' :: value.toList) := by
    rw [labelled?, skipGap_cons (by decide)]
    simp only [List.length_append, List.length_cons, ← Nat.add_assoc]
    exact labels?_append hlabel htext _ _
  exact line?_of_sample? hname (sample?_append hname (by rintro c ⟨⟩; decide) hlabels
    (List.pairwise_singleton _ _) ((skipGap_blank _).trans (skipGap_value hvalue)) hvalue)

/-- Several labels, escapes in their texts, and blanks between the parts. -/
example : line? "a\x7bb=\"x\\\"y\" , c=\"\\n\",\x7d 1.50".toList =
    some (some (.sample ⟨"a", [("b", "x\"y"), ("c", "\n")], 3 / 2⟩)) := by decide +kernel

theorem word_comment (keyword : List Char) (hkeyword : (keyword.all (!isGap ·)) = true)
    (hstart : keyword ≠ []) (hname : isName startsMetric name.toList = true) (text : List Char) :
    word (skipGap (' ' :: (keyword ++ ' ' :: (name.toList ++ ' ' :: text)))) =
        (keyword, name.toList ++ ' ' :: text) ∧
      word (name.toList ++ ' ' :: text) = (name.toList, skipGap text) := by
  have hmarks := (exists_cons_of_isName (fun _ h => h) hname).2
  have hsolid : ∀ c ∈ keyword, isGap c = false :=
    fun c hc => by simpa using List.all_eq_true.1 hkeyword c hc
  obtain ⟨c, cs, rfl⟩ := List.exists_cons_of_ne_nil hstart
  constructor
  · rw [skipGap_blank, List.cons_append,
      skipGap_cons (hsolid c List.mem_cons_self), ← List.cons_append,
      word_append_blank hsolid, skipGap_name (fun _ h => h) hname]
  · exact word_append_blank (fun c hc => isGap_of_not_mem_marks (hmarks c hc)) text

theorem line?_help {text : String} (hname : isName startsMetric name.toList = true)
    (htext : skipGap text.toList = text.toList) (hplain : text.toList.contains '\\' = false) :
    line? ("# HELP ".toList ++ (name.toList ++ ' ' :: text.toList)) =
      some (some (.help name text)) := by
  obtain ⟨hkeyword, hword⟩ := word_comment "HELP".toList (by decide) (by decide) hname text.toList
  change comment? (' ' :: ("HELP".toList ++ ' ' :: (name.toList ++ ' ' :: text.toList))) = _
  rw [comment?, hkeyword]
  dsimp only
  rw [hword, if_pos rfl, htext, hname, hplain]
  exact congrArg₂ (fun n t => some (some (Entry.help n t)))
    String.ofList_toList String.ofList_toList

theorem line?_type {kind : String} (hname : isName startsMetric name.toList = true)
    (hkind : kind ∈ kinds) :
    line? ("# TYPE ".toList ++ (name.toList ++ ' ' :: kind.toList)) =
      some (some (.type name kind)) := by
  obtain ⟨hkeyword, hword⟩ := word_comment "TYPE".toList (by decide) (by decide) hname kind.toList
  have hsolid : ∀ kind ∈ kinds, skipGap kind.toList = kind.toList ∧
      word kind.toList = (kind.toList, []) := by decide
  change comment? (' ' :: ("TYPE".toList ++ ' ' :: (name.toList ++ ' ' :: kind.toList))) = _
  rw [comment?, hkeyword]
  dsimp only
  rw [hword, if_neg (by decide), if_pos rfl]
  dsimp only
  rw [(hsolid kind hkind).1, (hsolid kind hkind).2]
  dsimp only
  rw [hname, String.ofList_toList, String.ofList_toList, List.contains_iff_mem.2 hkind]
  rfl

/-!
### The text
-/

theorem lines?_append {cs rest : List Char} (h : '\n' ∉ cs) :
    lines? (cs ++ '\n' :: rest) = (lines? rest).map fun ls => cs :: ls := by
  induction cs with
  | nil => rfl
  | cons c cs ih =>
      rw [List.mem_cons, not_or] at h
      rw [List.cons_append, lines?, ih h.2]
      · cases lines? rest with
        | none => rfl
        | some ls => rfl
      · exact Ne.symm h.1

def Says (line : String) (e : Entry) : Prop :=
  ∃ cs, line.toList = cs ++ ['\n'] ∧ '\n' ∉ cs ∧ line? cs = some (some e)

theorem entries?_append {line : String} {e : Entry} {es : List Entry} {rest : List Char}
    (h : Says line e) (hrest : entries? rest = some es) :
    entries? (line.toList ++ rest) = some (e :: es) := by
  obtain ⟨cs, hline, hbreak, hread⟩ := h
  obtain ⟨ls, hls, hes⟩ := Option.bind_eq_some_iff.1 hrest
  obtain ⟨os, hos, rfl⟩ := Option.map_eq_some_iff.1 hes
  rw [hline, List.append_assoc, List.singleton_append, entries?, lines?_append hbreak, hls,
    Option.map_some, Option.bind_some, List.mapM_cons, hread, hos]
  rfl

theorem entries?_join {lines : List String} {es : List Entry} (h : List.Forall₂ Says lines es) :
    entries? (String.join lines).toList = some es := by
  induction h with
  | nil => rfl
  | cons h _ ih =>
      rw [String.join_cons, String.toList_append]
      exact entries?_append h ih

end HttpDispatch.Exposition
