import HttpDispatch.Proofs.Http.Token
import HttpDispatch.Proofs.Text.Basic
import HttpDispatch.Proofs.Text.Numeral
import HttpDispatch.Stream.Range

/-!
# Specs of ranges, and what they ask for

A spec names the bytes from a position on, those between two positions, or a number of them at the
end, and says so in numbers of any size (`RangeSpec`). A field lists specs behind `bytes=`, with
blanks around the parts of each, and asks for what the first of them names; a field of any other
form asks for the whole resource (`RangeRequest.Prescribed`).

The reader follows this up to two things: a number may have a plus sign before it, and one that does
not fit in 64 bits is none. It is right for just those fields whose first spec, signs allowed,
either has neither a sign nor a number that does not fit, or has both:
`RangeRequest.prescribed_read_iff`.
-/

namespace HttpDispatch

/-- What a spec of a range names: the bytes from a position on, those from one position to another,
or a number of bytes at the end. -/
inductive RangeSpec where
  | onward (first : Nat)
  | between (first last : Nat)
  | suffix (count : Nat)

namespace RangeSpec

/-- What is asked for from a resource of `total` bytes, for numbers of any size. -/
def answer (total : Nat) : RangeSpec → RangeRequest
  | onward first => if total ≤ first then .unsatisfiable else .part ⟨first, total - 1⟩
  | between first last =>
    if total ≤ first then .unsatisfiable
    else .part ⟨first, if total ≤ last then total - 1 else last⟩
  | suffix count =>
    if count = 0 ∨ total = 0 then .unsatisfiable
    else .part ⟨if total ≤ count then 0 else total - count, total - 1⟩

def Fits : RangeSpec → Prop
  | onward first => first < UInt64.size
  | between first last => first < UInt64.size ∧ last < UInt64.size
  | suffix count => count < UInt64.size

/-- The parts before and after the dash spell a spec whose numbers are written as
`IsNumber` says. -/
inductive Spells (IsNumber : List Char → Nat → Prop) : List Char → List Char → RangeSpec → Prop
  | onward {before : List Char} {first : Nat} (h : IsNumber before first) :
      Spells IsNumber before [] (.onward first)
  | between {before after : List Char} {first last : Nat}
      (h : IsNumber before first) (h' : IsNumber after last)
    (hle : first ≤ last) : Spells IsNumber before after (.between first last)
  | suffix {after : List Char} {count : Nat} (h : IsNumber after count) :
      Spells IsNumber [] after (.suffix count)

variable {IsNumber : List Char → Nat → Prop} {before after : List Char} {spec : RangeSpec}
    {total : Nat}

theorem answer_ne_full (spec : RangeSpec) (total : Nat) : spec.answer total ≠ .full := by
  intro h
  cases spec
  all_goals
    simp only [answer] at h
    split at h <;> cases h

theorem Spells.mono {IsNumber' : List Char → Nat → Prop}
    (h : ∀ cs n, IsNumber cs n → IsNumber' cs n) (hs : Spells IsNumber before after spec) :
    Spells IsNumber' before after spec := by
  cases hs with
  | onward hb => exact .onward (h _ _ hb)
  | between hb ha hle => exact .between (h _ _ hb) (h _ _ ha) hle
  | suffix ha => exact .suffix (h _ _ ha)

theorem Spells.unique {spec' : RangeSpec} (h : Spells Numeral.IsSigned before after spec)
    (h' : Spells Numeral.IsSigned before after spec') : spec = spec' := by
  cases h with
  | onward hb =>
      cases h' with
      | onward hb' => rw [hb.unique hb']
      | between _ ha _ => exact absurd rfl ha.ne_nil
      | suffix ha => exact absurd rfl ha.ne_nil
  | between hb ha _ =>
      cases h' with
      | onward _ => exact absurd rfl ha.ne_nil
      | between hb' ha' _ => rw [hb.unique hb', ha.unique ha']
      | suffix _ => exact absurd rfl hb.ne_nil
  | suffix ha =>
      cases h' with
      | onward hb' => exact absurd rfl hb'.ne_nil
      | between hb' _ _ => exact absurd rfl hb'.ne_nil
      | suffix ha' => rw [ha.unique ha']

/-- Behind `bytes=`, `text` lists `spec` first. Blanks may stand around the text and around the
parts of the spec. -/
def IsFirstOf (IsNumber : List Char → Nat → Prop) (text : String) (spec : RangeSpec) : Prop :=
  ∃ start finish before after rest, Text.Padded start before ∧ Text.Padded finish after ∧
    (Text.trim text).toList = "bytes=".toList ++ (start ++ '-' :: finish ++ rest) ∧
    (rest = [] ∨ ∃ more, rest = ',' :: more) ∧ Spells IsNumber before after spec

theorem IsFirstOf.mono {IsNumber' : List Char → Nat → Prop}
    (h : ∀ cs n, IsNumber cs n → IsNumber' cs n) {text : String}
    (hfirst : IsFirstOf IsNumber text spec) : IsFirstOf IsNumber' text spec := by
  obtain ⟨start, finish, before, after, rest, hstart, hfinish, htext, hrest, hspells⟩ := hfirst
  exact ⟨start, finish, before, after, rest, hstart, hfinish, htext, hrest, hspells.mono h⟩

theorem Spells.forall_mem {P : Char → Prop} (hP : ∀ cs n, IsNumber cs n → ∀ c ∈ cs, P c)
    (h : Spells IsNumber before after spec) : (∀ c ∈ before, P c) ∧ ∀ c ∈ after, P c := by
  cases h with
  | onward hb => exact ⟨hP _ _ hb, by simp⟩
  | between hb ha _ => exact ⟨hP _ _ hb, hP _ _ ha⟩
  | suffix ha => exact ⟨by simp, hP _ _ ha⟩

end RangeSpec

namespace RangeRequest

def parts? (text : String) : Option (String × String) :=
  (Text.dropStart? "bytes=" (Text.trim text)).bind fun specs =>
    (Text.cut '-' (Text.trim (Text.before ',' specs))).map fun (a, b) => (Text.trim a, Text.trim b)

theorem read_some (text : String) (total : Nat) :
    read (some text) total = match parts? text with
      | none => full
      | some (before, after) => ofSpec before after total := by
  unfold read parts?
  rw [Option.bind_some]
  cases Text.dropStart? "bytes=" (Text.trim text) with
  | none => rfl
  | some specs =>
      rw [Option.bind_some]
      dsimp only
      cases Text.cut '-' (Text.trim (Text.before ',' specs)) <;> rfl

theorem isBlank_of_isDigit_or {cs : List Char} (h : ∀ c ∈ cs, c.isDigit = true ∨ c = '+') :
    ∀ c ∈ cs, Text.isBlank c = false := by
  intro c hc
  obtain hdigit | rfl := h c hc
  · exact isBlank_of_isTokenChar (by simp [isTokenChar, Char.isAlphanum, hdigit])
  · decide

theorem not_mem_of_isDigit_or {cs : List Char} (h : ∀ c ∈ cs, c.isDigit = true ∨ c = '+') {c : Char}
    (hdigit : c.isDigit = false) (hplus : c ≠ '+') : c ∉ cs := by
  intro hc
  obtain hc | hc := h c hc
  · rw [hdigit] at hc
    cases hc
  · exact hplus hc

theorem parts?_of_isFirstOf {text : String} {start finish before after rest : List Char}
    (hstart : Text.Padded start before) (hfinish : Text.Padded finish after)
    (htext : (Text.trim text).toList = "bytes=".toList ++ (start ++ '-' :: finish ++ rest))
    (hrest : rest = [] ∨ ∃ more, rest = ',' :: more)
    (hbefore : ∀ c ∈ before, c.isDigit = true ∨ c = '+')
    (hafter : ∀ c ∈ after, c.isDigit = true ∨ c = '+') :
    parts? text = some (String.ofList before, String.ofList after) := by
  have hout : ∀ c : Char, Text.isBlank c = false → c.isDigit = false → c ≠ '+' →
      c ∉ start ∧ c ∉ finish :=
    fun c hblank hdigit hplus =>
      ⟨hstart.not_mem hblank (not_mem_of_isDigit_or hbefore hdigit hplus),
      hfinish.not_mem hblank (not_mem_of_isDigit_or hafter hdigit hplus)⟩
  have hcomma : ',' ∉ start ++ '-' :: finish := by
    simp [hout ',' (by decide) (by decide) (by decide)]
  have hdash : '-' ∉ start.dropWhile Text.isBlank := fun h =>
    (hout '-' (by decide) (by decide) (by decide)).1 ((List.dropWhile_suffix _).subset h)
  have hspecs : Text.dropStart? "bytes=" (Text.trim text) =
      some (String.ofList (start ++ '-' :: finish ++ rest)) := by
    rw [Text.dropStart?, List.isPrefixOf?_eq_some_iff_append_eq.2 htext.symm, Option.map_some]
  have hfirst : (String.ofList (start ++ '-' :: finish ++ rest)).toList.takeWhile (· ≠ ',') =
      start ++ '-' :: finish := by
    have hall : ∀ c ∈ start ++ '-' :: finish, decide (c ≠ ',') = true := fun c hc =>
      decide_eq_true fun h => hcomma (h ▸ hc)
    rw [String.toList_ofList, List.takeWhile_append_of_pos hall]
    obtain rfl | ⟨more, rfl⟩ := hrest <;> simp
  rw [parts?, hspecs, Option.bind_some, Text.before, hfirst, Text.trim, String.toList_ofList,
    Text.trimChars_append_cons (by decide), Text.cut, String.toList_ofList,
      Text.cutChars_append hdash]
  simp only [Option.map_some, Text.trim, String.toList_ofList, Text.trimChars_dropWhile,
    Text.trimChars_dropBlankEnd]
  rw [hstart.trimChars_eq (isBlank_of_isDigit_or hbefore),
    hfinish.trimChars_eq (isBlank_of_isDigit_or hafter)]

theorem isFirstOf_of_parts? {IsNumber : List Char → Nat → Prop} {text before after : String}
    {spec : RangeSpec} (h : parts? text = some (before, after))
    (hspells : RangeSpec.Spells IsNumber before.toList after.toList spec) :
    RangeSpec.IsFirstOf IsNumber text spec := by
  obtain ⟨specs, hspecs, hcut⟩ := Option.bind_eq_some_iff.1 h
  obtain ⟨⟨a, b⟩, hab, hparts⟩ := Option.map_eq_some_iff.1 hcut
  obtain ⟨⟨as, bs⟩, hchars, hab⟩ := Option.map_eq_some_iff.1 hab
  cases hab
  cases hparts
  obtain ⟨rest, hprefix, rfl⟩ := Option.map_eq_some_iff.1 hspecs
  have htext := List.isPrefixOf?_eq_some_iff_append_eq.1 hprefix
  simp only [Text.trim, Text.before, String.toList_ofList] at hchars hspells htext
  have hcs := Text.eq_append_of_cutChars hchars
  obtain ⟨w, w', hw, hw', hpadded⟩ := Text.padded_trimChars (rest.takeWhile (· ≠ ','))
  rw [hcs] at hpadded
  refine ⟨w ++ as, bs ++ w', _, _, rest.dropWhile (· ≠ ','),
    (Text.padded_trimChars as).append_left hw, (Text.padded_trimChars bs).append_right hw',
    ?_, ?_, hspells⟩
  · rw [Text.trim, String.toList_ofList, ← htext]
    conv => lhs; rw [← List.takeWhile_append_dropWhile (p := (· ≠ ',')) (l := rest), hpadded]
    simp
  · cases hdrop : rest.dropWhile (· ≠ ',') with
    | nil => exact .inl rfl
    | cons c more =>
        have hc := List.head?_dropWhile_not (· ≠ ',') rest
        rw [hdrop] at hc
        exact .inr ⟨more, by simpa using hc⟩

/-- Where numbers are signed at most, a first spec is what the parts spell. -/
theorem isFirstOf_iff {IsNumber : List Char → Nat → Prop}
    (hnumber : ∀ cs n, IsNumber cs n → Numeral.IsSigned cs n) {text : String} {spec : RangeSpec} :
    RangeSpec.IsFirstOf IsNumber text spec ↔ ∃ before after, parts? text = some (before, after) ∧
      RangeSpec.Spells IsNumber before.toList after.toList spec := by
  constructor
  · rintro ⟨start, finish, before, after, rest, hstart, hfinish, htext, hrest, hspells⟩
    obtain ⟨hbefore, hafter⟩ := hspells.forall_mem fun cs n h => (hnumber cs n h).isDigit_or
    refine ⟨_, _, parts?_of_isFirstOf hstart hfinish htext hrest hbefore hafter, ?_⟩
    rwa [String.toList_ofList, String.toList_ofList]
  · rintro ⟨before, after, hparts, hspells⟩
    exact isFirstOf_of_parts? hparts hspells

theorem ofSuffix_eq (count total : Nat) :
    ofSuffix count total = (RangeSpec.suffix count).answer total := by
  unfold ofSuffix RangeSpec.answer
  simp only [Bool.or_eq_true, decide_eq_true_eq]
  split
  · rfl
  · have : total - count = if total ≤ count then 0 else total - count := by split <;> omega
    rw [← this]

theorem ofBounds_of_le {first last : Nat} (h : first ≤ last) (total : Nat) :
    ofBounds first (some last) total = (RangeSpec.between first last).answer total := by
  simp only [ofBounds, RangeSpec.answer]
  rw [if_neg (by simpa using h)]
  split
  · rfl
  · have : min last (total - 1) = if total ≤ last then total - 1 else last := by split <;> omega
    rw [this]

theorem ofBounds_of_lt {first last : Nat} (h : last < first) (total : Nat) :
    ofBounds first (some last) total = full := if_pos (by simpa using h)

theorem ofSpec_of_spells {before after : List Char} {spec : RangeSpec}
    (h : RangeSpec.Spells Numeral.IsSigned before after spec) (hfits : spec.Fits) (total : Nat) :
    ofSpec (String.ofList before) (String.ofList after) total = spec.answer total := by
  have hword : ∀ {cs n}, Numeral.IsSigned cs n → n < UInt64.size →
      Numeral.word? (String.ofList cs) = some n :=
    fun hs hlt => Numeral.word?_eq_some_iff_isSigned.2 ⟨by rwa [String.toList_ofList], hlt⟩
  have hne : ∀ {cs n}, Numeral.IsSigned cs n → String.ofList cs ≠ "" := fun hs hnil =>
    hs.ne_nil (by simpa using congrArg String.toList hnil)
  unfold ofSpec
  cases h with
  | onward hb => rw [if_neg (hne hb), hword hb hfits]; rfl
  | between hb ha hle =>
      rw [if_neg (hne hb), hword hb hfits.1]
      dsimp only
      rw [if_neg (hne ha), hword ha hfits.2]
      exact ofBounds_of_le hle total
  | suffix ha =>
      rw [if_pos String.ofList_nil, hword ha hfits]
      exact ofSuffix_eq _ total

theorem exists_spells_of_ofSpec_ne_full {before after : String} {total : Nat}
    (h : ofSpec before after total ≠ full) :
    ∃ spec, RangeSpec.Spells Numeral.IsSigned before.toList after.toList spec ∧ spec.Fits := by
  unfold ofSpec at h
  split at h
  · next hbefore =>
    subst hbefore
    split at h
    · exact absurd rfl h
    · next count hcount =>
      obtain ⟨hsigned, hlt⟩ := Numeral.word?_eq_some_iff_isSigned.1 hcount
      exact ⟨_, .suffix hsigned, hlt⟩
  · split at h
    · exact absurd rfl h
    · next first hfirst =>
      obtain ⟨hsigned, hlt⟩ := Numeral.word?_eq_some_iff_isSigned.1 hfirst
      split at h
      · next hafter =>
        subst hafter
        exact ⟨_, .onward hsigned, hlt⟩
      · split at h
        · exact absurd rfl h
        · next last hlast =>
          obtain ⟨hsigned', hlt'⟩ := Numeral.word?_eq_some_iff_isSigned.1 hlast
          have hle : first ≤ last := Nat.le_of_not_lt fun hlt => h (ofBounds_of_lt hlt total)
          exact ⟨_, .between hsigned hsigned' hle, hlt, hlt'⟩

/-- What is read of a field: the answer of its first spec, where numbers may be signed, if all its
numbers fit, and else the whole resource. -/
theorem read_cases (text : String) (total : Nat) :
    (∃ spec, RangeSpec.IsFirstOf Numeral.IsSigned text spec ∧ spec.Fits ∧
      read (some text) total = spec.answer total) ∨
    ((∀ spec, RangeSpec.IsFirstOf Numeral.IsSigned text spec → ¬ spec.Fits) ∧
      read (some text) total = full) := by
  simp only [isFirstOf_iff fun _ _ h => h]
  rw [read_some]
  cases hparts : parts? text with
  | none => exact .inr ⟨by rintro spec ⟨_, _, ⟨⟩, _⟩, rfl⟩
  | some parts =>
      obtain ⟨before, after⟩ := parts
      dsimp only
      by_cases hspec : ∃ spec, RangeSpec.Spells Numeral.IsSigned before.toList after.toList spec ∧
        spec.Fits
      · obtain ⟨spec, hspells, hfits⟩ := hspec
        have hread := ofSpec_of_spells hspells hfits total
        rw [String.ofList_toList, String.ofList_toList] at hread
        exact .inl ⟨spec, ⟨before, after, rfl, hspells⟩, hfits, hread⟩
      · refine .inr ⟨?_, by_contra fun h => hspec (exists_spells_of_ofSpec_ne_full h)⟩
        rintro spec ⟨_, _, ⟨⟩, hspells⟩ hfits
        exact hspec ⟨spec, hspells, hfits⟩

/-- What a field is to ask for: what its first spec names, in digits only and in numbers of any
size; the whole resource if there is no field, or no such spec in it. -/
def Prescribed (field : Option String) (total : Nat) (r : RangeRequest) : Prop :=
  (∃ text, field = some text ∧ ∃ spec, RangeSpec.IsFirstOf Numeral.IsDecimal text spec ∧
      r = spec.answer total) ∨
    (∀ text, field = some text → ∀ spec, ¬ RangeSpec.IsFirstOf Numeral.IsDecimal text spec) ∧
    r = full

theorem isFirstOf_unique {text : String} {spec spec' : RangeSpec}
    (h : RangeSpec.IsFirstOf Numeral.IsSigned text spec)
    (h' : RangeSpec.IsFirstOf Numeral.IsSigned text spec') :
    spec = spec' := by
  obtain ⟨before, after, hparts, hspells⟩ := (isFirstOf_iff fun _ _ h => h).1 h
  obtain ⟨before', after', hparts', hspells'⟩ := (isFirstOf_iff fun _ _ h => h).1 h'
  rw [hparts] at hparts'
  cases hparts'
  exact hspells.unique hspells'

theorem prescribed_some_iff {text : String} {total : Nat} {r : RangeRequest} :
    Prescribed (some text) total r ↔
      (∃ spec, RangeSpec.IsFirstOf Numeral.IsDecimal text spec ∧ r = spec.answer total) ∨
        (∀ spec, ¬ RangeSpec.IsFirstOf Numeral.IsDecimal text spec) ∧ r = full := by
  simp [Prescribed]

/-- A field is read as it should be if and only if its first spec, in which signs are allowed, has
no sign and only numbers that fit in 64 bits, or has a sign and a number that does not fit. -/
theorem prescribed_read_iff (field : Option String) (total : Nat) :
    Prescribed field total (read field total) ↔
      ∀ text, field = some text → ∀ spec, RangeSpec.IsFirstOf Numeral.IsSigned text spec →
        (spec.Fits ↔ RangeSpec.IsFirstOf Numeral.IsDecimal text spec) := by
  cases field with
  | none =>
      have hfull : Prescribed none total (read none total) := .inr ⟨by simp, rfl⟩
      exact iff_of_true hfull (by simp)
  | some text =>
      have hsigned : ∀ {spec}, RangeSpec.IsFirstOf Numeral.IsDecimal text spec →
          RangeSpec.IsFirstOf Numeral.IsSigned text spec :=
            fun h => h.mono fun _ _ => Numeral.IsDecimal.isSigned
      rw [prescribed_some_iff]
      simp only [Option.some.injEq, forall_eq']
      obtain ⟨spec, hfirst, hfits, hread⟩ | ⟨hnone, hread⟩ := read_cases text total
      · -- the numbers of the first spec fit, and it is answered
        constructor
        · rintro (⟨spec', hdecimal, -⟩ | ⟨-, hfull⟩) spec'' hfirst''
          · obtain rfl := isFirstOf_unique hfirst hfirst''
            obtain rfl := isFirstOf_unique hfirst (hsigned hdecimal)
            exact iff_of_true hfits hdecimal
          · exact absurd (hread.symm.trans hfull) (spec.answer_ne_full total)
        · intro h
          exact .inl ⟨spec, (h spec hfirst).1 hfits, hread⟩
      · -- there is no spec, or it has a number that does not fit
        constructor
        · rintro (⟨spec, -, hanswer⟩ | ⟨hnot, -⟩) spec' hfirst'
          · exact absurd (hanswer.symm.trans hread) (spec.answer_ne_full total)
          · exact iff_of_false (hnone spec' hfirst') (hnot spec')
        · intro h
          refine .inr ⟨fun spec hdecimal => ?_, hread⟩
          exact hnone spec (hsigned hdecimal) ((h spec (hsigned hdecimal)).2 hdecimal)

/-- A number that does not fit in 64 bits, and one with a sign. -/
theorem prescribed_read_iff_beyond :
    read (some "bytes=0-18446744073709551616") 100 = full ∧
      ¬ Prescribed (some "bytes=0-18446744073709551616") 100 full ∧
      read (some "bytes=+0-5") 100 = part ⟨0, 5⟩ ∧
      ¬ Prescribed (some "bytes=+0-5") 100 (part ⟨0, 5⟩) := by
  have hzero : Numeral.IsDecimal "0".toList 0 := Numeral.read?_eq_some_iff.1 (by decide +kernel)
  have hlast : Numeral.IsDecimal "18446744073709551616".toList UInt64.size :=
    Numeral.read?_eq_some_iff.1 (by decide +kernel)
  have hfive : Numeral.IsDecimal "5".toList 5 := Numeral.read?_eq_some_iff.1 (by decide +kernel)
  have hfar : read (some "bytes=0-18446744073709551616") 100 = full := by decide +kernel
  have hsign : read (some "bytes=+0-5") 100 = part ⟨0, 5⟩ := by decide +kernel
  refine ⟨hfar, fun h => ?_, hsign, fun h => ?_⟩
  · rw [← hfar] at h
    have hparts : parts? "bytes=0-18446744073709551616" = some ("0", "18446744073709551616") := by
      decide +kernel
    have hdecimal :
        RangeSpec.IsFirstOf Numeral.IsDecimal "bytes=0-18446744073709551616"
          (.between 0 UInt64.size) :=
      isFirstOf_of_parts? hparts (.between hzero hlast (Nat.zero_le _))
    have hfits :=
      (prescribed_read_iff _ 100).1 h _ rfl _ (hdecimal.mono fun _ _ => Numeral.IsDecimal.isSigned)
    exact absurd (hfits.2 hdecimal).2 (Nat.lt_irrefl _)
  · rw [← hsign] at h
    have hparts : parts? "bytes=+0-5" = some ("+0", "5") := by decide +kernel
    have hsigned : RangeSpec.IsFirstOf Numeral.IsSigned "bytes=+0-5" (.between 0 5) :=
      isFirstOf_of_parts? hparts (.between (.inr ⟨_, rfl, hzero⟩) hfive.isSigned (by decide))
    have hdecimal := ((prescribed_read_iff _ 100).1 h _ rfl _ hsigned).1 ⟨by decide, by decide⟩
    obtain ⟨before, after, hparts', hspells⟩ :=
      (isFirstOf_iff fun _ _ => Numeral.IsDecimal.isSigned).1 hdecimal
    rw [hparts, Option.some.injEq, Prod.mk.injEq] at hparts'
    obtain ⟨rfl, -⟩ := hparts'
    have hdigits := (hspells.forall_mem fun _ _ => Numeral.IsDecimal.isDigit).1
    exact absurd (hdigits '+' (by decide)) (by decide)

end RangeRequest

end HttpDispatch
