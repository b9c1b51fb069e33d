import HttpDispatch.Context.View
import HttpDispatch.Proofs.Stream.Variants
import HttpDispatch.Proofs.Text.Items

/-!
# Lists in one field line or in several

The values of a list may be sent on lines of their own (`Headers.withLines`) or on one line with
commas between them (`FieldValue.join`), and whoever passes a message on may turn the one into the
other. What is read from a list does not depend on this, since it is read item by item: the coding
that is chosen, whether JSON is accepted, and whether `vary` has to be added to
(`FieldValue.IsComma.reads_join`). The coding that is chosen is the one of the first item that
offers a coding (`CompressionSettings.choose_eq_some_iff`).
-/

namespace HttpDispatch

namespace FieldValue

theorem all_intercalate {p : UInt8 → Bool} {sep : Bytes} {parts : List Bytes}
    (hsep : sep.all p = true) (hparts : ∀ b ∈ parts, b.all p = true) :
    (sep.intercalate parts).all p = true := by
  induction parts with
  | nil => rfl
  | cons b parts ih =>
      cases parts with
      | nil => simpa using hparts
      | cons c parts =>
          rw [List.intercalate_cons_cons, List.all_append, List.all_append, hsep,
            hparts b List.mem_cons_self, ih fun d hd => hparts d (List.mem_cons_of_mem b hd)]
          rfl

def join (comma : FieldValue) (vs : List FieldValue) : FieldValue where
  bytes := comma.bytes.intercalate (vs.map bytes)
  isLegal := all_intercalate comma.isLegal (List.forall_mem_map.2 fun v _ => v.isLegal)

/-- The value is a comma, with blanks around it or without. -/
def IsComma (v : FieldValue) : Prop := ∃ s, v.text? = some s ∧ Text.Padded s.toList [',']

theorem text?_eq_some_iff {v : FieldValue} {s : String} :
    v.text? = some s ↔
      v.bytes.all (fun b => b < 0x7F) = true ∧ s.toList = v.bytes.map fun b =>
        Char.ofNat b.toNat := by
  unfold text?
  split
  · next h =>
    rw [Option.some_inj, and_iff_right h, ← String.toList_inj, String.toList_ofList]
    exact eq_comm
  · next h => simp [h]

theorem text?_join {comma : FieldValue} {c : String} (hcomma : comma.text? = some c)
    {vs : List FieldValue} {texts : List String}
    (hvs : List.Forall₂ (fun v s => v.text? = some s) vs texts) :
    (join comma vs).text? = some (Text.join c texts) := by
  obtain ⟨hascii, hchars⟩ := text?_eq_some_iff.1 hcomma
  rw [text?_eq_some_iff, Text.join, String.toList_intercalate]
  induction hvs with
  | nil => exact ⟨rfl, rfl⟩
  | @cons v s vs texts hv hvs ih =>
      obtain ⟨hv, hs⟩ := text?_eq_some_iff.1 hv
      cases hvs with
      | nil => simpa [join] using ⟨by simpa using hv, hs⟩
      | cons hw hvs =>
          obtain ⟨hall, hlist⟩ := ih
          unfold join at hall hlist ⊢
          simp only [List.map_cons, List.intercalate_cons_cons] at hall hlist ⊢
          rw [List.all_append, List.all_append, hv, hascii, hall, List.map_append,
            List.map_append, ← hlist, hs, hchars]
          exact ⟨rfl, rfl⟩

theorem forall₂_text? {vs : List FieldValue} (h : ∀ v ∈ vs, v.text?.isSome = true) :
    List.Forall₂ (fun v s => v.text? = some s) vs (vs.filterMap text?) := by
  induction vs with
  | nil => exact .nil
  | cons v vs ih =>
      obtain ⟨s, hs⟩ := Option.isSome_iff_exists.1 (h v List.mem_cons_self)
      rw [List.filterMap_cons, hs]
      exact .cons hs (ih fun w hw => h w (List.mem_cons_of_mem v hw))

/-- The names of the items of a list that is sent in several values. -/
def itemNames (vs : List FieldValue) : List String :=
  (vs.filterMap text?).flatMap fun s => (Text.split ',' s).map Text.itemName

end FieldValue

namespace Headers

/-- With the given values under the name `n` and no others there, each on a line of its own. -/
def withLines (h : Headers) (n : FieldName) (vs : List FieldValue) : Headers :=
  vs.foldl (fun h v => h.append n v) (h.erase n)

@[simp]
theorem getAll_withLines (h : Headers) (n : FieldName) (vs : List FieldValue) :
    (h.withLines n vs).getAll n = vs := by
  rw [withLines, getAll_foldl_append, getAll_erase, if_pos rfl, if_pos rfl, List.nil_append]

theorem texts_withLines (h : Headers) (n : FieldName) (vs : List FieldValue) :
    (h.withLines n vs).texts n = vs.filterMap FieldValue.text? := by
  rw [texts, getAll_withLines]

end Headers

/-!
## Readers of items
-/

theorem Coding.ignoresBlanks_ofOffer? :
    Text.IgnoresBlanks fun cs => Coding.ofOffer? (.ofList cs) := by
  intro xs ys h
  have hname : Text.trim (Text.before ';' (.ofList xs)) =
      Text.trim (Text.before ';' (.ofList ys)) := h.itemName_eq
  dsimp only
  rw [ofOffer?, ofOffer?, hname]

theorem ignoresBlanks_namesJson : Text.IgnoresBlanks fun cs => namesJson (.ofList cs) := by
  intro xs ys h
  have hname : Text.trim (Text.before ';' (.ofList xs)) =
      Text.trim (Text.before ';' (.ofList ys)) := h.itemName_eq
  dsimp only
  rw [namesJson, namesJson, hname]

theorem ignoresBlanks_sameLetters_trim (s : String) :
    Text.IgnoresBlanks fun cs => Text.sameLetters (Text.trim (.ofList cs)) s := by
  intro xs ys h
  dsimp only
  rw [h.trim_eq]

namespace Text

variable {c : String} {texts : List String}

theorem findSome?_flatMap {α β γ : Type} (f : β → Option γ) (g : α → List β) (l : List α) :
    (l.flatMap g).findSome? f = l.findSome? fun a => (g a).findSome? f := by
  induction l with
  | nil => rfl
  | cons a l ih =>
      rw [List.flatMap_cons, List.findSome?_append, ih, List.findSome?_cons]
      cases (g a).findSome? f <;> rfl

/-- The first item for which there is an answer is the same in joined texts. -/
theorem findSome?_split_join {β : Type} {f : String → Option β}
    (hf : IgnoresBlanks fun cs => f (.ofList cs)) (hnil : f "" = none)
    (hc : Padded c.toList [',']) :
    (split ',' (join c texts)).findSome? f = texts.findSome? fun s =>
      (split ',' s).findSome? f := by
  have hmap : ∀ items : List String, items.findSome? f = (items.map f).findSome? id := by
    intro items
    rw [List.findSome?_map]
    rfl
  by_cases hne : texts = []
  · subst hne
    exact (List.findSome?_cons.trans (by rw [hnil]; rfl) : [""].findSome? f = none)
  · rw [hmap, map_split_join hf hc hne, findSome?_flatMap]
    exact congrFun (congrArg _ (funext fun s => (hmap _).symm)) _

theorem any_split_join {p : String → Bool} (hp : IgnoresBlanks fun cs => p (.ofList cs))
    (hnil : p "" = false) (hc : Padded c.toList [',']) :
    (split ',' (join c texts)).any p = texts.any fun s => (split ',' s).any p := by
  have hmap : ∀ items : List String, items.any p = (items.map p).any id := by
    intro items
    rw [List.any_map]
    rfl
  by_cases hne : texts = []
  · subst hne
    exact (by rw [List.any_cons, hnil]; rfl : [""].any p = false)
  · rw [hmap, map_split_join hp hc hne, List.any_flatMap]
    exact congrArg _ (funext fun s => (hmap _).symm)

end Text

/-!
## The first item that offers a coding
-/

/-- What offers a coding: its name in any mixture of case, an older name of it, or a star in place
of any name. -/
def Coding.IsOffered : Coding → String → Prop
  | gzip, name =>
    Text.sameLetters name "gzip" = true ∨ Text.sameLetters name "x-gzip" = true ∨ name = "*"
  | deflate, name => Text.sameLetters name "deflate" = true

def Coding.IsFirstOffered (c : Coding) (names : List String) : Prop :=
  ∃ before name after, names = before ++ name :: after ∧ c.IsOffered name ∧
    ∀ other ∈ before, ∀ d : Coding, ¬ d.IsOffered other

theorem Coding.not_isOffered_gzip_of_deflate {name : String} (h : deflate.IsOffered name) :
    ¬ gzip.IsOffered name := by
  simp only [IsOffered, Text.sameLetters, beq_iff_eq] at h ⊢
  rw [h]
  rintro (h' | h' | rfl)
  · exact absurd h' (by decide)
  · exact absurd h' (by decide)
  · exact absurd h (by decide)

theorem Coding.ofOffer?_eq_some_iff {item : String} {c : Coding} :
    ofOffer? item = some c ↔ c.IsOffered (Text.itemName item) := by
  have htest :
      (Text.sameLetters (Text.itemName item) "gzip" ||
        Text.sameLetters (Text.itemName item) "x-gzip" ||
        Text.itemName item = "*") = true ↔ gzip.IsOffered (Text.itemName item) := by
    simp [IsOffered, or_assoc]
  unfold ofOffer?
  dsimp only
  rw [← Text.itemName]
  split
  · next h =>
    have hgzip := htest.1 h
    cases c with
    | gzip => exact iff_of_true rfl hgzip
    | deflate =>
      exact iff_of_false nofun fun hdeflate => not_isOffered_gzip_of_deflate hdeflate hgzip
  · next h =>
    have hgzip : ¬ gzip.IsOffered (Text.itemName item) := fun hgzip => h (htest.2 hgzip)
    split
    · next hdeflate =>
      cases c with
      | gzip => exact iff_of_false nofun hgzip
      | deflate => exact iff_of_true rfl hdeflate
    · next hdeflate =>
      cases c with
      | gzip => exact iff_of_false nofun hgzip
      | deflate => exact iff_of_false nofun hdeflate

theorem Coding.ofOffer?_eq_none_iff {item : String} :
    ofOffer? item = none ↔ ∀ c : Coding, ¬ c.IsOffered (Text.itemName item) := by
  rw [Option.eq_none_iff_forall_ne_some]
  exact forall_congr' fun c => not_congr ofOffer?_eq_some_iff

/-- The coding of a response is the first that is offered, in whatever value of the field, for
bodies that are large enough, where the response may have a coding. -/
theorem CompressionSettings.choose_eq_some_iff {s : CompressionSettings}
    {request response : Headers} {size : Nat} {c : Coding} :
    s.choose request response size = some c ↔
      s.minSize ≤ size ∧ s.isNegotiable response = true ∧
        c.IsFirstOffered (FieldValue.itemNames (request.getAll .acceptEncoding)) := by
  have hitems : (request.texts .acceptEncoding).findSome? Coding.negotiate =
      ((request.texts .acceptEncoding).flatMap (Text.split ',')).findSome? Coding.ofOffer? :=
    (Text.findSome?_flatMap Coding.ofOffer? (Text.split ',') _).symm
  have hfirst : ∀ items : List String, items.findSome? Coding.ofOffer? = some c ↔
      c.IsFirstOffered (items.map Text.itemName) := by
    intro items
    simp only [List.findSome?_eq_some_iff, Coding.ofOffer?_eq_some_iff, Coding.ofOffer?_eq_none_iff]
    constructor
    · rintro ⟨before, item, after, rfl, hitem, hbefore⟩
      exact ⟨before.map Text.itemName, Text.itemName item, after.map Text.itemName, by simp, hitem,
        List.forall_mem_map.2 hbefore⟩
    · rintro ⟨before, name, after, hnames, hitem, hbefore⟩
      obtain ⟨before, rest, rfl, rfl, hrest⟩ := List.map_eq_append_iff.1 hnames
      obtain ⟨item, after, rfl, rfl, rfl⟩ := List.map_eq_cons_iff.1 hrest
      exact ⟨before, item, after, rfl, hitem, List.forall_mem_map.1 hbefore⟩
  have hnames : FieldValue.itemNames (request.getAll .acceptEncoding) =
      ((request.texts .acceptEncoding).flatMap (Text.split ',')).map Text.itemName :=
        List.map_flatMap.symm
  rw [choose, hitems, hnames, ← hfirst]
  split
  · next h =>
    refine iff_of_false (Option.some_ne_none c).symm ?_
    rintro ⟨hsize, hnegotiable, -⟩
    simp [hnegotiable, Nat.not_lt.2 hsize] at h
  · next h =>
    simp only [Bool.or_eq_true, decide_eq_true_eq, Bool.not_eq_true', not_or, Nat.not_lt,
      Bool.not_eq_false] at h
    simp [h]

namespace Headers

theorem addVary_addVary (h : Headers) : h.addVary.addVary = h.addVary :=
  if_pos ((lists_acceptEncoding_iff _).1 h.lists_addVary)

variable {comma : FieldValue} {c : String} {vs : List FieldValue}

theorem texts_withLines_join (hcomma : comma.text? = some c) (hvs : ∀ v ∈ vs, v.text?.isSome = true)
    (h : Headers) (n : FieldName) :
    (h.withLines n [FieldValue.join comma vs]).texts n =
      [Text.join c (vs.filterMap FieldValue.text?)] := by
  rw [texts_withLines, List.filterMap_cons,
    FieldValue.text?_join hcomma (FieldValue.forall₂_text? hvs)]
  rfl

variable (hcomma : comma.text? = some c) (hc : Text.Padded c.toList [','])
  (hvs : ∀ v ∈ vs, v.text?.isSome = true) (h : Headers)

include hcomma hc hvs

theorem findSome?_negotiate_withLines_join :
    ((h.withLines .acceptEncoding [FieldValue.join comma vs]).texts .acceptEncoding).findSome?
      Coding.negotiate =
      ((h.withLines .acceptEncoding vs).texts .acceptEncoding).findSome? Coding.negotiate := by
  rw [texts_withLines_join hcomma hvs, texts_withLines, List.findSome?_singleton]
  exact Text.findSome?_split_join Coding.ignoresBlanks_ofOffer? (by decide +kernel) hc

theorem acceptsJson_withLines_join :
    (h.withLines .accept [FieldValue.join comma vs]).acceptsJson =
      (h.withLines .accept vs).acceptsJson := by
  rw [acceptsJson, acceptsJson, texts_withLines_join hcomma hvs, texts_withLines, List.any_cons,
    List.any_nil, Bool.or_false]
  exact Text.any_split_join ignoresBlanks_namesJson (by decide +kernel) hc

theorem any_namesAcceptEncoding_withLines_join :
    ((h.withLines .vary [FieldValue.join comma vs]).texts .vary).any namesAcceptEncoding =
      ((h.withLines .vary vs).texts .vary).any namesAcceptEncoding := by
  rw [texts_withLines_join hcomma hvs, texts_withLines, List.any_cons, List.any_nil, Bool.or_false]
  exact Text.any_split_join (ignoresBlanks_sameLetters_trim "accept-encoding")
    (by decide +kernel) hc

end Headers

/-- Whether the values of a list are sent on lines of their own, or on one line with commas between
them and perhaps blanks around these: the same coding is chosen, JSON is accepted or not, and the
field `vary` is added to or not; and once it has been added to, it is not added to again. -/
theorem FieldValue.IsComma.reads_join {comma : FieldValue} (hcomma : comma.IsComma)
    {vs : List FieldValue} (hvs : ∀ v ∈ vs, v.text?.isSome = true) (h : Headers) :
    (∀ (s : CompressionSettings) (response : Headers) (size : Nat),
      s.choose (h.withLines .acceptEncoding [join comma vs]) response size =
          s.choose (h.withLines .acceptEncoding vs) response size ∧
        ∀ c, s.choose (h.withLines .acceptEncoding vs) response size = some c ↔
          s.minSize ≤ size ∧ s.isNegotiable response = true ∧ c.IsFirstOffered (itemNames vs)) ∧
    (h.withLines .accept [join comma vs]).acceptsJson = (h.withLines .accept vs).acceptsJson ∧
    ((h.withLines .vary [join comma vs]).addVary = h.withLines .vary [join comma vs] ∧
        (h.withLines .vary vs).addVary = h.withLines .vary vs ∨
      (h.withLines .vary [join comma vs]).addVary =
          (h.withLines .vary [join comma vs]).append .vary .acceptEncoding ∧
        (h.withLines .vary vs).addVary = (h.withLines .vary vs).append .vary .acceptEncoding) ∧
    (h.withLines .vary [join comma vs]).addVary.addVary =
      (h.withLines .vary [join comma vs]).addVary ∧
    (h.withLines .vary vs).addVary.addVary = (h.withLines .vary vs).addVary := by
  obtain ⟨c, hcomma, hc⟩ := hcomma
  refine ⟨fun s response size => ⟨?_, fun coding => ?_⟩,
    h.acceptsJson_withLines_join hcomma hc hvs, ?_, Headers.addVary_addVary _,
    Headers.addVary_addVary _⟩
  · rw [CompressionSettings.choose, CompressionSettings.choose,
      h.findSome?_negotiate_withLines_join hcomma hc hvs]
  · rw [CompressionSettings.choose_eq_some_iff, Headers.getAll_withLines]
  · have hsame := h.any_namesAcceptEncoding_withLines_join hcomma hc hvs
    cases hlisted : ((h.withLines .vary vs).texts .vary).any namesAcceptEncoding with
    | true => exact .inl ⟨if_pos (hsame.trans hlisted), if_pos hlisted⟩
    | false =>
        have hnot : ¬ ((h.withLines .vary vs).texts .vary).any namesAcceptEncoding = true := by
          simp [hlisted]
        exact .inr ⟨if_neg (hsame ▸ hnot), if_neg hnot⟩

/-- An offer on two lines, the first of which offers nothing that is known, and the same offer on
one line. A value of `vary` that lists a name in capitals is left alone. -/
theorem FieldValue.IsComma.reads_join_twoLines :
    let comma : FieldValue := .ofString ", "
    let offers : List FieldValue := [.ofString "br;q=1.0", .ofString "x-GZIP;q=0.5,deflate"]
    let names : List FieldValue := [.ofString "Origin", .ofString "ACCEPT-ENCODING"]
    comma.IsComma ∧ (∀ v ∈ offers, v.text?.isSome = true) ∧ (∀ v ∈ names, v.text?.isSome = true) ∧
      CompressionSettings.choose {} (Headers.empty.withLines .acceptEncoding [join comma offers])
        .empty 1500 = some .gzip ∧
      (Headers.empty.withLines .vary [join comma names]).addVary =
        Headers.empty.withLines .vary [join comma names] := by
  intro comma offers names
  have hcomma : comma.IsComma :=
    ⟨", ", by decide +kernel, [], [' '], List.forall_mem_nil _,
      List.forall_mem_singleton.mpr (by decide), rfl⟩
  have hoffers : ∀ v ∈ offers, v.text?.isSome = true := by decide +kernel
  have hnames : ∀ v ∈ names, v.text?.isSome = true := by decide +kernel
  have hlisted : ¬ (Headers.empty.withLines .vary names).addVary =
      (Headers.empty.withLines .vary names).append .vary .acceptEncoding := by decide +kernel
  obtain ⟨hchoose, -⟩ := hcomma.reads_join hoffers .empty
  obtain ⟨-, -, hvary, -⟩ := hcomma.reads_join hnames .empty
  refine ⟨hcomma, hoffers, hnames, (hchoose {} .empty 1500).1.trans (by decide +kernel), ?_⟩
  exact (hvary.resolve_right fun h => hlisted h.2).1

end HttpDispatch
