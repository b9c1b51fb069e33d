import HttpDispatch.ErrorHandlers
import Mathlib.Data.List.Chain
import Mathlib.Data.List.TakeWhile

/-!
# The nearest handler

A category is covered by itself, by those whose name it has before one of its dots, and by the root
(`Category.Covers`). Its lineage consists of what covers it, and each category of the lineage has a
shorter name than the one before it (`Category.IsLineage`). So the first registered category that is
met along the lineage is the longest one that covers the category, and lookup finds its handler, the
last that was registered for it: `ErrorHandlers.find?_ofCalls`.

A name may have dots side by side. The category `a..b` is then covered by `a.` too, which no handler
can be registered for by its name; a dot at either end of a name is never part of it
(`Category.names_ofName`).
-/

namespace HttpDispatch

namespace Category

/-!
## Names as characters
-/

variable {cs ds : List Char}

/-- `ds` is `cs`, what `cs` has before one of its dots, or empty. -/
def CoversChars (ds cs : List Char) : Prop := ds = cs ∨ (∃ rest, cs = ds ++ '.' :: rest) ∨ ds = []

theorem parentChars_of_not_mem (h : '.' ∉ cs) : parentChars cs = [] := by
  have hdrop : cs.reverse.dropWhile (· ≠ '.') = [] := by
    refine List.dropWhile_eq_nil_iff.2 fun c hc => decide_eq_true ?_
    rintro rfl
    exact h (List.mem_reverse.1 hc)
  rw [parentChars, hdrop]
  rfl

theorem parentChars_append {rest : List Char} (h : '.' ∉ rest) (cs : List Char) :
    parentChars (cs ++ '.' :: rest) = cs := by
  have hdrop : (cs ++ '.' :: rest).reverse.dropWhile (· ≠ '.') = '.' :: cs.reverse := by
    rw [List.reverse_append, List.reverse_cons, List.append_assoc, List.dropWhile_append_of_pos]
    · rfl
    · intro c hc
      refine decide_eq_true ?_
      rintro rfl
      exact h (List.mem_reverse.1 hc)
  rw [parentChars, hdrop, List.drop_succ_cons, List.drop_zero, List.reverse_reverse]

theorem exists_eq_append_of_mem (h : '.' ∈ cs) :
    ∃ before rest, cs = before ++ '.' :: rest ∧ '.' ∉ rest := by
  obtain ⟨front, back, hcs, hback⟩ := List.eq_append_cons_of_mem (List.mem_reverse.2 h)
  refine ⟨back.reverse, front.reverse, ?_, fun hmem => hback (List.mem_reverse.1 hmem)⟩
  rw [← List.reverse_reverse cs, hcs]
  simp

/-- Of what covers a name, all but the name itself covers its parent. -/
theorem coversChars_iff (h : cs ≠ []) :
    CoversChars ds cs ↔ ds = cs ∨ CoversChars ds (parentChars cs) := by
  unfold CoversChars
  by_cases hdot : '.' ∈ cs
  · obtain ⟨before, rest, rfl, hrest⟩ := exists_eq_append_of_mem hdot
    rw [parentChars_append hrest]
    have hsplit : (∃ r, before ++ '.' :: rest = ds ++ '.' :: r) ↔
        ds = before ∨ ∃ r, before = ds ++ '.' :: r := by
      constructor
      · rintro ⟨r, hr⟩
        -- the dot after `ds` is the last one, or stands before it
        obtain ⟨m, hds, hm⟩ | ⟨m, hbefore, hm⟩ := List.append_eq_append_iff.1 hr
        · cases m with
          | nil => exact .inl (by simpa using hds)
          | cons c m =>
              obtain ⟨-, hrest'⟩ := List.cons.inj hm
              exact absurd (hrest' ▸ by simp) hrest
        · cases m with
          | nil => exact .inl (by simpa using hbefore.symm)
          | cons c m =>
              obtain ⟨rfl, -⟩ := List.cons.inj hm
              exact .inr ⟨m, hbefore⟩
      · rintro (rfl | ⟨r, rfl⟩)
        · exact ⟨rest, rfl⟩
        · exact ⟨r ++ '.' :: rest, by simp⟩
    rw [hsplit, or_assoc]
  · have hnone : ¬ ∃ r, cs = ds ++ '.' :: r := by
      rintro ⟨r, rfl⟩
      exact hdot (by simp)
    rw [parentChars_of_not_mem hdot]
    simp [hnone]

theorem CoversChars.length_le (h : CoversChars ds cs) : ds.length ≤ cs.length := by
  obtain rfl | ⟨rest, rfl⟩ | rfl := h
  · exact Nat.le_refl _
  · simp
  · exact Nat.zero_le _

theorem mem_lineageChars : ds ∈ lineageChars cs ↔ CoversChars ds cs := by
  induction cs using lineageChars.induct with
  | case1 => simp [lineageChars, CoversChars]
  | case2 c cs ih =>
      rw [lineageChars, List.mem_cons, ih, coversChars_iff (List.cons_ne_nil c cs)]

theorem pairwise_lineageChars (cs : List Char) :
    (lineageChars cs).Pairwise fun a b => b.length < a.length := by
  induction cs using lineageChars.induct with
  | case1 => simp [lineageChars]
  | case2 c cs ih =>
      rw [lineageChars, List.pairwise_cons]
      refine ⟨fun ds hds => ?_, ih⟩
      exact Nat.lt_of_le_of_lt (mem_lineageChars.1 hds).length_le
        (length_parentChars_lt (List.cons_ne_nil c cs))

theorem head?_lineageChars (cs : List Char) : (lineageChars cs).head? = some cs := by
  cases cs <;> rw [lineageChars] <;> rfl

theorem isChain_lineageChars (cs : List Char) :
    (lineageChars cs).IsChain fun a b => a ≠ [] ∧ parentChars a = b := by
  induction cs using lineageChars.induct with
  | case1 => simp [lineageChars]
  | case2 c cs ih =>
      rw [lineageChars, List.isChain_cons, head?_lineageChars]
      refine ⟨?_, ih⟩
      rintro parent ⟨⟩
      exact ⟨List.cons_ne_nil c cs, rfl⟩

theorem getLast?_lineageChars (cs : List Char) : (lineageChars cs).getLast? = some [] := by
  induction cs using lineageChars.induct with
  | case1 => rw [lineageChars]; rfl
  | case2 c cs ih =>
      rw [lineageChars, List.getLast?_cons_of_ne_nil, ih]
      rintro hnil
      rw [hnil] at ih
      cases ih

/-!
## What covers a category
-/

/-- `d` is `c` itself, or has the name that `c` has before one of its dots, or is the root. -/
def Covers (d c : Category) : Prop :=
  d = c ∨ (∃ rest, c.name.toList = d.name.toList ++ '.' :: rest) ∨ d = root

/-- From `c` to the root, from parent to parent and over all that covers `c`, to a shorter name with
each step. -/
structure IsLineage (c : Category) (l : List Category) : Prop where
  head?_eq : l.head? = some c
  getLast?_eq : l.getLast? = some root
  walks : l.IsChain fun a b => a.parent? = some b
  shortens : l.Pairwise fun a b => b.name.length < a.name.length
  mem_iff : ∀ d, d ∈ l ↔ d.Covers c

theorem coversChars_toList {c d : Category} :
    CoversChars d.name.toList c.name.toList ↔ d.Covers c := by
  obtain ⟨name⟩ := c
  obtain ⟨name'⟩ := d
  simp [CoversChars, Covers, root, String.toList_inj]

theorem isLineage_lineage (c : Category) : c.IsLineage c.lineage where
  head?_eq := by
    rw [lineage, List.head?_map, head?_lineageChars, Option.map_some, String.ofList_toList]
  getLast?_eq := by
    rw [lineage, List.getLast?_map, getLast?_lineageChars]
    rfl
  walks := by
    refine (List.isChain_map _).2 ((isChain_lineageChars c.name.toList).imp fun a b h => ?_)
    obtain ⟨hne, rfl⟩ := h
    simp [parent?, isRoot, hne]
  shortens := by
    refine List.pairwise_map.2 ((pairwise_lineageChars c.name.toList).imp fun h => ?_)
    simpa using h
  mem_iff d := by
    rw [← coversChars_toList, ← mem_lineageChars, lineage, List.mem_map]
    constructor
    · rintro ⟨ds, hds, rfl⟩
      rwa [String.toList_ofList]
    · intro hd
      exact ⟨_, hd, by rw [String.ofList_toList]⟩

structure Names (c : Category) (s : String) : Prop where
  exists_eq : ∃ before after,
    s.toList = List.replicate before '.' ++ c.name.toList ++ List.replicate after '.'
  head?_ne : c.name.toList.head? ≠ some '.'
  getLast?_ne : c.name.toList.getLast? ≠ some '.'

theorem exists_eq_replicate_append (cs : List Char) :
    ∃ n, cs = List.replicate n '.' ++ cs.dropWhile (· = '.') := by
  have hdots : ∀ c ∈ cs.takeWhile (· = '.'), c = '.' := fun c hc => by
    simpa using List.mem_takeWhile_imp hc
  refine ⟨(cs.takeWhile (· = '.')).length, ?_⟩
  rw [← List.eq_replicate_length.2 hdots, List.takeWhile_append_dropWhile]

theorem head?_dropWhile_ne (cs : List Char) : (cs.dropWhile (· = '.')).head? ≠ some '.' := by
  intro h
  have := List.head?_dropWhile_not (· = '.') cs
  simp_all

theorem names_ofName (s : String) : (ofName s).Names s := by
  obtain ⟨before, hbefore⟩ := exists_eq_replicate_append s.toList
  obtain ⟨after, hafter⟩ := exists_eq_replicate_append (s.toList.dropWhile (· = '.')).reverse
  have hname : (ofName s).name.toList =
      ((s.toList.dropWhile (· = '.')).reverse.dropWhile (· = '.')).reverse := String.toList_ofList
  have hback :
      s.toList.dropWhile (· = '.') = (ofName s).name.toList ++ List.replicate after '.' := by
    rw [hname, ← List.reverse_replicate, ← List.reverse_append, ← hafter, List.reverse_reverse]
  refine ⟨⟨before, after, ?_⟩, ?_, ?_⟩
  · rw [List.append_assoc, ← hback, ← hbefore]
  · intro hhead
    refine head?_dropWhile_ne s.toList ?_
    rw [hback, List.head?_append, hhead]
    rfl
  · rw [hname, List.getLast?_reverse]
    exact head?_dropWhile_ne _

end Category

namespace ErrorHandlers

variable {H : Type} {calls : List (Category × H)}

/-- The handlers that are there after registering them one after the other. -/
def ofCalls (calls : List (Category × H)) : ErrorHandlers H :=
  calls.foldl (fun t (c, h) => t.register c h) empty

def IsLast (calls : List (Category × H)) (call : Category × H) : Prop :=
  ∃ before after, calls = before ++ call :: after ∧ ∀ later ∈ after, later.1 ≠ call.1

/-- What is registered for the longest of the categories that cover `c`: the last that is. -/
structure IsNearest (calls : List (Category × H)) (c : Category) (call : Category × H) : Prop where
  covers : call.1.Covers c
  isLast : IsLast calls call
  longest : ∀ other ∈ calls, other.1.Covers c → other.1.name.length ≤ call.1.name.length

theorem get?_foldl_register (t : ErrorHandlers H) (calls : List (Category × H)) (d : Category) :
    (calls.foldl (fun t (c, h) => t.register c h) t).get? d =
      ((calls.reverse.find? (·.1 = d)).map (·.2)).or (t.get? d) := by
  induction calls generalizing t with
  | nil => rfl
  | cons call calls ih =>
      obtain ⟨c, h⟩ := call
      rw [List.foldl_cons, ih, get?_register, List.reverse_cons, List.find?_append]
      cases calls.reverse.find? (·.1 = d) with
      | some later => rfl
      | none =>
          by_cases hd : d = c
          · simp [hd]
          · simp [hd, Ne.symm hd]

theorem get?_ofCalls (calls : List (Category × H)) (d : Category) :
    (ofCalls calls).get? d = (calls.reverse.find? (·.1 = d)).map (·.2) := by
  rw [ofCalls, get?_foldl_register, get?_empty, Option.or_none]

theorem get?_ofCalls_eq_some_iff {d : Category} {h : H} :
    (ofCalls calls).get? d = some h ↔ IsLast calls (d, h) := by
  rw [get?_ofCalls, Option.map_eq_some_iff]
  constructor
  · rintro ⟨⟨c, h⟩, hfind, rfl⟩
    obtain ⟨hc, later, earlier, hcalls, hlater⟩ := List.find?_eq_some_iff_append.1 hfind
    obtain rfl : c = d := of_decide_eq_true hc
    refine ⟨earlier.reverse, later.reverse, ?_, fun call hcall => ?_⟩
    · rw [← List.reverse_reverse calls, hcalls]
      simp
    · simpa using hlater call (List.mem_reverse.1 hcall)
  · rintro ⟨earlier, later, rfl, hlater⟩
    refine ⟨(d, h),
      List.find?_eq_some_iff_append.2 ⟨by simp, later.reverse, earlier.reverse, ?_, ?_⟩, rfl⟩
    · simp
    · intro call hcall
      simpa using hlater call (List.mem_reverse.1 hcall)

theorem get?_ofCalls_eq_none_iff {d : Category} :
    (ofCalls calls).get? d = none ↔ ∀ call ∈ calls, call.1 ≠ d := by
  simp [get?_ofCalls]

theorem find?_ofCalls_eq_some_iff {c : Category} {call : Category × H} :
    (ofCalls calls).find? c = some call ↔ IsNearest calls c call := by
  obtain ⟨d, h⟩ := call
  have hlineage := c.isLineage_lineage
  rw [find?, List.findSome?_eq_some_iff]
  constructor
  · rintro ⟨nearer, d', farther, hsplit, hfound, hnearer⟩
    obtain ⟨h', hget, heq⟩ := Option.map_eq_some_iff.1 hfound
    cases heq
    refine ⟨(hlineage.mem_iff d).1 (by simp [hsplit]), get?_ofCalls_eq_some_iff.1 hget, ?_⟩
    intro other hother hcovers
    have hmem := (hlineage.mem_iff other.1).2 hcovers
    have hshortens := hlineage.shortens
    rw [hsplit, List.mem_append, List.mem_cons] at hmem
    rw [hsplit, List.pairwise_append, List.pairwise_cons] at hshortens
    obtain hmem | rfl | hmem := hmem
    · -- a nearer category has no handler
      have hnone := Option.map_eq_none_iff.1 (hnearer _ hmem)
      exact absurd rfl (get?_ofCalls_eq_none_iff.1 hnone other hother)
    · exact Nat.le_refl _
    · exact Nat.le_of_lt (hshortens.2.1.1 _ hmem)
  · rintro ⟨hcovers, hlast, hlongest⟩
    obtain ⟨nearer, farther, hsplit⟩ := List.append_of_mem ((hlineage.mem_iff d).2 hcovers)
    have hget := get?_ofCalls_eq_some_iff.2 hlast
    refine ⟨nearer, d, farther, hsplit, by rw [hget, Option.map_some], fun d' hd' => ?_⟩
    refine Option.map_eq_none_iff.2 (get?_ofCalls_eq_none_iff.2 ?_)
    rintro other hother rfl
    -- what comes before `d` in the lineage is longer
    have hshortens := hlineage.shortens
    rw [hsplit, List.pairwise_append] at hshortens
    have hlonger := hshortens.2.2 _ hd' d List.mem_cons_self
    have hle := hlongest other hother ((hlineage.mem_iff other.1).1 (by simp [hsplit, hd']))
    exact absurd hle (Nat.not_le_of_lt hlonger)

theorem find?_ofCalls_eq_none_iff {c : Category} :
    (ofCalls calls).find? c = none ↔ ∀ call ∈ calls, ¬ call.1.Covers c := by
  rw [find?, List.findSome?_eq_none_iff]
  simp only [Option.map_eq_none_iff, get?_ofCalls_eq_none_iff, c.isLineage_lineage.mem_iff]
  exact ⟨fun h call hcall hcovers => h _ hcovers call hcall rfl,
    fun h d hd call hcall heq => h call hcall (heq ▸ hd)⟩

/-- The handler of an error is the nearest of those that are registered: it was the last to be
registered for its category, which is the longest that covers the category of the error. There is
none if and only if no category that covers it has a handler. What covers a category that is made of
a name is its lineage, which gets shorter with each step from the category to the root. -/
theorem find?_ofCalls (calls : List (Category × H)) :
    (∀ e : DispatchError,
      (∀ found, (ofCalls calls).find? e.category = some found ↔ IsNearest calls e.category found) ∧
      ((ofCalls calls).find? e.category = none ↔ ∀ call ∈ calls, ¬ call.1.Covers e.category)) ∧
    ∀ s, (Category.ofName s).Names s ∧ (Category.ofName s).IsLineage (Category.ofName s).lineage :=
  ⟨fun _ => ⟨fun _ => find?_ofCalls_eq_some_iff, find?_ofCalls_eq_none_iff⟩,
    fun s => ⟨Category.names_ofName s, (Category.ofName s).isLineage_lineage⟩⟩

/-- Dots side by side are steps of their own. -/
example : (Category.ofName ".a..b.").lineage = [⟨"a..b"⟩, ⟨"a."⟩, ⟨"a"⟩, .root] := by
  cbv

end ErrorHandlers

end HttpDispatch
