import HttpDispatch.Log
import HttpDispatch.Text.Quoted

/-!
# Error handlers

Handlers of errors by category. A handler serves its category and everything beneath it, unless a
handler of a category in between is registered: lookup goes along the lineage of the error's
category and takes the first handler it meets. A second handler of a category takes the place of the
first.
-/

namespace HttpDispatch

/-- Handlers of type `H` by category. -/
structure ErrorHandlers (H : Type) where
  entries : List (Category × H)

namespace ErrorHandlers

variable {H : Type}

def empty : ErrorHandlers H := ⟨[]⟩

def get? (t : ErrorHandlers H) (c : Category) : Option H :=
  (t.entries.find? (·.1 = c)).map (·.2)

/-- With a handler of a category, in place of the one it has. -/
def register (t : ErrorHandlers H) (c : Category) (h : H) : ErrorHandlers H :=
  ⟨t.entries.filter (·.1 ≠ c) ++ [(c, h)]⟩

def registerReport (t : ErrorHandlers H) (c : Category) : LogEvent :=
  if (t.get? c).isSome then .handlerReplaced c else .handlerRegistered c

/-- The first handler along the lineage of a category, and the category that it is a handler of. -/
def find? (t : ErrorHandlers H) (c : Category) : Option (Category × H) :=
  c.lineage.findSome? fun d => (t.get? d).map (d, ·)

def size (t : ErrorHandlers H) : Nat := t.entries.length

def isEmpty (t : ErrorHandlers H) : Bool := t.entries.isEmpty

def categories (t : ErrorHandlers H) : List String :=
  (t.entries.map (·.1.name)).mergeSort (· ≤ ·)

def shown (t : ErrorHandlers H) : String :=
  Text.shownRecord "ExceptionRegistry"
    [("categories", Text.shownList (t.categories.map Text.quoted))] true

@[simp]
theorem get?_empty (c : Category) : (empty : ErrorHandlers H).get? c = none := rfl

theorem get?_register (t : ErrorHandlers H) (c : Category) (h : H) (d : Category) :
    (t.register c h).get? d = if d = c then some h else t.get? d := by
  by_cases hd : d = c
  · subst hd
    have hn : t.entries.find? (fun _ => false) = none := List.find?_eq_none.2 (by simp)
    simp [get?, register, List.find?_append, List.find?_filter, hn]
  · have hc : ¬ c = d := fun h => hd h.symm
    have hf : (fun e : Category × H => !decide (e.1 = c) && decide (e.1 = d)) =
        fun e => decide (e.1 = d) := by
      funext e
      by_cases he : e.1 = d <;> simp [he, hd]
    simp [get?, register, List.find?_append, List.find?_filter, hd, hc, hf]

theorem mem_entries_of_find? {t : ErrorHandlers H} {c c' : Category} {h : H}
    (hfound : t.find? c = some (c', h)) : (c', h) ∈ t.entries := by
  obtain ⟨d, -, hd⟩ := List.exists_of_findSome?_eq_some hfound
  obtain ⟨h', hget, heq⟩ := Option.map_eq_some_iff.1 hd
  cases heq
  obtain ⟨⟨d', h''⟩, hentry, rfl⟩ := Option.map_eq_some_iff.1 hget
  have hname := List.find?_some hentry
  obtain rfl : d' = c' := of_decide_eq_true hname
  exact List.mem_of_find?_eq_some hentry

end ErrorHandlers

end HttpDispatch
