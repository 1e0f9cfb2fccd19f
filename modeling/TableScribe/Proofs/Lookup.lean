/-!
# Lists of keys and values

The class files are kept by path and the nodes of a tree by place. Both are lists in which a new
value takes the place of the old one of its key, or goes to the end.
-/

namespace TableScribe

variable {α β : Type} [BEq α] [LawfulBEq α] [DecidableEq α] {key : α} {value : β}

theorem lookup_cons_eq_if (other : α) (list : List (α × β)) :
    ((key, value) :: list).lookup other =
      if other = key then some value else list.lookup other := by
  rw [List.lookup_cons]
  by_cases h : other = key
  · rw [if_pos h, beq_iff_eq.2 h]
  · rw [if_neg h, beq_eq_false_iff_ne.2 h]

/-- What a list that a value has been put in has for a key. -/
theorem lookup_of_put (put : List (α × β) → List (α × β)) (hnil : put [] = [(key, value)])
    (hcons : ∀ first rest, put (first :: rest) =
      if first.1 = key then (key, value) :: rest else first :: put rest)
    (list : List (α × β)) (other : α) :
    (put list).lookup other = if other = key then some value else list.lookup other := by
  induction list with
  | nil =>
    rw [hnil]
    exact lookup_cons_eq_if other []
  | cons first rest ih =>
    rw [hcons, lookup_cons_eq_if other rest]
    split
    · rename_i hfirst
      rw [lookup_cons_eq_if, hfirst]
      by_cases h : other = key
      · rw [if_pos h, if_pos h]
      · rw [if_neg h, if_neg h, if_neg h]
    · rename_i hfirst
      rw [lookup_cons_eq_if, ih]
      by_cases h : other = first.1
      · rw [if_pos h, if_pos h, if_neg fun heq => hfirst (h.symm.trans heq)]
      · rw [if_neg h, if_neg h]

/-- In a list without repeated keys, every value can be looked up. -/
theorem lookup_eq_some_iff_mem {list : List (α × β)} (h : (list.map (·.1)).Nodup) :
    list.lookup key = some value ↔ (key, value) ∈ list := by
  induction list with
  | nil => simp
  | cons first rest ih =>
    obtain ⟨hfirst, hrest⟩ := List.nodup_cons.1 h
    rw [lookup_cons_eq_if, List.mem_cons, ← ih hrest]
    split
    · rename_i heq
      -- The key does not occur in the rest again.
      have hnone : rest.lookup key ≠ some value := fun hsome =>
        hfirst (List.mem_map.2 ⟨_, (ih hrest).1 hsome, heq⟩)
      rw [or_iff_left hnone, heq, Option.some.injEq, Prod.mk.injEq, and_iff_right rfl, eq_comm]
    · rename_i hne
      exact (or_iff_right fun heq => hne (congrArg Prod.fst heq)).symm

end TableScribe
