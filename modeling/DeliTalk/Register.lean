/-!
# Registers: values under names, in the order the names were first written

A register is a list of named values. Writing under a known name replaces the value where it
stands; writing under a new name appends it. Reading finds the first value under a name.

* `find?_put_self`, `find?_put_of_ne`: what a write changes and what it leaves.
* `keys_put`: the names after a write.
-/

namespace DeliTalk

/-- Named values, in the order the names were first written. -/
abbrev Register (V : Type) := List (String × V)

namespace Register

variable {V W : Type}

/-- The first value under a name. -/
def find? (name : String) : Register V → Option V
  | [] => none
  | (key, value) :: rest => if key = name then some value else find? name rest

/-- Writes a value under a name: in place if the name is known, else at the end. -/
def put (name : String) (value : V) : Register V → Register V
  | [] => [(name, value)]
  | (key, old) :: rest =>
    if key = name then (key, value) :: rest else (key, old) :: put name value rest

/-- The names, in order. -/
def keys (r : Register V) : List String := r.map (·.1)

/-- Writes several values, one after the other. -/
def ofList (pairs : List (String × V)) : Register V :=
  pairs.foldl (fun r p => put p.1 p.2 r) []

@[simp] theorem find?_nil (name : String) : find? name ([] : Register V) = none := rfl

theorem find?_put_self (name : String) (value : V) :
    ∀ r : Register V, find? name (put name value r) = some value
  | [] => by simp [put, find?]
  | (key, old) :: rest => by
    unfold put
    split
    · rename_i h; simp [find?, h]
    · rename_i h; simp [find?, h, find?_put_self name value rest]

theorem find?_put_of_ne {name other : String} (value : V) (h : other ≠ name) :
    ∀ r : Register V, find? other (put name value r) = find? other r
  | [] => by simp [put, find?, Ne.symm h]
  | (key, old) :: rest => by
    unfold put
    split
    · rename_i hk
      subst hk
      simp [find?, Ne.symm h]
    · simp only [find?]
      rw [find?_put_of_ne value h rest]

theorem mem_keys_of_find? {name : String} {value : V} :
    ∀ {r : Register V}, find? name r = some value → (name, value) ∈ r
  | [], h => by simp at h
  | (key, old) :: rest, h => by
    unfold find? at h
    split at h
    · rename_i hk
      cases h
      simp [hk]
    · exact List.mem_cons_of_mem _ (mem_keys_of_find? h)

/-- A write keeps the names and appends its own if it is new. -/
theorem keys_put (name : String) (value : V) :
    ∀ r : Register V, keys (put name value r) = if name ∈ keys r then keys r else keys r ++ [name]
  | [] => by simp [put, keys]
  | (key, old) :: rest => by
    have ih := keys_put name value rest
    simp only [keys] at ih ⊢
    unfold put
    by_cases h : key = name
    · simp [h]
    · simp only [if_neg h, List.map_cons, ih, List.mem_cons, Ne.symm h, false_or]
      by_cases hm : name ∈ rest.map (·.1) <;> simp [hm]

end Register

end DeliTalk
