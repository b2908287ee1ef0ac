/-!
# Named entries

A list of name–value pairs read as a table that keeps its order.  `get?` answers with the first
entry of a name; `put` replaces the value of an entry that is there and appends one that is not.

* `get?_put_self`, `get?_put_of_ne`: `put` changes the answer for its own name and for no other.
* `exchange_eq`: `exchange` is `put` that also tells what it replaces.
* `names_put`: a name that is listed keeps its place, a new name goes to the end; so
  `nodup_names_put` carries "no name twice" through every `put`.
-/

namespace JsonShape.Entries

variable {α : Type}

/-- The names of the entries, in order. -/
def names (entries : List (String × α)) : List String := entries.map Prod.fst

/-- The value of the first entry that bears a name. -/
def get? : List (String × α) → String → Option α
  | [], _ => none
  | (name, value) :: rest, wanted => if name = wanted then some value else get? rest wanted

/-- The table with a name set to a value. -/
def put : List (String × α) → String → α → List (String × α)
  | [], name, value => [(name, value)]
  | (other, old) :: rest, name, value =>
    if other = name then (name, value) :: rest else (other, old) :: put rest name value

/-- The table with a name set to a value, and the value that the name had before. -/
def exchange : List (String × α) → String → α → Option α × List (String × α)
  | [], name, value => (none, [(name, value)])
  | (other, old) :: rest, name, value =>
    if other = name then (some old, (name, value) :: rest)
    else
      let exchanged := exchange rest name value
      (exchanged.1, (other, old) :: exchanged.2)

/-- The table after several entries are put into it in order. -/
def putAll (entries additions : List (String × α)) : List (String × α) :=
  additions.foldl (fun table entry => put table entry.1 entry.2) entries

/-- The table of a list of entries: the last value of each name, at the place of its first. -/
def collect (entries : List (String × α)) : List (String × α) := putAll [] entries

@[simp] theorem names_nil : names ([] : List (String × α)) = [] := rfl

@[simp] theorem names_cons (entry : String × α) (rest : List (String × α)) :
    names (entry :: rest) = entry.1 :: names rest := rfl

theorem get?_put_self (entries : List (String × α)) (name : String) (value : α) :
    get? (put entries name value) name = some value := by
  induction entries with
  | nil => simp [put, get?]
  | cons entry rest ih =>
    obtain ⟨other, old⟩ := entry
    by_cases h : other = name <;> simp [put, get?, h, ih]

theorem get?_put_of_ne (entries : List (String × α)) {name wanted : String} (value : α)
    (h : name ≠ wanted) : get? (put entries name value) wanted = get? entries wanted := by
  induction entries with
  | nil => simp [put, get?, h]
  | cons entry rest ih =>
    obtain ⟨other, old⟩ := entry
    by_cases ho : other = name
    · subst ho; simp [put, get?, h]
    · simp only [put, if_neg ho, get?, ih]

theorem exchange_eq (entries : List (String × α)) (name : String) (value : α) :
    exchange entries name value = (get? entries name, put entries name value) := by
  induction entries with
  | nil => rfl
  | cons entry rest ih =>
    obtain ⟨other, old⟩ := entry
    by_cases h : other = name
    · simp only [exchange, get?, put, if_pos h]
    · simp only [exchange, get?, put, if_neg h, ih]

theorem get?_eq_none_iff (entries : List (String × α)) (name : String) :
    get? entries name = none ↔ name ∉ names entries := by
  induction entries with
  | nil => simp [get?]
  | cons entry rest ih =>
    obtain ⟨other, old⟩ := entry
    by_cases h : other = name
    · simp [get?, h]
    · simp [get?, h, ih, Ne.symm h]

theorem names_put (entries : List (String × α)) (name : String) (value : α) :
    names (put entries name value) =
      if name ∈ names entries then names entries else names entries ++ [name] := by
  induction entries with
  | nil => simp [put, names]
  | cons entry rest ih =>
    obtain ⟨other, old⟩ := entry
    by_cases h : other = name
    · subst h; simp [put]
    · by_cases hm : name ∈ names rest <;> simp [put, h, ih, hm, Ne.symm h]

theorem nodup_names_put (entries : List (String × α)) (name : String) (value : α)
    (h : (names entries).Nodup) : (names (put entries name value)).Nodup := by
  rw [names_put]
  split
  · exact h
  · rename_i hm
    rw [List.nodup_append]
    refine ⟨h, by simp, ?_⟩
    intro a ha b hb hab
    simp at hb
    exact hm (by rw [← hb, ← hab]; exact ha)

theorem nodup_names_exchange (entries : List (String × α)) (name : String) (value : α)
    (h : (names entries).Nodup) : (names (exchange entries name value).2).Nodup := by
  rw [exchange_eq]
  exact nodup_names_put entries name value h

theorem nodup_names_putAll (entries additions : List (String × α))
    (h : (names entries).Nodup) : (names (putAll entries additions)).Nodup := by
  induction additions generalizing entries with
  | nil => exact h
  | cons entry rest ih => exact ih _ (nodup_names_put entries entry.1 entry.2 h)

end JsonShape.Entries
