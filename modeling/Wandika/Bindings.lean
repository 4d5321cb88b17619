/-!
# Bindings

Names with what they are bound to, each name once, in the order in which they were first bound.

* `Bindings.get?`, `Bindings.has`, `Bindings.names`;
* `Bindings.put`: binds a name anew, or changes what it is bound to.
-/

namespace Wandika

/-- Names and what they are bound to. -/
abbrev Bindings (α : Type) := List (String × α)

namespace Bindings

variable {α : Type}

/-- What a name is bound to. -/
def get? (bs : Bindings α) (name : String) : Option α :=
  bs.lookup name

/-- Whether a name is bound. -/
def has (bs : Bindings α) (name : String) : Bool :=
  (bs.get? name).isSome

/-- The names that are bound. -/
def names (bs : Bindings α) : List String :=
  bs.map (·.1)

/-- Binds a name. A name that is bound already keeps its place. -/
def put : Bindings α → String → α → Bindings α
  | [], name, value => [(name, value)]
  | (n, v) :: rest, name, value =>
      if name = n then (n, value) :: rest else (n, v) :: put rest name value

@[simp] theorem get?_nil (name : String) : get? ([] : Bindings α) name = none := rfl

theorem get?_cons (n : String) (v : α) (bs : Bindings α) (name : String) :
    get? ((n, v) :: bs) name = if name = n then some v else get? bs name := by
  by_cases h : name = n
  · simp [get?, h]
  · have : (name == n) = false := by simpa using h
    simp [get?, List.lookup_cons, this, h]

theorem get?_put (bs : Bindings α) (name other : String) (value : α) :
    (bs.put name value).get? other = if other = name then some value else bs.get? other := by
  induction bs with
  | nil => simp [put, get?_cons]
  | cons b bs ih =>
    obtain ⟨n, v⟩ := b
    by_cases h : name = n
    · subst h
      by_cases h' : other = name <;> simp [put, get?_cons, h']
    · by_cases h' : other = n
      · subst h'
        simp [put, h, get?_cons, Ne.symm h]
      · simp [put, h, get?_cons, h', ih]

@[simp] theorem get?_put_self (bs : Bindings α) (name : String) (value : α) :
    (bs.put name value).get? name = some value := by
  simp [get?_put]

theorem get?_put_of_ne (bs : Bindings α) {name other : String} (value : α) (h : other ≠ name) :
    (bs.put name value).get? other = bs.get? other := by
  simp [get?_put, h]

end Bindings

end Wandika
