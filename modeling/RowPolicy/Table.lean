/-!
Tables keyed by strings. A table built by `insert` is sorted by key and holds each key once, so
its order never depends on the order in which the keys arrived.
-/
namespace RowPolicy

abbrev Table (α : Type) := List (String × α)

namespace Table

def get? {α : Type} : Table α → String → Option α
  | [], _ => none
  | (key, value) :: rest, k => if key = k then some value else get? rest k

def has {α : Type} (t : Table α) (k : String) : Bool := (get? t k).isSome

/-- All values under a key, also of a list that repeats it. -/
def getAll {α : Type} (t : Table α) (k : String) : List α :=
  t.filterMap fun (key, value) => if key = k then some value else none

/-- Put a value under a key, in place of any value it had. -/
def insert {α : Type} (k : String) (v : α) : Table α → Table α
  | [] => [(k, v)]
  | (key, value) :: rest =>
    if k = key then (k, v) :: rest
    else if k < key then (k, v) :: (key, value) :: rest
    else (key, value) :: insert k v rest

def ofList {α : Type} (pairs : List (String × α)) : Table α :=
  pairs.foldl (fun t p => insert p.1 p.2 t) []

def keys {α : Type} (t : Table α) : List String := t.map (·.1)

/-- Change the value under a key, starting from `start` when the key is new. A new key goes to
the end. -/
def update {α : Type} (k : String) (start : α) (f : α → α) : Table α → Table α
  | [] => [(k, f start)]
  | (key, value) :: rest =>
    if key = k then (key, f value) :: rest else (key, value) :: update k start f rest

@[simp] theorem get?_nil {α : Type} (k : String) : get? ([] : Table α) k = none := rfl
@[simp] theorem get?_cons {α : Type} (key : String) (value : α) (t : Table α) (k : String) :
    get? ((key, value) :: t) k = if key = k then some value else get? t k := rfl

theorem get?_insert {α : Type} (k : String) (v : α) (t : Table α) (k' : String) :
    get? (insert k v t) k' = if k = k' then some v else get? t k' := by
  induction t with
  | nil => simp [insert]
  | cons p t ih =>
    obtain ⟨key, value⟩ := p
    by_cases h : k = key
    · subst h; by_cases h' : k = k' <;> simp [insert, h']
    · by_cases hlt : k < key
      · simp [insert, h, hlt]
      · by_cases hk : key = k'
        · subst hk; simp [insert, h, hlt]
        · simp [insert, h, hlt, hk, ih]

theorem get?_update {α : Type} (k : String) (start : α) (f : α → α) (t : Table α) (k' : String) :
    get? (update k start f t) k' =
      if k = k' then some (f ((get? t k).getD start)) else get? t k' := by
  induction t with
  | nil => simp [update]
  | cons p t ih =>
    obtain ⟨key, value⟩ := p
    by_cases h : key = k
    · subst h; by_cases h' : key = k' <;> simp [update, h']
    · by_cases hk : key = k'
      · subst hk; simp [update, h, Ne.symm h]
      · simp [update, h, hk, ih]

end Table
end RowPolicy
