/-!
Lists of pairs that are read by key.

`Keyed` lists hold their keys in increasing order, so two of them with the same entries are equal;
`Store` holds one entry per key in no order that anybody may observe. Both are described by `get?`
alone: `get?_insert` says what an insertion does to every key.
-/

set_option autoImplicit false

namespace Workflow

namespace Keyed

variable {α : Type}

/-- The value under a key. -/
def get? (key : String) : List (String × α) → Option α
  | [] => none
  | (k, v) :: rest => if k = key then some v else get? key rest

/-- Put a value under a key, keeping the keys in increasing order. -/
def insert (key : String) (value : α) : List (String × α) → List (String × α)
  | [] => [(key, value)]
  | (k, v) :: rest =>
    if k = key then (key, value) :: rest
    else if key < k then (key, value) :: (k, v) :: rest
    else (k, v) :: insert key value rest

/-- The entries of a list of pairs in key order; a later pair replaces an earlier one. -/
def ofList (pairs : List (String × α)) : List (String × α) :=
  pairs.foldl (fun entries p => insert p.1 p.2 entries) []

/-- An insertion changes its own key and no other. -/
theorem get?_insert (key other : String) (value : α) (entries : List (String × α)) :
    get? other (insert key value entries)
      = if key = other then some value else get? other entries := by
  induction entries with
  | nil => rfl
  | cons p rest ih =>
    obtain ⟨k, v⟩ := p
    grind [insert, get?]

@[simp] theorem get?_insert_self (key : String) (value : α) (entries : List (String × α)) :
    get? key (insert key value entries) = some value := by
  simp [get?_insert]

theorem mem_of_get? {key : String} {value : α} {entries : List (String × α)}
    (h : get? key entries = some value) : (key, value) ∈ entries := by
  induction entries with
  | nil => cases h
  | cons p rest ih =>
    obtain ⟨k, v⟩ := p
    by_cases hk : k = key
    · simp only [get?, hk, ↓reduceIte, Option.some.injEq] at h
      simp [hk, h]
    · simp only [get?, hk, ↓reduceIte] at h
      exact List.mem_cons_of_mem _ (ih h)

/-- An insertion adds its own entry and no other. -/
theorem mem_of_mem_insert {key : String} {value : α} {entries : List (String × α)} {p : String × α}
    (h : p ∈ insert key value entries) : p = (key, value) ∨ p ∈ entries := by
  induction entries with
  | nil => exact .inl (List.mem_singleton.mp h)
  | cons q rest ih =>
    obtain ⟨k, v⟩ := q
    grind [insert]

theorem mem_of_mem_ofList {pairs : List (String × α)} {p : String × α} (h : p ∈ ofList pairs) :
    p ∈ pairs := by
  have added : ∀ entries, p ∈ pairs.foldl (fun entries p => insert p.1 p.2 entries) entries →
      p ∈ entries ∨ p ∈ pairs := by
    clear h
    induction pairs with
    | nil => exact fun _ member => .inl member
    | cons q rest ih =>
      intro entries member
      rcases ih _ member with early | late
      · rcases mem_of_mem_insert early with rfl | old
        · exact .inr List.mem_cons_self
        · exact .inl old
      · exact .inr (List.mem_cons_of_mem _ late)
  exact (added [] h).resolve_left List.not_mem_nil

end Keyed

/-- One entry per key. -/
abbrev Store (κ α : Type) := List (κ × α)

namespace Store

variable {κ α : Type} [DecidableEq κ]

/-- The value under a key. -/
def get? (key : κ) : Store κ α → Option α
  | [] => none
  | (k, v) :: rest => if k = key then some v else get? key rest

/-- Take a key away. -/
def erase (key : κ) (store : Store κ α) : Store κ α :=
  store.filter fun p => p.1 ≠ key

/-- Put a value under a key. -/
def insert (key : κ) (value : α) (store : Store κ α) : Store κ α :=
  (key, value) :: erase key store

/-- Whether a key is there. -/
def contains (key : κ) (store : Store κ α) : Bool :=
  (get? key store).isSome

/-- Erasing a key changes that key and no other. -/
theorem get?_erase (key other : κ) (store : Store κ α) :
    get? other (erase key store) = if key = other then none else get? other store := by
  induction store with
  | nil => simp [erase, get?]
  | cons p rest ih =>
    obtain ⟨k, v⟩ := p
    grind [erase, get?]

/-- An insertion changes its own key and no other. -/
theorem get?_insert (key other : κ) (value : α) (store : Store κ α) :
    get? other (insert key value store) = if key = other then some value else get? other store := by
  by_cases h : key = other <;> simp [insert, get?, get?_erase, h]

@[simp] theorem get?_insert_self (key : κ) (value : α) (store : Store κ α) :
    get? key (insert key value store) = some value := by
  simp [get?_insert]

theorem get?_insert_of_ne {key other : κ} (h : key ≠ other) (value : α) (store : Store κ α) :
    get? other (insert key value store) = get? other store := by
  simp [get?_insert, h]

end Store

end Workflow
