import Workflow.Value.Decoder

/-!
Reading what was written, field by field.

A reader undoes a writer when it gives back every piece of data from its value. Lists and fields pass
this on: a list is read back when its items are, and a field when what it holds is. A field that may be
left out is read back too, since the reader takes a missing field for what the writer leaves out: no
value, or the empty list. What stands under other keys does not matter.
-/

set_option autoImplicit false

namespace Workflow.Value

variable {α : Type} {read : Value → Option α} {write : α → Value}

/-! ## Scalars and lists -/

@[simp] theorem asString?_string (text : String) : asString? (.string text) = some text := by
  rw [asString?]

@[simp] theorem asBool?_bool (b : Bool) : asBool? (.bool b) = some b := by
  rw [asBool?]

@[simp] theorem asFields?_object (fields : List (String × Value)) :
    asFields? (.object fields) = some fields := rfl

/-- A natural number is read back: as an integer it is not negative. -/
@[simp] theorem asNat?_ofNat (n : Nat) : asNat? (ofNat n) = some n := by
  simp [asNat?, ofNat]

/-- Every 32-bit number is read back, the greatest too. -/
@[simp] theorem asUInt32?_ofUInt32 (n : UInt32) : asUInt32? (ofUInt32 n) = some n := by
  have bound : n.toNat < UInt32.size := n.toNat_lt_size
  have number : asNat? (ofUInt32 n) = some n.toNat := asNat?_ofNat n.toNat
  simp [asUInt32?, number, bound]

/-- A reader that undoes a writer undoes it item by item. -/
theorem mapM_map (back : ∀ x, read (write x) = some x) (xs : List α) :
    (xs.map write).mapM read = some xs := by
  induction xs with
  | nil => rfl
  | cons x rest ih => simp [back, ih]

/-- A list is read back when each of its items would be. -/
@[simp] theorem asList?_array (back : ∀ x, read (write x) = some x) (xs : List α) :
    asList? read (.array (xs.map write)) = some xs :=
  mapM_map back xs

/-- A list of texts is read back. -/
@[simp] theorem asList?_ofStrings (texts : List String) :
    asList? asString? (ofStrings texts) = some texts :=
  asList?_array (fun _ : String => rfl) texts

/-! ## Alternatives -/

/-- A bare name is an alternative with null as payload. -/
@[simp] theorem variant?_bare (name : String) : variant? (bare name) = some (name, .null) := rfl

/-- An alternative with a payload is split into its name and its payload. -/
@[simp] theorem variant?_tagged (name : String) (payload : Value) :
    variant? (tagged name payload) = some (name, payload) := rfl

/-- Among alternatives without payload, a bare name is looked up in their list. -/
@[simp] theorem oneOf?_bare (names : List (String × α)) (name : String) :
    oneOf? names (bare name) = Keyed.get? name names := rfl

/-- An alternative that needs a payload is none of those without. -/
theorem oneOf?_tagged {names : List (String × α)} {name : String}
    (absent : Keyed.get? name names = none) (payload : Value) :
    oneOf? names (tagged name payload) = none := by
  unfold oneOf?
  rw [variant?_tagged]
  -- With null for a payload the name is looked up and not found; with any other nothing is looked up.
  cases payload <;> first | exact absent | rfl

/-! ## Fields under other keys -/

section Skip

variable {key other : String} (apart : other ≠ key) (rest : List (String × Value))

include apart

/-- A field in front does not matter to another key. -/
theorem get?_cons_of_ne (v : Value) :
    Keyed.get? key ((other, v) :: rest) = Keyed.get? key rest := by
  simp [Keyed.get?, apart]

/-- A field that may be left out does not matter to another key, left out or not. -/
theorem get?_present_of_ne (o : Option Value) :
    Keyed.get? key (present other o ++ rest) = Keyed.get? key rest := by
  cases o with
  | none => rfl
  | some v => exact get?_cons_of_ne apart rest v

/-- A list that may be left out does not matter to another key, left out or not. -/
theorem get?_nonempty_of_ne (items : List Value) :
    Keyed.get? key (nonempty other items ++ rest) = Keyed.get? key rest := by
  cases items with
  | nil => rfl
  | cons v more => exact get?_cons_of_ne apart rest _

omit rest in
/-- Where nothing follows a field that may be left out, no other key is found. -/
theorem get?_last_of_ne (o : Option Value) : Keyed.get? key (present other o) = none := by
  simpa [Keyed.get?] using get?_present_of_ne apart [] o

omit rest in
/-- Where nothing follows a list that may be left out, no other key is found. -/
theorem get?_lastList_of_ne (items : List Value) : Keyed.get? key (nonempty other items) = none := by
  simpa [Keyed.get?] using get?_nonempty_of_ne apart [] items

/-- Fields under other keys are passed over. The lemmas below say so for each way to read a field and
each way in which the one in front of it was written. -/
@[simp] theorem required?_cons_of_ne (v : Value) :
    required? read key ((other, v) :: rest) = required? read key rest := by
  rw [required?, get?_cons_of_ne apart, ← required?]

@[simp] theorem required?_present_of_ne (o : Option Value) :
    required? read key (present other o ++ rest) = required? read key rest := by
  rw [required?, get?_present_of_ne apart, ← required?]

@[simp] theorem required?_nonempty_of_ne (items : List Value) :
    required? read key (nonempty other items ++ rest) = required? read key rest := by
  rw [required?, get?_nonempty_of_ne apart, ← required?]

@[simp] theorem optional?_cons_of_ne (v : Value) :
    optional? read key ((other, v) :: rest) = optional? read key rest := by
  rw [optional?, get?_cons_of_ne apart, ← optional?]

@[simp] theorem optional?_present_of_ne (o : Option Value) :
    optional? read key (present other o ++ rest) = optional? read key rest := by
  rw [optional?, get?_present_of_ne apart, ← optional?]

@[simp] theorem optional?_nonempty_of_ne (items : List Value) :
    optional? read key (nonempty other items ++ rest) = optional? read key rest := by
  rw [optional?, get?_nonempty_of_ne apart, ← optional?]

@[simp] theorem listed?_cons_of_ne (v : Value) :
    listed? read key ((other, v) :: rest) = listed? read key rest := by
  rw [listed?, get?_cons_of_ne apart, ← listed?]

@[simp] theorem listed?_present_of_ne (o : Option Value) :
    listed? read key (present other o ++ rest) = listed? read key rest := by
  rw [listed?, get?_present_of_ne apart, ← listed?]

@[simp] theorem listed?_nonempty_of_ne (items : List Value) :
    listed? read key (nonempty other items ++ rest) = listed? read key rest := by
  rw [listed?, get?_nonempty_of_ne apart, ← listed?]

end Skip

/-! ## Fields -/

section Fields

variable {key : String} {rest : List (String × Value)}

/-- A required field is read from what stands under its key. -/
@[simp] theorem required?_cons_self (v : Value) :
    required? read key ((key, v) :: rest) = read v := by
  simp [required?, Keyed.get?]

/-- A field that may be left out holds its value, and is missing where it has none. -/
theorem get?_present (absent : Keyed.get? key rest = none) (o : Option Value) :
    Keyed.get? key (present key o ++ rest) = o := by
  cases o with
  | none => exact absent
  | some v => simp [present, Keyed.get?]

/-- A field that is left out where there is no value. -/
theorem optional?_present (absent : Keyed.get? key rest = none)
    (back : ∀ x, read (write x) = some x) (full : ∀ x, write x ≠ .null) (o : Option α) :
    optional? read key (present key (o.map write) ++ rest) = some o := by
  cases o with
  | none => simp [optional?, present, absent]
  | some x => simp [optional?, present, Keyed.get?, full, back]

/-- A field that is left out may also be the last one. -/
theorem optional?_last (back : ∀ x, read (write x) = some x) (full : ∀ x, write x ≠ .null)
    (o : Option α) : optional? read key (present key (o.map write)) = some o := by
  have whole : optional? read key (present key (o.map write) ++ []) = some o :=
    optional?_present rfl back full o
  -- Behind the last field there is nothing, in which the key is not found.
  rwa [List.append_nil] at whole

/-- A field that holds null where there is no value. -/
theorem optional?_getD (back : ∀ x, read (write x) = some x) (full : ∀ x, write x ≠ .null)
    (o : Option α) :
    optional? read key ((key, (o.map write).getD .null) :: rest) = some o := by
  cases o with
  | none => simp [optional?, Keyed.get?]
  | some x => simp [optional?, Keyed.get?, full, back]

/-- A text that may be missing is read back from null or from itself. -/
@[simp] theorem optional?_ofStringOption (o : Option String) :
    optional? asString? key ((key, ofStringOption o) :: rest) = some o := by
  cases o <;> simp [optional?, ofStringOption, Keyed.get?]

/-- A list that is left out where it is empty. -/
theorem listed?_nonempty (absent : Keyed.get? key rest = none)
    (back : ∀ x, read (write x) = some x) (xs : List α) :
    listed? read key (nonempty key (xs.map write) ++ rest) = some xs := by
  cases xs with
  | nil => simp [listed?, nonempty, absent]
  | cons x more =>
    have items : asList? read (.array ((x :: more).map write)) = some (x :: more) :=
      asList?_array back (x :: more)
    simpa [listed?, nonempty, Keyed.get?] using items

/-- A list that is left out may also be the last field. -/
theorem listed?_last (back : ∀ x, read (write x) = some x) (xs : List α) :
    listed? read key (nonempty key (xs.map write)) = some xs := by
  have whole : listed? read key (nonempty key (xs.map write) ++ []) = some xs :=
    listed?_nonempty rfl back xs
  rwa [List.append_nil] at whole

end Fields

end Workflow.Value
