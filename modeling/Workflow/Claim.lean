import Workflow.Keyed

/-!
Claims on keys. Several parties claim a key each, one after another, and a key may be claimed once.
`clash?` finds the first claim on a key that was taken, with the party that had taken it.
-/

set_option autoImplicit false

namespace Workflow.Claim

variable {κ ω : Type} [DecidableEq κ]

/-- The first claim on a key that is taken, given the claims made before. -/
def clashAfter (taken : Store κ ω) : List (κ × ω) → Option (κ × ω × ω)
  | [] => none
  | (key, owner) :: rest =>
    match Store.get? key taken with
    | some first => some (key, first, owner)
    | none => clashAfter ((key, owner) :: taken) rest

/-- The first claim on a key that an earlier claim has taken: the key and the two owners. -/
def clash? (claims : List (κ × ω)) : Option (κ × ω × ω) :=
  clashAfter [] claims

theorem get?_eq_none_iff {key : κ} {taken : Store κ ω} :
    Store.get? key taken = none ↔ key ∉ taken.map Prod.fst := by
  induction taken with
  | nil => simp [Store.get?]
  | cons p rest ih =>
    obtain ⟨k, v⟩ := p
    by_cases hk : k = key
    · simp [Store.get?, hk]
    · simp [Store.get?, hk, ih, Ne.symm hk]

theorem clashAfter_eq_none_iff (taken : Store κ ω) (claims : List (κ × ω)) :
    clashAfter taken claims = none
      ↔ (claims.map Prod.fst).Nodup ∧ ∀ key ∈ claims.map Prod.fst, key ∉ taken.map Prod.fst := by
  induction claims generalizing taken with
  | nil => simp [clashAfter]
  | cons p rest ih =>
    obtain ⟨key, owner⟩ := p
    cases h : Store.get? key taken with
    | some first =>
      have hmem : key ∈ taken.map Prod.fst := by
        by_cases hm : key ∈ taken.map Prod.fst
        · exact hm
        · rw [get?_eq_none_iff.mpr hm] at h
          cases h
      simp only [clashAfter, h, reduceCtorEq, List.map_cons, List.mem_cons, forall_eq_or_imp,
        false_iff, not_and]
      exact fun _ hn => absurd hmem hn
    | none =>
      have hfree := get?_eq_none_iff.mp h
      simp only [clashAfter, h, ih, List.map_cons, List.nodup_cons, List.mem_cons,
        forall_eq_or_imp, not_or]
      constructor
      · rintro ⟨hnd, hall⟩
        exact ⟨⟨fun hk => (hall key hk).1 rfl, hnd⟩, hfree, fun k hk => (hall k hk).2⟩
      · rintro ⟨⟨hk, hnd⟩, _, hall⟩
        exact ⟨hnd, fun k hm => ⟨fun he => hk (he ▸ hm), hall k hm⟩⟩

/-- No claim clashes exactly when no key is claimed twice. -/
theorem clash?_eq_none_iff (claims : List (κ × ω)) :
    clash? claims = none ↔ (claims.map Prod.fst).Nodup := by
  simp [clash?, clashAfter_eq_none_iff]

end Workflow.Claim
