/-
# Tables

A finite map from keys to values, Mathlib's `AList` with one type of values,
and the update of all its values at once, which drops the entries it gives
`none` for.

Key definitions: `Table`, `Table.filterMap`.
Key theorems: `Table.lookup_filterMap`.
-/
import Mathlib.Data.List.AList

/-- A map from `κ` to `α`. -/
abbrev Table (κ α : Type*) := AList fun _ : κ => α

namespace Table

variable {κ α β : Type*}

/-- An entry with its value changed, if it is kept. -/
def change (f : α → Option β) (e : Σ _ : κ, α) : Option (Σ _ : κ, β) := (f e.2).map fun b => ⟨e.1, b⟩

theorem keys_filterMap (f : α → Option β) (es : List (Σ _ : κ, α)) :
    (es.filterMap (change f)).keys.Sublist es.keys := by
  induction es with
  | nil => exact List.Sublist.slnil
  | cons e es ih =>
    rw [List.filterMap_cons]
    unfold change
    cases f e.2 with
    | none => exact ih.cons _
    | some b => exact ih.cons_cons _

/-- The values, each changed or dropped. -/
def filterMap (f : α → Option β) (t : Table κ α) : Table κ β where
  entries := t.entries.filterMap (change f)
  nodupKeys := (keys_filterMap f t.entries).nodup t.nodupKeys

variable [DecidableEq κ]

theorem dlookup_filterMap (f : α → Option β) (k : κ) {es : List (Σ _ : κ, α)} (h : es.NodupKeys) :
    (es.filterMap (change f)).dlookup k = (es.dlookup k).bind f := by
  induction es with
  | nil => rfl
  | cons e es ih =>
    have ih := ih (List.nodupKeys_cons.mp h).2
    have hne := (List.nodupKeys_cons.mp h).1
    obtain ⟨k', a⟩ := e
    rw [List.filterMap_cons]
    by_cases hk : k' = k
    · subst hk
      rw [List.dlookup_cons_eq]
      cases hf : f a with
      | none =>
        have h1 : change f ⟨k', a⟩ = none := congrArg (Option.map _) hf
        simp only [h1, ih, List.dlookup_eq_none.mpr hne, Option.bind_some, Option.bind_none, hf]
      | some b =>
        have h1 : change f ⟨k', a⟩ = some ⟨k', b⟩ := congrArg (Option.map _) hf
        simp only [h1, List.dlookup_cons_eq, Option.bind_some, hf]
    · have hcons : List.dlookup k ((⟨k', a⟩ : Σ _ : κ, α) :: es) = es.dlookup k :=
        List.dlookup_cons_ne es _ (Ne.symm hk)
      rw [hcons, ← ih]
      cases hf : f a with
      | none =>
        have h1 : change f ⟨k', a⟩ = none := congrArg (Option.map _) hf
        simp only [h1]
      | some b =>
        have h1 : change f ⟨k', a⟩ = some ⟨k', b⟩ := congrArg (Option.map _) hf
        simp only [h1]
        exact List.dlookup_cons_ne (es.filterMap (change f)) _ (Ne.symm hk)

@[simp] theorem lookup_filterMap (f : α → Option β) (t : Table κ α) (k : κ) :
    (t.filterMap f).lookup k = (t.lookup k).bind f := dlookup_filterMap f k t.nodupKeys

end Table
