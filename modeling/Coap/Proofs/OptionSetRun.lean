import Coap.Proofs.OptionSet

namespace Coap.OptionSet

/-- A change to a set, as data. -/
inductive Update where
  | insert (o : KnownOption)
  | erase (o : KnownOption)
  deriving DecidableEq, Repr

/-- The option that a change is about. -/
def Update.option : Update → KnownOption
  | insert o | erase o => o

/-- The last of some changes that is about an option. -/
def Update.last? (updates : List Update) (o : KnownOption) : Option Update :=
  (updates.filter (·.option = o)).getLast?

def update (s : OptionSet) : Update → OptionSet
  | .insert o => s.insert o
  | .erase o => s.erase o

/-- The set after some changes, one after the other. -/
def updateAll (s : OptionSet) (updates : List Update) : OptionSet := updates.foldl update s

theorem Update.last?_cons (u : Update) (updates : List Update) (o : KnownOption) :
    last? (u :: updates) o = (last? updates o).or (if u.option = o then some u else none) := by
  unfold last?
  by_cases h : u.option = o
  · simp [h, List.getLast?_cons]
  · simp [h]

theorem contains_update (s : OptionSet) (u : Update) (o : KnownOption) :
    (s.update u).contains o = if u.option = o then decide (u = .insert o) else s.contains o := by
  cases u with
  | insert p =>
    rw [update, contains_insert]
    by_cases h : p = o
    · simp [Update.option, h]
    · simp [Update.option, h, Ne.symm h]
  | erase p =>
    rw [update, contains_erase]
    by_cases h : p = o
    · simp [Update.option, h]
    · simp [Update.option, h, Ne.symm h]

theorem Registered.update {s : OptionSet} (h : s.Registered) (u : Update) :
    (s.update u).Registered := by
  cases u with
  | insert o => exact h.insert o
  | erase o => exact h.erase o

/-- What a run of changes leaves of an option: its last change, if there was one. -/
theorem contains_updateAll (s : OptionSet) (updates : List Update) (o : KnownOption) :
    (s.updateAll updates).contains o =
      match Update.last? updates o with
      | some u => decide (u = .insert o)
      | none => s.contains o := by
  induction updates generalizing s with
  | nil => rfl
  | cons u updates ih =>
    change ((s.update u).updateAll updates).contains o = _
    rw [ih, contains_update, Update.last?_cons]
    cases Update.last? updates o with
    | some v => rfl
    | none => by_cases h : u.option = o <;> simp [h]

theorem Registered.updateAll {s : OptionSet} (h : s.Registered) (updates : List Update) :
    (s.updateAll updates).Registered := by
  induction updates generalizing s with
  | nil => exact h
  | cons u updates ih => exact ih (h.update u)

theorem contains_updateAll_empty_iff {updates : List Update} {o : KnownOption} :
    (empty.updateAll updates).contains o = true ↔
      Update.last? updates o = some (.insert o) := by
  rw [contains_updateAll]
  cases Update.last? updates o with
  | none => simp [contains_empty]
  | some u => simp

/-- After any insertions and removals a set contains the options whose last change was an insertion,
lists exactly these, each once and in ascending order, and counts them; and sets with the same
options are the same. -/
theorem updateAll_faithful (updates : List Update) :
    let s := empty.updateAll updates
    (∀ o, s.contains o = true ↔ Update.last? updates o = some (.insert o)) ∧
    (∀ o, o ∈ s.toList ↔ s.contains o = true) ∧ s.toList.Nodup ∧
    s.toList.Pairwise (fun o p => o.number < p.number) ∧
    s.size = s.toList.length ∧
    (s.isEmpty = true ↔ ∀ o, s.contains o = false) ∧
    ∀ others, s = empty.updateAll others ↔
      ∀ o, s.contains o = (empty.updateAll others).contains o := by
  intro s
  -- no run sets a bit that belongs to no option, so that the members determine the word
  have hs : s.Registered := registered_empty.updateAll updates
  refine ⟨fun o => contains_updateAll_empty_iff, fun o => mem_toList, s.toList_nodup,
    s.toList_ascending, hs.size_eq, ?_, ?_⟩
  · rw [hs.isEmpty_iff, toList_eq_nil_iff]
  · intro others
    constructor
    · intro h o
      rw [h]
    · exact hs.ext (registered_empty.updateAll others)

end Coap.OptionSet
