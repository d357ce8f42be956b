namespace Coap

/-- A run of elements with a property is the longest one if what comes after it does not start with
another. -/
theorem takeWhile_append_stop {α : Type} {p : α → Bool} {l r : List α} (hl : ∀ a ∈ l, p a = true)
    (hr : ∀ a, r.head? = some a → p a = false) :
    (l ++ r).takeWhile p = l ∧ (l ++ r).dropWhile p = r := by
  rw [List.takeWhile_append_of_pos hl, List.dropWhile_append_of_pos hl]
  cases r with
  | nil => exact ⟨List.append_nil l, rfl⟩
  | cons a r =>
    have ha : ¬p a = true := ne_true_of_eq_false (hr a rfl)
    rw [List.takeWhile_cons_of_neg ha, List.dropWhile_cons_of_neg ha]
    exact ⟨List.append_nil l, rfl⟩

/-- What comes before the first separator, and what starts with it. -/
theorem takeWhile_ne_append {α : Type} [BEq α] [LawfulBEq α] {sep : α} {front : List α}
    (h : sep ∉ front) (rest : List α) :
    (front ++ sep :: rest).takeWhile (· != sep) = front ∧
      (front ++ sep :: rest).dropWhile (· != sep) = sep :: rest := by
  have hfront : ∀ a ∈ front, (a != sep) = true := by
    intro a ha
    exact bne_iff_ne.mpr fun he => h (he ▸ ha)
  have hsep : ∀ a, (sep :: rest).head? = some a → (a != sep) = false := by
    rintro a ⟨rfl⟩
    exact bne_self_eq_false sep
  exact takeWhile_append_stop hfront hsep

/-- A list is the longest run of elements with a property, and what comes after it. -/
theorem exists_takeWhile {α : Type} (p : α → Bool) (l : List α) : ∃ inside rest,
    l = inside ++ rest ∧ (∀ a ∈ inside, p a = true) ∧ ∀ a, rest.head? = some a → p a = false := by
  refine ⟨l.takeWhile p, l.dropWhile p, List.takeWhile_append_dropWhile.symm, ?_, ?_⟩
  · exact fun a ha => List.all_eq_true.mp List.all_takeWhile a ha
  · intro a ha
    have hhead := List.head?_dropWhile_not p l
    rw [ha] at hhead
    simpa using hhead

end Coap
