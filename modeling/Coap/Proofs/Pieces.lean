import Coap.Proofs.LongestRun
import Coap.Separated

namespace Coap.Separated

variable {α : Type} {sep : α} {l kept : List α}

/-- What is left of a list without all separators at its front and then without one at its end. -/
inductive Trims (sep : α) : List α → List α → Prop
  | kept {lead rest : List α} (separators : ∀ a ∈ lead, a = sep) (first : rest.head? ≠ some sep)
      (last : rest.getLast? ≠ some sep) : Trims sep (lead ++ rest) rest
  | cut {lead rest : List α} (separators : ∀ a ∈ lead, a = sep)
      (first : (rest ++ [sep]).head? ≠ some sep) : Trims sep (lead ++ (rest ++ [sep])) rest

theorem Trims.head?_ne (h : Trims sep l kept) : kept.head? ≠ some sep := by
  cases h with
  | kept separators first last => exact first
  | cut separators first =>
    intro hs
    rw [List.head?_append, hs] at first
    exact first rfl

/-- A list from which nothing is taken does not end with a separator. -/
theorem Trims.getLast?_ne (h : Trims sep l kept) (whole : l = kept) :
    kept.getLast? ≠ some sep := by
  cases h with
  | kept separators first last => exact last
  | cut separators first =>
    have hlength := congrArg List.length whole
    simp only [List.length_append, List.length_singleton] at hlength
    omega

theorem intercalate_concat {lists : List (List α)} (h : lists ≠ []) (last : List α) :
    [sep].intercalate (lists ++ [last]) = [sep].intercalate lists ++ sep :: last := by
  induction lists with
  | nil => exact absurd rfl h
  | cons first more ih =>
    cases more with
    | nil => simp
    | cons second more =>
      have ih := ih (List.cons_ne_nil second more)
      rw [List.cons_append, List.intercalate_cons_of_ne_nil (by simp), ih,
        List.intercalate_cons_of_ne_nil (List.cons_ne_nil second more)]
      simp only [List.append_assoc]

theorem intercalate_ne_nil {lists : List (List α)} (h : lists ≠ [])
    (hfirst : lists.head? ≠ some []) : [sep].intercalate lists ≠ [] := by
  cases lists with
  | nil => exact absurd rfl h
  | cons first more =>
    cases first with
    | nil => exact absurd rfl hfirst
    | cons a first =>
      rw [List.intercalate_cons_cons_left]
      exact List.cons_ne_nil a _

theorem head?_intercalate_ne {lists : List (List α)} (hno : ∀ list ∈ lists, sep ∉ list)
    (hfirst : lists.head? ≠ some []) : ([sep].intercalate lists).head? ≠ some sep := by
  cases lists with
  | nil => exact nofun
  | cons first more =>
    cases first with
    | nil => exact absurd rfl hfirst
    | cons a first =>
      rw [List.intercalate_cons_cons_left, List.head?_cons]
      rintro ⟨rfl⟩
      exact hno _ List.mem_cons_self List.mem_cons_self

theorem getLast?_intercalate_ne {lists : List (List α)} (hno : ∀ list ∈ lists, sep ∉ list)
    (hlast : lists.getLast? ≠ some []) : ([sep].intercalate lists).getLast? ≠ some sep := by
  cases hlists : lists.getLast? with
  | none =>
    obtain rfl := List.getLast?_eq_none_iff.mp hlists
    exact nofun
  | some last =>
    obtain ⟨front, rfl⟩ := List.getLast?_eq_some_iff.mp hlists
    have hsep : sep ∉ last := hno last (by simp)
    cases hend : last.getLast? with
    | none =>
      obtain rfl := List.getLast?_eq_none_iff.mp hend
      exact absurd hlists hlast
    | some a =>
      have ha : a ≠ sep := fun he => hsep (he ▸ List.mem_of_getLast? hend)
      have hjoined : ([sep].intercalate (front ++ [last])).getLast? = some a := by
        by_cases hfront : front = []
        · rw [hfront, List.nil_append, List.intercalate_singleton, hend]
        · rw [intercalate_concat hfront, List.getLast?_append, List.getLast?_cons, hend]
          rfl
      rw [hjoined]
      exact fun he => ha (Option.some.inj he)

theorem length_le_intercalate {lists : List (List α)} {list : List α} (h : list ∈ lists) :
    list.length ≤ ([sep].intercalate lists).length := by
  induction lists with
  | nil => cases h
  | cons first more ih =>
    by_cases hmore : more = []
    · subst hmore
      obtain rfl := List.mem_singleton.mp h
      exact Nat.le_of_eq (congrArg List.length List.intercalate_singleton.symm)
    · rw [List.intercalate_cons_of_ne_nil hmore, List.length_append, List.length_append]
      rcases List.mem_cons.mp h with rfl | h
      · omega
      · have hlist := ih h
        omega

variable [BEq α]

theorem pieces_eq_splitOn (sep : α) (l : List α) : pieces sep l = l.splitOn sep := by
  induction l with
  | nil => rfl
  | cons a l ih =>
    rw [pieces, List.splitOn_cons_eq_if_modifyHead, ih]
    split
    next => rfl
    next =>
      cases hsplit : l.splitOn sep with
      | nil => exact absurd hsplit (List.splitOn_ne_nil sep l)
      | cons piece more => rfl

theorem trimmedPieces_of_trim_eq_nil (h : trim sep l = []) : trimmedPieces sep l = [] := by
  rw [trimmedPieces, h]

theorem trimmedPieces_of_trim_ne_nil (h : trim sep l ≠ []) :
    trimmedPieces sep l = (trim sep l).splitOn sep := by
  rw [← pieces_eq_splitOn, trimmedPieces]
  cases htrim : trim sep l with
  | nil => exact absurd htrim h
  | cons a rest => rfl

theorem length_trim_le (sep : α) (l : List α) : (trim sep l).length ≤ l.length := by
  have hdrop : (l.dropWhile (· == sep)).length ≤ l.length :=
    (List.dropWhile_sublist (· == sep)).length_le
  have hlast := (List.dropLast_sublist (l.dropWhile (· == sep))).length_le
  rw [trim]
  split
  · omega
  · omega

variable [LawfulBEq α]

theorem dropWhile_separators {lead rest : List α} (separators : ∀ a ∈ lead, a = sep)
    (first : rest.head? ≠ some sep) : (lead ++ rest).dropWhile (· == sep) = rest := by
  have hlead : ∀ a ∈ lead, (a == sep) = true := fun a ha => beq_iff_eq.mpr (separators a ha)
  have hrest : ∀ a, rest.head? = some a → (a == sep) = false := by
    intro a ha
    rw [beq_eq_false_iff_ne]
    rintro rfl
    exact first ha
  exact (takeWhile_append_stop hlead hrest).2

theorem any_beq_iff {a? : Option α} : a?.any (· == sep) = true ↔ a? = some sep := by
  cases a? <;> simp

theorem Trims.trim_eq (h : Trims sep l kept) : trim sep l = kept := by
  cases h with
  | kept separators first last =>
    rw [trim, dropWhile_separators separators first]
    exact if_neg fun hany => last (any_beq_iff.mp hany)
  | cut separators first =>
    have hlast : (kept ++ [sep]).getLast?.any (· == sep) = true := by
      rw [any_beq_iff, List.getLast?_concat]
    rw [trim, dropWhile_separators separators first, if_pos hlast, List.dropLast_concat]

theorem exists_trims (sep : α) (l : List α) : ∃ kept, Trims sep l kept := by
  obtain ⟨lead, rest, rfl, hlead, hrest⟩ := exists_takeWhile (· == sep) l
  have separators : ∀ a ∈ lead, a = sep := fun a ha => beq_iff_eq.mp (hlead a ha)
  have first : rest.head? ≠ some sep := fun hs => by simpa using hrest sep hs
  by_cases last : rest.getLast? = some sep
  · obtain ⟨kept, rfl⟩ := List.getLast?_eq_some_iff.mp last
    exact ⟨kept, .cut separators first⟩
  · exact ⟨rest, .kept separators first last⟩

theorem trims_iff : Trims sep l kept ↔ trim sep l = kept := by
  refine ⟨Trims.trim_eq, ?_⟩
  rintro rfl
  obtain ⟨kept, h⟩ := exists_trims sep l
  rwa [h.trim_eq]

theorem trim_eq_self (first : l.head? ≠ some sep) (last : l.getLast? ≠ some sep) :
    trim sep l = l := by
  have h : Trims sep ([] ++ l) l := .kept (fun a ha => nomatch ha) first last
  exact h.trim_eq

theorem notMem_of_mem_pieces {piece : List α} (h : piece ∈ pieces sep l) : sep ∉ piece := by
  induction l generalizing piece with
  | nil =>
    obtain rfl := List.mem_singleton.mp h
    exact List.not_mem_nil
  | cons a l ih =>
    rw [pieces] at h
    split at h
    next =>
      rcases List.mem_cons.mp h with rfl | h
      · exact List.not_mem_nil
      · exact ih h
    next hne =>
      have ha : sep ≠ a := fun hs => hne (beq_iff_eq.mpr hs.symm)
      split at h
      next =>
        obtain rfl := List.mem_singleton.mp h
        exact fun hm => ha (List.mem_singleton.mp hm)
      next first more hpieces =>
        rcases List.mem_cons.mp h with rfl | h
        · have hfirst : sep ∉ first := ih (by rw [hpieces]; exact List.mem_cons_self)
          exact fun hm => (List.mem_cons.mp hm).elim ha hfirst
        · exact ih (by rw [hpieces]; exact List.mem_cons_of_mem first h)

theorem notMem_of_mem_trimmedPieces {piece : List α} (h : piece ∈ trimmedPieces sep l) :
    sep ∉ piece := by
  by_cases htrim : trim sep l = []
  · rw [trimmedPieces_of_trim_eq_nil htrim] at h
    cases h
  · rw [trimmedPieces_of_trim_ne_nil htrim, ← pieces_eq_splitOn] at h
    exact notMem_of_mem_pieces h

theorem intercalate_trimmedPieces (sep : α) (l : List α) :
    [sep].intercalate (trimmedPieces sep l) = trim sep l := by
  by_cases htrim : trim sep l = []
  · rw [trimmedPieces_of_trim_eq_nil htrim, htrim]
    rfl
  · rw [trimmedPieces_of_trim_ne_nil htrim, List.intercalate_splitOn]

theorem length_le_of_mem_trimmedPieces {piece : List α} (h : piece ∈ trimmedPieces sep l) :
    piece.length ≤ l.length := by
  have hjoined : piece.length ≤ ([sep].intercalate (trimmedPieces sep l)).length :=
    length_le_intercalate h
  rw [intercalate_trimmedPieces] at hjoined
  exact Nat.le_trans hjoined (length_trim_le sep l)

/-- Lists that are joined come apart again exactly if none holds the separator and neither the first
nor the last is empty. -/
theorem trimmedPieces_intercalate_iff {lists : List (List α)} :
    trimmedPieces sep ([sep].intercalate lists) = lists ↔
      (∀ list ∈ lists, sep ∉ list) ∧ lists.head? ≠ some [] ∧ lists.getLast? ≠ some [] := by
  constructor
  · intro h
    have htrim := intercalate_trimmedPieces sep ([sep].intercalate lists)
    rw [h] at htrim
    have htrims := trims_iff.mpr htrim.symm
    refine ⟨fun list hm => notMem_of_mem_trimmedPieces (h ▸ hm), ?_, ?_⟩
    · intro hfirst
      obtain ⟨more, rfl⟩ := List.head?_eq_some_iff.mp hfirst
      cases more with
      | nil => cases h
      | cons second more => exact htrims.head?_ne (by simp)
    · intro hlast
      obtain ⟨front, rfl⟩ := List.getLast?_eq_some_iff.mp hlast
      by_cases hfront : front = []
      · subst hfront
        cases h
      · have hends := htrims.getLast?_ne rfl
        rw [intercalate_concat hfront] at hends
        exact hends List.getLast?_concat
  · rintro ⟨hno, hfirst, hlast⟩
    have htrim := trim_eq_self (head?_intercalate_ne hno hfirst) (getLast?_intercalate_ne hno hlast)
    by_cases hlists : lists = []
    · subst hlists
      rfl
    · have hjoined : [sep].intercalate lists ≠ [] := intercalate_ne_nil hlists hfirst
      rw [trimmedPieces_of_trim_ne_nil (by rwa [htrim]), htrim]
      exact List.splitOn_intercalate sep hno hlists

end Coap.Separated
