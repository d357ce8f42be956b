import Coap.Engine.Basic

namespace Coap.Engine

variable {κ : Type}

/-- The search for a free id as the counter takes it, which moves on with every try. -/
def walk (taken : UInt16 → Bool) : Nat → UInt16 → Option UInt16 × UInt16
  | 0, counter => (none, counter)
  | tries + 1, counter =>
    if taken counter then walk taken tries (counter + 1) else (some counter, counter + 1)

/-- The ids from a given one up, which go on from zero after the largest. -/
def upFrom (id : UInt16) (n : Nat) : List UInt16 :=
  (List.range n).map fun k => id + UInt16.ofNat k

theorem add_ofNat_add (id : UInt16) (m n : Nat) :
    id + UInt16.ofNat (m + n) = id + UInt16.ofNat m + UInt16.ofNat n := by
  rw [UInt16.ofNat_add, UInt16.add_assoc]

theorem upFrom_add (id : UInt16) (m n : Nat) :
    upFrom id (m + n) = upFrom id m ++ upFrom (id + UInt16.ofNat m) n := by
  simp only [upFrom, List.range_add, List.map_append, List.map_map]
  congr 2
  funext k
  exact add_ofNat_add id m k

theorem upFrom_one (id : UInt16) : upFrom id 1 = [id] := by
  simp [upFrom]

theorem freeId?_eq_find? (taken : UInt16 → Bool) (tries : Nat) (id : UInt16) :
    freeId? taken tries id = (upFrom id tries).find? fun p => !taken p := by
  induction tries generalizing id with
  | zero => rfl
  | succ tries ih =>
    have hup : upFrom id (tries + 1) = id :: upFrom (id + 1) tries := by
      rw [Nat.add_comm, upFrom_add, upFrom_one]
      rfl
    rw [freeId?, hup, List.find?_cons, ih]
    cases taken id <;> rfl

/-- The id that is found is the first one on the way that is free. -/
theorem freeId?_eq_some_iff {taken : UInt16 → Bool} {tries : Nat} {id p : UInt16} :
    freeId? taken tries id = some p ↔ ∃ d < tries, p = id + UInt16.ofNat d ∧ taken p = false ∧
      ∀ k < d, taken (id + UInt16.ofNat k) = true := by
  rw [freeId?_eq_find?, upFrom, List.find?_map, Option.map_eq_some_iff]
  simp only [List.find?_range_eq_some, List.mem_range, Function.comp, Bool.not_eq_true',
    Bool.not_not]
  constructor
  · rintro ⟨d, ⟨hfree, hd, hbefore⟩, rfl⟩
    exact ⟨d, hd, rfl, hfree, hbefore⟩
  · rintro ⟨d, hd, rfl, hfree, hbefore⟩
    exact ⟨d, ⟨hfree, hd, hbefore⟩, rfl⟩

theorem filter_upFrom_found {taken : UInt16 → Bool} {id : UInt16} {d : Nat}
    (free : taken (id + UInt16.ofNat d) = false)
    (before : ∀ k < d, taken (id + UInt16.ofNat k) = true) :
    (upFrom id (d + 1)).filter (fun p => !taken p) = [id + UInt16.ofNat d] := by
  have hnone : (upFrom id d).filter (fun p => !taken p) = [] := by
    rw [List.filter_eq_nil_iff]
    intro p hp
    obtain ⟨k, hk, rfl⟩ := List.mem_map.mp hp
    rw [before k (List.mem_range.mp hk)]
    decide
  rw [upFrom_add, upFrom_one, List.filter_append, hnone, List.nil_append]
  exact List.filter_cons_of_pos (by rw [free]; rfl)

theorem length_upFrom (id : UInt16) (n : Nat) : (upFrom id n).length = n := by
  rw [upFrom, List.length_map, List.length_range]

/-- The way around from an id on the way of another one ends with what lies before it. -/
theorem upFrom_wrap (id : UInt16) {d : Nat} (hd : d ≤ 65536) :
    upFrom (id + UInt16.ofNat d) 65536 =
      upFrom (id + UInt16.ofNat d) (65536 - d) ++ upFrom id d := by
  have hback : id + UInt16.ofNat d + UInt16.ofNat (65536 - d) = id := by
    rw [← add_ofNat_add, Nat.add_sub_cancel' hd]
    exact UInt16.add_zero id
  have hparts := upFrom_add (id + UInt16.ofNat d) (65536 - d) d
  rw [hback, Nat.sub_add_cancel hd] at hparts
  exact hparts

theorem mem_upFrom (id p : UInt16) : p ∈ upFrom id 65536 := by
  have hp : id + UInt16.ofNat (p - id).toNat = p := by
    rw [UInt16.ofNat_toNat, UInt16.add_comm, UInt16.sub_add_cancel]
  exact List.mem_map.mpr ⟨(p - id).toNat, List.mem_range.mpr (p - id).toNat_lt, hp⟩

theorem nodup_upFrom (id : UInt16) : (upFrom id 65536).Nodup := by
  apply List.pairwise_map.mpr
  refine List.pairwise_lt_range.imp_of_mem ?_
  intro k d hk hd hlt he
  have hwords : UInt16.ofNat k = UInt16.ofNat d := (UInt16.add_right_inj id).mp he
  have hnumbers := congrArg UInt16.toNat hwords
  rw [UInt16.toNat_ofNat_of_lt' (List.mem_range.mp hk),
    UInt16.toNat_ofNat_of_lt' (List.mem_range.mp hd)] at hnumbers
  omega

/-- All ids are tried before the counter is where it started. -/
theorem freeId?_cycle_eq_none_iff {taken : UInt16 → Bool} {id : UInt16} :
    freeId? taken 65536 id = none ↔ ∀ p, taken p = true := by
  rw [freeId?_eq_find?, List.find?_eq_none]
  simp [mem_upFrom]

theorem walk_eq (taken : UInt16 → Bool) (tries : Nat) (counter : UInt16) :
    walk taken tries counter = (freeId? taken tries counter,
      match freeId? taken tries counter with
      | some id => id + 1
      | none => counter + UInt16.ofNat tries) := by
  induction tries generalizing counter with
  | zero => simp [walk, freeId?]
  | succ tries ih =>
    unfold walk freeId?
    split
    next =>
      rw [ih]
      split
      next => rfl
      next =>
        rw [Nat.add_comm tries 1, add_ofNat_add]
        rfl
    next => rfl

/-- The counter comes back to where it was if no id is free. -/
theorem nextId_eq_walk (e : Engine κ) :
    let walked := walk (fun id => (e.get? id).isSome) 65536 e.counter
    e.nextId = ⟨walked.1.elim (.error .noFreeId) .ok, { e with counter := walked.2 }, .none⟩ := by
  intro walked
  have hwalked : walked = _ := walk_eq _ _ _
  rw [hwalked]
  unfold nextId
  split
  next id hid => simp only [hid, Option.elim]
  next hnone =>
    have hcycle : e.counter + UInt16.ofNat 65536 = e.counter := UInt16.add_zero _
    simp only [hnone, Option.elim, hcycle]

end Coap.Engine
