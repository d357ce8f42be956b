import Coap.Proofs.EngineRun
import Coap.Proofs.TransmitTime

namespace Coap

/-- The reports for a transaction after a number of retransmissions, each at its time from an
instant: the rest of the retransmissions, and then that it is given up. -/
inductive Config.Timetable (c : Config) (start : Instant) (first : Millis) :
    Nat → List (Instant × Occurrence) → Prop
  | stop (retries : Nat) : Timetable c start first retries []
  | retransmitted {retries : Nat} {now : Instant} {told : List (Instant × Occurrence)}
      (left : retries < c.maxRetransmit.toNat)
      (passed : (now.ticks - start.ticks).toNat = c.strategy.elapsed first (retries + 1))
      (near : now.ticks - start.ticks ≤ Instant.half)
      (rest : Timetable c start first (retries + 1) told) :
      Timetable c start first retries ((now, .retransmitted) :: told)
  | abandoned {retries : Nat} {now : Instant} (used : retries = c.maxRetransmit.toNat)
      (passed : (now.ticks - start.ticks).toNat = c.strategy.elapsed first (retries + 1))
      (near : now.ticks - start.ticks ≤ Instant.half) :
      Timetable c start first retries [(now, .abandoned)]

/-- What a configuration says about the reports for a transaction, each with its instant: how many
there are, and when the last ones come at the latest. -/
structure Config.InTime (c : Config) (start : Instant) (first : Millis)
    (told : List (Instant × Occurrence)) : Prop where
  reports : ∀ x ∈ told, x.2 = .retransmitted ∨ x.2 = .abandoned
  retransmitted : ∀ front now back, told = front ++ (now, .retransmitted) :: back →
    front.length < c.maxRetransmit.toNat ∧ now.ticks - start.ticks ≤ c.maxTransmitSpan ∧
      (first = c.strategy.max → front.length + 1 = c.maxRetransmit.toNat →
        now.ticks - start.ticks = c.maxTransmitSpan)
  abandoned : ∀ front now back, told = front ++ (now, .abandoned) :: back →
    front.length = c.maxRetransmit.toNat ∧ back = [] ∧
      (c.strategy.backoff = .exponential ∨ c.maxRetransmit ≠ 65535 →
        now.ticks - start.ticks ≤ c.maxTransmitWait ∧
          (first = c.strategy.max → now.ticks - start.ticks = c.maxTransmitWait)) ∧
      (c.strategy.backoff = .constant → c.maxRetransmit = 65535 →
        (now.ticks - start.ticks).toNat = first.toNat * 65536)

namespace Config.Timetable

variable {c : Config} {start : Instant} {first : Millis} {told : List (Instant × Occurrence)}

/-- The place of a report tells what it says and when it comes. -/
theorem report {retries : Nat} (h : c.Timetable start first retries told)
    {front back : List (Instant × Occurrence)} {now : Instant} {o : Occurrence}
    (heq : told = front ++ (now, o) :: back) :
    (now.ticks - start.ticks).toNat =
        c.strategy.elapsed first (retries + front.length + 1) ∧
      now.ticks - start.ticks ≤ Instant.half ∧
      (retries + front.length < c.maxRetransmit.toNat ∧ o = .retransmitted ∨
        retries + front.length = c.maxRetransmit.toNat ∧ o = .abandoned ∧ back = []) := by
  induction h generalizing front with
  | stop => simp at heq
  | @retransmitted retries later told left passed near rest ih =>
    cases front with
    | nil =>
      cases heq
      exact ⟨passed, near, Or.inl ⟨left, rfl⟩⟩
    | cons x front =>
      obtain ⟨_, heq⟩ := List.cons.inj heq
      have hplace : retries + 1 + front.length = retries + (x :: front).length := by
        rw [List.length_cons]
        omega
      rw [← hplace]
      exact ih heq
  | abandoned used passed near =>
    cases front with
    | nil =>
      cases heq
      exact ⟨passed, near, Or.inr ⟨used, rfl, rfl⟩⟩
    | cons x front => simp at heq

theorem inTime (h : c.Timetable start first 0 told) (hle : first ≤ c.strategy.max) :
    c.InTime start first told where
  reports := by
    rintro ⟨now, o⟩ hx
    obtain ⟨front, back, heq⟩ := List.append_of_mem hx
    obtain ⟨_, _, ⟨_, ho⟩ | ⟨_, ho, _⟩⟩ := h.report heq
    · exact Or.inl ho
    · exact Or.inr ho
  retransmitted := by
    intro front now back heq
    obtain ⟨passed, near, ⟨hlt, _⟩ | ⟨_, ho, _⟩⟩ := h.report heq
    · rw [Nat.zero_add] at passed hlt
      rw [UInt64.le_iff_toNat_le, passed] at near
      refine ⟨hlt, ?_, ?_⟩
      · rw [UInt64.le_iff_toNat_le, passed]
        exact Strategy.elapsed_le_maxTime hle hlt near
      · rintro rfl hall
        rw [hall] at passed near
        rw [← UInt64.toNat_inj, passed]
        exact Strategy.elapsed_max_eq near
    · cases ho
  abandoned := by
    intro front now back heq
    obtain ⟨passed, near, ⟨_, ho⟩ | ⟨hused, _, hback⟩⟩ := h.report heq
    · cases ho
    · rw [Nat.zero_add] at passed hused
      rw [hused] at passed
      rw [UInt64.le_iff_toNat_le, passed] at near
      refine ⟨hused, hback, ?_, ?_⟩
      · intro hcounted
        obtain ⟨hbound, hreached⟩ := elapsed_maxTransmitWait hle hcounted near
        refine ⟨?_, fun hfirst => ?_⟩
        · rw [UInt64.le_iff_toNat_le, passed]
          exact hbound
        · rw [← UInt64.toNat_inj, passed]
          exact hreached hfirst
      · intro hb hmany
        rw [passed, Strategy.elapsed_constant hb, hmany]
        rfl

end Config.Timetable

end Coap
