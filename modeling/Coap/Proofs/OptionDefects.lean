import Coap.Proofs.MessageSlots
import Coap.Proofs.OptionSeries

namespace Coap.WireOption

/-- An option that a message may carry: a known one with a length in its range, or an unknown one
with an even number. -/
def Acceptable (o : WireOption) : Prop :=
  (∃ k : KnownOption, o.number = k.number ∧ k.minLength ≤ o.value.length ∧
    o.value.length ≤ k.maxLength) ∨
  (∀ k : KnownOption, k.number ≠ o.number) ∧ o.number % 2 = 0

/-- Why a message may not carry an option. -/
inductive Refused (o : WireOption) : OptionError → Prop
  | critical (hu : ∀ k : KnownOption, k.number ≠ o.number) (h : o.number % 2 = 1) :
      Refused o (.unrecognizedCritical o.number)
  | length {k : KnownOption} (hk : o.number = k.number)
      (h : o.value.length < k.minLength ∨ k.maxLength < o.value.length) :
      Refused o (.valueLength o.number o.value.length)

/-- The first bad option, after acceptable ones: it cannot be read, or it is refused. -/
inductive FirstBad : Nat → Bytes → OptionError → Prop
  | broken {prev : Nat} {src : Bytes} {e : OptionError} (h : Broken prev src e) :
      FirstBad prev src e
  | refused {prev : Nat} {o : WireOption} {bytes : Bytes} {e : OptionError} (ht : Tlv prev o bytes)
      (h : Refused o e) (rest : Bytes) : FirstBad prev (bytes ++ rest) e
  | later {prev : Nat} {o : WireOption} {bytes rest : Bytes} {e : OptionError}
      (ht : Tlv prev o bytes) (ha : o.Acceptable) (h : FirstBad o.number rest e) :
      FirstBad prev (bytes ++ rest) e

theorem Acceptable.defect {o : WireOption} (h : o.Acceptable) : o.defect? = none := by
  unfold defect?
  rcases h with ⟨k, hk, hmin, hmax⟩ | ⟨hu, he⟩
  · rw [hk, KnownOption.ofNumber?_number]
    simp [KnownOption.admits, hmin, hmax]
  · rw [KnownOption.ofNumber?_eq_none.mpr hu]
    simp [isCritical, he]

theorem Refused.defect {o : WireOption} {e : OptionError} (h : o.Refused e) :
    o.defect? = some e := by
  unfold defect?
  cases h with
  | critical hu h =>
    rw [KnownOption.ofNumber?_eq_none.mpr hu]
    simp [isCritical, h]
  | @length k hk h =>
    have ha := KnownOption.admits_eq_false_iff.mpr h
    rw [hk, KnownOption.ofNumber?_number]
    simp [ha]

theorem acceptable_or_refused (o : WireOption) : o.Acceptable ∨ ∃ e, o.Refused e := by
  rcases Message.known_or_unknown o with ⟨k, hk⟩ | hu
  · by_cases h : k.minLength ≤ o.value.length ∧ o.value.length ≤ k.maxLength
    · exact Or.inl (Or.inl ⟨k, hk, h⟩)
    · exact Or.inr ⟨_, .length hk (by omega)⟩
  · by_cases h : o.number % 2 = 0
    · exact Or.inl (Or.inr ⟨hu, h⟩)
    · exact Or.inr ⟨_, .critical hu (by omega)⟩

/-- The defect that a walk comes to first: that of an option it has read, or where it stopped. -/
def Walk.firstDefect (w : Walk) : Option OptionError := (w.options.findSome? defect?).or w.defect

theorem firstDefect_of_tlv {prev : Nat} {o : WireOption} {bytes : Bytes} (h : Tlv prev o bytes)
    (rest : Bytes) : (walk prev (bytes ++ rest)).firstDefect =
      o.defect?.or (walk o.number rest).firstDefect := by
  rw [walk_of_some (h.read rest)]
  cases hd : o.defect? <;> simp [Walk.firstDefect, hd]

theorem FirstBad.walk {prev : Nat} {src : Bytes} {e : OptionError} (h : FirstBad prev src e) :
    (walk prev src).firstDefect = some e := by
  induction h with
  | broken h => rw [h.walk]; rfl
  | refused ht h rest => rw [firstDefect_of_tlv ht, h.defect]; rfl
  | later ht ha _ ih => rw [firstDefect_of_tlv ht, ha.defect, ih]; rfl

theorem Series.firstDefect {prev : Nat} {os : List WireOption} {bytes rest : Bytes}
    (h : Series prev os bytes) (ha : ∀ o ∈ os, o.Acceptable) (hr : Stops rest) :
    (WireOption.walk prev (bytes ++ rest)).firstDefect = none := by
  have hd : os.findSome? defect? = none :=
    List.findSome?_eq_none_iff.mpr fun o ho => (ha o ho).defect
  rw [h.walk_stops hr, Walk.firstDefect, hd]
  rfl

theorem Series.acceptable_or_firstBad {prev : Nat} {os : List WireOption} {bytes rest : Bytes}
    (h : Series prev os bytes)
    (hr : Stops rest ∨ ∃ e, Broken (lastNumber prev os) rest e) :
    ((∀ o ∈ os, o.Acceptable) ∧ Stops rest) ∨ ∃ e, FirstBad prev (bytes ++ rest) e := by
  induction h with
  | nil prev =>
    rcases hr with hs | ⟨e, hb⟩
    · exact Or.inl ⟨by simp, hs⟩
    · exact Or.inr ⟨e, .broken hb⟩
  | @cons prev o os bytes tail ho _ ih =>
    rw [List.append_assoc]
    rcases acceptable_or_refused o with ha | ⟨e, he⟩
    · rcases ih hr with ⟨hall, hs⟩ | ⟨e, he⟩
      · exact Or.inl ⟨List.forall_mem_cons.mpr ⟨ha, hall⟩, hs⟩
      · exact Or.inr ⟨e, .later ho ha he⟩
    · exact Or.inr ⟨e, .refused ho he (tail ++ rest)⟩

theorem series_or_firstBad (prev : Nat) (src : Bytes) :
    (∃ os bytes rest, Series prev os bytes ∧ (∀ o ∈ os, o.Acceptable) ∧ Stops rest ∧
      src = bytes ++ rest) ∨ ∃ e, FirstBad prev src e := by
  obtain ⟨bytes, hs, he, hr⟩ := exists_series_walk prev src
  rcases hs.acceptable_or_firstBad hr with ⟨ha, hstop⟩ | hb
  · exact Or.inl ⟨_, bytes, _, hs, ha, hstop, he⟩
  · rw [← he] at hb
    exact Or.inr hb

end Coap.WireOption
