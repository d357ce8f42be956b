import Coap.Proofs.Footprint

namespace Coap

namespace Edit

/-- Changes that write no part in common. -/
def Apart (e d : Edit) : Prop := ∀ p ∈ e.footprint, p ∉ d.footprint

instance (e d : Edit) : Decidable (e.Apart d) :=
  inferInstanceAs (Decidable (∀ p ∈ e.footprint, p ∉ d.footprint))

/-- Two sequences of changes in which, for each part, those that write it come in the same order. -/
def SameOrder (es es' : List Edit) : Prop := ∀ p, es.filter (·.writes p) = es'.filter (·.writes p)

/-- The sequence without the changes that write an option and nothing else. -/
def leaveOut (o : KnownOption) (es : List Edit) : List Edit :=
  es.filter fun e => e.footprint ≠ [.option o]

theorem Apart.symm {e d : Edit} (h : e.Apart d) : d.Apart e := fun p hd he => h p he hd

theorem Apart.not_writes {e d : Edit} (h : e.Apart d) {p : Part} (he : e.writes p = true) :
    d.writes p = false :=
  Bool.eq_false_iff.mpr fun hd => h p (writes_iff.mp he) (writes_iff.mp hd)

/-- Neighbours that write nothing in common may change places. -/
theorem SameOrder.swap {e d : Edit} (h : e.Apart d) (es later : List Edit) :
    SameOrder (es ++ e :: d :: later) (es ++ d :: e :: later) := by
  intro p
  have htail : (e :: d :: later).filter (·.writes p) = (d :: e :: later).filter (·.writes p) := by
    cases he : e.writes p with
    | true =>
      have hd := h.not_writes he
      simp [he, hd]
    | false => simp [List.filter_cons, he]
  rw [List.filter_append, List.filter_append, htail]

end Edit

namespace Message

theorem Agree.editAll {m n : Message} {p : Part} (h : m.Agree n p) (hm : m.Coherent)
    (hn : n.Coherent) (es : List Edit) : (m.editAll es).Agree (n.editAll es) p := by
  induction es generalizing m n with
  | nil => exact h
  | cons e es ih => exact ih (h.edit hm.accept_le hn.accept_le e) (hm.edit e) (hn.edit e)

theorem agree_editAll_of_silent (m : Message) {p : Part} {es : List Edit}
    (h : ∀ e ∈ es, e.writes p = false) : (m.editAll es).Agree m p := by
  induction es generalizing m with
  | nil => exact .refl m p
  | cons e es ih =>
    have hfirst := m.agree_edit_of_not_writes (h e List.mem_cons_self)
    exact (ih (m.edit e).1 fun d hd => h d (List.mem_cons_of_mem e hd)).trans hfirst

/-- For a part only those changes count that write it: the others may be left out. -/
theorem Coherent.agree_filter {m : Message} (hm : m.Coherent) {p : Part} (keep : Edit → Bool)
    (es : List Edit) (hk : ∀ e ∈ es, e.writes p = true → keep e = true) :
    (m.editAll es).Agree (m.editAll (es.filter keep)) p := by
  induction es generalizing m with
  | nil => exact .refl m p
  | cons e es ih =>
    have hrest := ih (hm.edit e) fun d hd => hk d (List.mem_cons_of_mem e hd)
    cases hkeep : keep e with
    | true =>
      rw [List.filter_cons_of_pos hkeep]
      exact hrest
    | false =>
      have hw : e.writes p = false := by
        refine Bool.eq_false_iff.mpr fun hw => ?_
        rw [hk e List.mem_cons_self hw] at hkeep
        cases hkeep
      have hskip := (m.agree_edit_of_not_writes hw).editAll (hm.edit e) hm (es.filter keep)
      rw [List.filter_cons_of_neg (by rw [hkeep]; decide)]
      exact hrest.trans hskip

theorem Coherent.beq_of_sameOrder {m : Message} (h : m.Coherent) {es es' : List Edit}
    (hs : Edit.SameOrder es es') : (m.editAll es == m.editAll es') = true := by
  refine ((h.editAll es).beq_iff_agree (h.editAll es')).mpr fun p => ?_
  have hl := h.agree_filter (p := p) (·.writes p) es fun _ _ hw => hw
  have hr := h.agree_filter (p := p) (·.writes p) es' fun _ _ hw => hw
  rw [hs p] at hl
  exact hl.trans hr.symm

theorem refused_after_apart (m : Message) {e d : Edit} (h : e.Apart d) :
    ((m.edit d).1.edit e).2 = (m.edit e).2 :=
  refused_eq_of_agree fun _ he => m.agree_edit_of_not_writes (h.not_writes he)

/-- Leaving out what writes one option shows in that option only, and is gone when the option is
removed. -/
theorem Coherent.leaveOut_remove {m : Message} (h : m.Coherent) (o : KnownOption)
    (es : List Edit) : (m.editAll (es ++ [.remove o]) ==
      m.editAll (Edit.leaveOut o es ++ [.remove o])) = true := by
  rw [editAll_append, editAll_append]
  have hall := h.editAll es
  have hleft := h.editAll (Edit.leaveOut o es)
  refine ((hall.edit _).beq_iff_agree (hleft.edit _)).mpr fun p => ?_
  by_cases hp : p = .option o
  · subst hp
    exact agree_remove _ _ o
  · have hagree : (m.editAll es).Agree (m.editAll (Edit.leaveOut o es)) p := by
      refine h.agree_filter _ es fun e _ hw => decide_eq_true fun hf => hp ?_
      rw [Edit.writes_iff, hf] at hw
      exact List.mem_singleton.mp hw
    exact hagree.edit hall.accept_le hleft.accept_le (.remove o)

/-- Removing an option changes nothing exactly if it is absent. -/
theorem Coherent.remove_beq_iff {m : Message} (h : m.Coherent) (o : KnownOption) :
    ((m.edit (.remove o)).1 == m) = true ↔ m.has o = false := by
  rw [(h.edit _).beq_iff_agree h]
  constructor
  · intro hagree
    rw [← (hagree (.option o)).1, Message.edit, has_remove, if_pos rfl]
  · intro ho p
    by_cases hp : p = .option o
    · subst hp
      refine ⟨?_, ?_⟩
      · rw [Message.edit, has_remove, if_pos rfl, ho]
      · rw [Message.edit, values_remove, if_pos rfl, h.absent o ho]
    · exact m.agree_remove_of_ne hp

theorem beq_congr_left {l m : Message} (h : (l == m) = true) (n : Message) :
    (l == n) = true ↔ (m == n) = true := by
  rw [beq_iff_borrow_eq] at h
  rw [beq_iff_borrow_eq, beq_iff_borrow_eq, h]

theorem has_leaveOut {m : Message} {o : KnownOption} (ho : m.has o = false) {es : List Edit}
    (hes : ∀ e ∈ es, e.writes (.option o) = true → e.footprint = [.option o]) :
    (m.editAll (Edit.leaveOut o es)).has o = false := by
  have hsilent : ∀ e ∈ Edit.leaveOut o es, e.writes (.option o) = false := by
    intro e he
    obtain ⟨hm, hkept⟩ := List.mem_filter.mp he
    exact Bool.eq_false_iff.mpr fun hw => of_decide_eq_true hkept (hes e hm hw)
  have hagree := m.agree_editAll_of_silent hsilent
  exact hagree.1.trans ho

/-- Changes that write no part in common may be made in any order: each is refused for the same
reason or taken in both orders, and the messages are equal. So two sequences that keep the order of
the changes to each part give equal messages, of the same size and the same bytes. An option that is
removed at the end leaves no trace: the changes to it alone may be left out, and the removal too, if
nothing else has set the option. -/
theorem order_irrelevant {m : Message} (h : m.Reachable) :
    (∀ e d, e.Apart d →
      ((m.edit d).1.edit e).2 = (m.edit e).2 ∧ ((m.edit e).1.edit d).2 = (m.edit d).2 ∧
      (((m.edit e).1.edit d).1 == ((m.edit d).1.edit e).1) = true) ∧
    (∀ es es', Edit.SameOrder es es' →
      (m.editAll es == m.editAll es') = true ∧
      (m.editAll es).encodedLength = (m.editAll es').encodedLength ∧
      (m.editAll es).encode = (m.editAll es').encode) ∧
    ∀ o es,
      (m.editAll (es ++ [.remove o]) == m.editAll (Edit.leaveOut o es ++ [.remove o])) = true ∧
      ((m.editAll (es ++ [.remove o]) == m.editAll (Edit.leaveOut o es)) = true ↔
        (m.editAll (Edit.leaveOut o es)).has o = false) ∧
      (m.has o = false →
        (∀ e ∈ es, e.writes (.option o) = true → e.footprint = [.option o]) →
        (m.editAll (es ++ [.remove o]) == m.editAll (Edit.leaveOut o es)) = true) := by
  have hc := h.coherent
  refine ⟨?_, ?_, ?_⟩
  · intro e d hapart
    have hswap := hc.beq_of_sameOrder (Edit.SameOrder.swap hapart [] [])
    exact ⟨m.refused_after_apart hapart, m.refused_after_apart hapart.symm, hswap⟩
  · intro es es' hs
    have hequal := hc.beq_of_sameOrder hs
    exact ⟨hequal, encode_eq_of_beq hequal⟩
  · intro o es
    have hkept := hc.leaveOut_remove o es
    have hexact : (m.editAll (es ++ [.remove o]) == m.editAll (Edit.leaveOut o es)) = true ↔
        (m.editAll (Edit.leaveOut o es)).has o = false := by
      rw [beq_congr_left hkept, editAll_append]
      exact (hc.editAll _).remove_beq_iff o
    exact ⟨hkept, hexact, fun ho hes => hexact.mpr (has_leaveOut ho hes)⟩

/-- An entity tag that is set twice around another option, and then removed. -/
theorem order_irrelevant_etag :
    let m := new .confirmable .get 7
    let es := [Edit.etag [1], .etag [2], .maxAge 5]
    let es' := [Edit.etag [1], .maxAge 5, .etag [2]]
    (((m.edit (.etag [])).1.edit (.maxAge 5)).1 ==
        ((m.edit (.maxAge 5)).1.edit (.etag [])).1) = true ∧
      (m.editAll es).encode = (m.editAll es').encode ∧
      (m.editAll (es ++ [.remove .etag]) == m.editAll [.maxAge 5]) = true := by
  intro m es es'
  obtain ⟨hpair, hsequence, hremoved⟩ := order_irrelevant (.new .confirmable .get 7)
  obtain ⟨_, _, hequal⟩ := hpair (.etag []) (.maxAge 5) (by decide)
  have hapart : (Edit.etag [2]).Apart (.maxAge 5) := by decide
  obtain ⟨_, _, hencode⟩ := hsequence es es' (.swap hapart [.etag [1]] [])
  obtain ⟨_, _, htrace⟩ := hremoved .etag es
  refine ⟨hequal, hencode, htrace rfl ?_⟩
  intro e he hw
  rcases List.mem_cons.mp he with rfl | he
  · rfl
  rcases List.mem_cons.mp he with rfl | he
  · rfl
  · obtain rfl := List.mem_singleton.mp he
    cases hw

end Message

end Coap
