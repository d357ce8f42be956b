import Coap.Proofs.EngineTransition
import Coap.Proofs.PacketWire
import Coap.Proofs.RetryInterval

namespace Coap

variable {κ : Type}

/-- Only a transaction that has been sent waits for an answer, and only one that has a message can
be sent. -/
structure Transaction.Sound (config : Config) (t : Transaction κ) : Prop where
  wire : t.wire = [] ∨ Labelled t.id t.wire
  sent : t.progress = .sent → t.wire ≠ []
  waiting : t.timer.isSome → t.progress = .sent
  timer : ∀ timer, t.timer = some timer → timer.Regular config

theorem Transaction.sound_new (config : Config) (id : UInt16) (peer : Address) (context : κ)
    (observer : Observer) : (new id peer context observer).Sound config where
  wire := Or.inl rfl
  sent h := by cases h
  waiting h := by cases h
  timer _ h := by cases h

theorem Transaction.wire_of_transmit {t : Transaction κ} {reply : SendReply}
    (h : t.transmit reply = .ok ()) : t.wire ≠ [] := by
  intro hw
  simp [transmit, hw] at h

theorem Transaction.transmit_of_wire {t : Transaction κ} (h : t.wire ≠ []) (reply : SendReply) :
    t.transmit reply = reply.result := by
  have hw : t.wire.isEmpty = false := by simpa using h
  rw [transmit, hw]
  rfl

theorem Transaction.deadline?_of_timer {c : Clock} {t : Transaction κ} {timer : RetryTimer}
    (h : t.timer = some timer) : t.deadline? c = timer.deadline? c := by
  rw [deadline?, h, Option.bind_some]

/-- A timer that runs is kept; one that starts is regular and has not tried yet. -/
theorem Engine.arm?_cases {e : Engine κ} {t : Transaction κ} {now : Instant}
    {timer? : Option RetryTimer} {rng : Option ChaCha} (h : e.arm? t now = some (timer?, rng)) :
    timer? = t.timer ∨
      t.timer = none ∧ ∃ timer, timer? = some timer ∧ timer.Regular e.config ∧
        timer.attempts = 0 := by
  unfold arm? at h
  split at h
  next hn =>
    obtain ⟨_, hn⟩ := Bool.and_eq_true_iff.mp hn
    obtain ⟨⟨timer, rest⟩, hs, ht⟩ := Option.map_eq_some_iff.mp h
    obtain ⟨hr, ha⟩ := RetryTimer.regular_start hs
    cases ht
    exact Or.inr ⟨Option.isNone_iff_eq_none.mp hn, timer, rfl, hr, ha⟩
  next =>
    cases h
    exact Or.inl rfl

/-- No change makes a transaction unsound. -/
theorem Change.sound {e : Engine κ} {id : UInt16} {t? t?' : Option (Transaction κ)}
    {told : List Occurrence} (h : Change e id t? told t?')
    (hs : ∀ t, t? = some t → t.Sound e.config) : ∀ t, t?' = some t → t.Sound e.config := by
  cases h with
  | stays => exact hs
  | created peer context observer =>
    rintro _ ⟨rfl⟩
    exact Transaction.sound_new e.config id peer context observer
  | @message t t' m hm =>
    rintro _ ⟨rfl⟩
    have ht := hs t rfl
    obtain ⟨hf, rfl⟩ := Transaction.eq_of_setMessage hm
    have hl := Transaction.labelled_of_writeTo t.id hf
    exact ⟨Or.inr hl, fun _ => hl.ne_nil, ht.waiting, ht.timer⟩
  | context t context =>
    rintro _ ⟨rfl⟩
    have ht := hs t rfl
    exact ⟨ht.wire, ht.sent, ht.waiting, ht.timer⟩
  | @sent t now reply timer? rng accepted armed =>
    rintro _ ⟨rfl⟩
    have ht := hs t rfl
    have hw := Transaction.wire_of_transmit accepted
    refine ⟨ht.wire, fun _ => hw, fun _ => rfl, ?_⟩
    rcases Engine.arm?_cases armed with rfl | ⟨_, timer, rfl, hr, _⟩
    · exact ht.timer
    · rintro _ ⟨rfl⟩
      exact hr
  | @retransmitted t timer now running due =>
    rintro _ ⟨rfl⟩
    have ht := hs t rfl
    have hsent : t.progress = .sent := ht.waiting (by rw [running]; rfl)
    refine ⟨ht.wire, ht.sent, fun _ => hsent, ?_⟩
    rintro _ ⟨rfl⟩
    exact (ht.timer timer running).restart due now
  | abandoned | answered | cleared =>
    rintro _ ⟨⟩

namespace Engine

structure Sound (e : Engine κ) : Prop where
  room : e.slots.length = e.config.maxTransactions
  unique : e.Unique
  transactions : ∀ t ∈ e.live, t.Sound e.config

theorem sound_new (clock : Clock) (config : Config) : (new clock config : Engine κ).Sound where
  room := List.length_replicate
  unique := by
    unfold Unique
    rw [live_new]
    exact List.nodup_nil
  transactions t ht := by
    rw [live_new] at ht
    cases ht

theorem Transition.sound {e e' : Engine κ} {told : List Event} {ends : List Completion}
    (h : e.Transition e' told ends) (hs : e.Sound) : e'.Sound := by
  obtain ⟨_, hconfig, hroom⟩ := h.frame
  have hunique := h.unique hs.unique
  refine ⟨by rw [hroom, hconfig, hs.room], hunique, ?_⟩
  -- Ids are unique before and after, so each transaction has changed in one of the known ways.
  intro t ht
  have hchange := h.change hs.unique t.id
  have hold : ∀ u, e.get? t.id = some u → u.Sound e.config := fun u hu =>
    hs.transactions u (mem_live_of_get? hu).1
  rw [hconfig]
  exact hchange.sound hold t (hunique.get?_of_mem ht)

theorem run_sound {e : Engine κ} (h : e.Sound) (ops : List (Operation κ)) : (e.run ops).Sound := by
  induction ops generalizing e with
  | nil => exact h
  | cons o ops ih => exact ih ((e.transition o).sound h)

/-- Clock and configuration are those of the start. -/
theorem run_frame (e : Engine κ) (ops : List (Operation κ)) :
    (e.run ops).clock = e.clock ∧ (e.run ops).config = e.config := by
  induction ops generalizing e with
  | nil => exact ⟨rfl, rfl⟩
  | cons o ops ih =>
    obtain ⟨hclock, hconfig, _⟩ := (e.transition o).frame
    obtain ⟨ic, iconf⟩ := ih (e.apply o).engine
    exact ⟨ic.trans hclock, iconf.trans hconfig⟩

/-- With bounds in the right order there is always a first interval. -/
theorem send_ne_emptyJitter {e : Engine κ} (h : e.config.strategy.min ≤ e.config.strategy.max)
    (id : UInt16) (now : Instant) (reply : SendReply) :
    (e.send id now reply).result ≠ .error .emptyJitter := by
  have harm (t : Transaction κ) : ∃ armed, e.arm? t now = some armed := by
    unfold arm?
    split
    next =>
      obtain ⟨first, rest, hf⟩ :=
        Strategy.firstInterval?_of_le h (e.rng.getD (.ofSeed (e.jitterSeed now)))
      rw [RetryTimer.start?, hf]
      exact ⟨_, rfl⟩
    next => exact ⟨_, rfl⟩
  unfold send
  cases e.get? id with
  | none => simp
  | some t =>
    obtain ⟨armed, ha⟩ := harm t
    dsimp only
    cases t.transmit reply with
    | error cause => simp
    | ok u => simp [ha]

/-- Whatever is done to a new engine, its table keeps its size, its ids are unique, and every live
transaction has a datagram, a state and a timer that go together. With bounds in the right order,
there is always an interval to draw. -/
theorem run_table (clock : Clock) (config : Config) (ops : List (Operation κ)) :
    ((new clock config).run ops).slots.length = config.maxTransactions ∧
    (((new clock config).run ops).live.map (·.id)).Nodup ∧
    (config.strategy.min ≤ config.strategy.max → ∀ id now reply,
      (((new clock config).run ops).send id now reply).result ≠ .error .emptyJitter) ∧
    ∀ t ∈ ((new clock config).run ops).live,
      (t.wire = [] ∨ 4 ≤ t.wire.length ∧ t.wire.length ≤ 195 ∧
        (t.wire.drop 2).take 2 = BigEndian.pair t.id) ∧
      (t.timer ≠ none → t.progress = .sent) ∧
      (t.progress = .sent → t.wire ≠ []) ∧
      ∀ timer, t.timer = some timer →
        timer.attempts ≤ config.maxRetransmit ∧
        (∀ now, timer.verdict clock now = .retry →
          (timer.restart now).attempts.toNat = timer.attempts.toNat + 1) ∧
        ∃ first : Millis, config.strategy.min ≤ first ∧ first ≤ config.strategy.max ∧
          (config.strategy.backoff = .exponential → timer.interval.toNat =
            min (UInt64.size - 1) (first.toNat * Nat.pow 2 timer.attempts.toNat)) ∧
          (config.strategy.backoff = .constant → timer.interval = first) := by
  have hs : ((new clock config).run ops).Sound := run_sound (sound_new clock config) ops
  have hconfig : ((new clock config).run ops).config = config := (run_frame _ ops).2
  have hroom : ((new clock config).run ops).slots.length = config.maxTransactions := by
    rw [hs.room, hconfig]
  have hjitter (hle : config.strategy.min ≤ config.strategy.max) (id : UInt16) (now : Instant)
      (reply : SendReply) :
      (((new clock config).run ops).send id now reply).result ≠ .error .emptyJitter := by
    rw [← hconfig] at hle
    exact send_ne_emptyJitter hle id now reply
  refine ⟨hroom, hs.unique, hjitter, ?_⟩
  intro t ht
  have hsound := hs.transactions t ht
  rw [hconfig] at hsound
  refine ⟨?_, ?_, hsound.sent, ?_⟩
  · rcases hsound.wire with hw | hl
    · exact Or.inl hw
    · exact Or.inr ⟨hl.header, hl.packet, hl.label⟩
  · exact fun hn => hsound.waiting (Option.isSome_iff_ne_none.mpr hn)
  · intro timer htimer
    have hr := hsound.timer timer htimer
    obtain ⟨first, hmin, hmax, hi⟩ := hr.interval
    refine ⟨hr.attempts, fun now hv => RetryTimer.toNat_attempts_restart hv now, first, hmin, hmax,
      fun hb => hi.trans (Strategy.intervalAfter_exponential hb first _), fun hb => ?_⟩
    exact UInt64.toNat_inj.mp (hi.trans (Strategy.intervalAfter_constant hb first _))

example (peer : Address) :
    ((new .milliseconds { Config.standard with strategy := ⟨.exponential, 10, 10⟩ }).run
      [.create 7 peer () .owner, .setMessage 7 (.new .confirmable .get 0),
        .send 7 ⟨0⟩ .accepted, .tick ⟨10⟩ [.wouldBlock]]).live.map
      (fun t => (t.wire, t.timer.map fun timer => (timer.attempts, timer.interval))) =
    [([0x40, 1, 0, 7], some (1, 20))] := by
  cbv

end Engine

end Coap
