import Coap.Proofs.RequestTarget
import Coap.Proofs.UriSplit

namespace Coap

namespace RequestStep

def type? : RequestStep → Option MessageType
  | confirmable => some .confirmable
  | nonConfirmable => some .nonConfirmable
  | _ => none

def payload? : RequestStep → Option Bytes
  | payload bytes => some bytes
  | _ => none

def format? : RequestStep → Option UInt16
  | contentFormat f => some f.number
  | _ => none

def accept? : RequestStep → Option UInt16
  | accept f => some f.number
  | _ => none

def block2? : RequestStep → Option UInt32
  | block2 num => some num
  | _ => none

/-- The problem of a step after some others: one Accept value too many, or a block number that is
too large. -/
def problem? (before : List RequestStep) : RequestStep → Option SetError
  | accept _ => if maxAccept ≤ (before.filterMap accept?).length then some .acceptFull else none
  | block2 num => if Block.maxNum < num then some (.blockNumberTooLarge num) else none
  | _ => none

end RequestStep

namespace Request

/-- Of each kind the last step counts, and every Accept value. -/
def wishes (steps : List RequestStep) : Wishes where
  type := (steps.filterMap RequestStep.type?).getLast?.getD .confirmable
  payload := (steps.filterMap RequestStep.payload?).getLast?
  format := (steps.filterMap RequestStep.format?).getLast?
  accept := steps.filterMap RequestStep.accept?
  block2 := (steps.filterMap RequestStep.block2?).getLast?

/-- The problems of some steps that come after others, in order. -/
def stepProblems (before : List RequestStep) : List RequestStep → List SetError
  | [] => []
  | s :: steps => (s.problem? before).toList ++ stepProblems (before ++ [s]) steps

/-- The problems of a request in the order in which its setters are called. -/
def problems (t : Target) (steps : List RequestStep) : List SetError :=
  (tooLong .uriHost t.name.toList ++ (tooLong .uriPath t.path ++ tooLong .uriQuery t.query)) ++
    stepProblems [] steps

theorem wishes_concat (before : List RequestStep) (s : RequestStep) :
    wishes (before ++ [s]) = match s with
      | .confirmable => { wishes before with type := .confirmable }
      | .nonConfirmable => { wishes before with type := .nonConfirmable }
      | .payload bytes => { wishes before with payload := some bytes }
      | .contentFormat f => { wishes before with format := some f.number }
      | .accept f => { wishes before with accept := (wishes before).accept ++ [f.number] }
      | .block2 num => { wishes before with block2 := some num } := by
  cases s <;> simp [wishes, RequestStep.type?, RequestStep.payload?, RequestStep.format?,
    RequestStep.accept?, RequestStep.block2?]

variable {code : Code} {t : Target} {m : Message}

/-- A step either fails with its problem or adds what it asks for. -/
theorem Draft.step {before : List RequestStep} (h : Draft code t (wishes before) m)
    (s : RequestStep) : FirstProblemOr (step m s) (s.problem? before).toList
      (Draft code t (wishes (before ++ [s]))) := by
  rw [wishes_concat]
  cases s with
  | confirmable => exact ⟨_, rfl, h.type .confirmable⟩
  | nonConfirmable => exact ⟨_, rfl, h.type .nonConfirmable⟩
  | payload bytes => exact ⟨_, rfl, h.payload bytes⟩
  | contentFormat f => exact ⟨_, rfl, h.contentFormat f⟩
  | accept f =>
    have haccept := h.accept f.number
    rw [RequestStep.problem?, apply_ite Option.toList]
    exact haccept
  | block2 num =>
    have hchunk := h.chunk num
    rw [RequestStep.problem?, apply_ite Option.toList]
    exact hchunk

/-- The first step that fails gives the error, and none is taken after it. -/
theorem Draft.steps {before : List RequestStep} (h : Draft code t (wishes before) m)
    (steps : List RequestStep) :
    FirstProblemOr (steps.foldlM Request.step m) (stepProblems before steps)
      (Draft code t (wishes (before ++ steps))) := by
  induction steps generalizing before m with
  | nil =>
    rw [List.append_nil]
    exact ⟨m, rfl, h⟩
  | cons s steps ih =>
    rw [List.foldlM_cons, List.append_cons]
    exact (h.step s).bind fun n hn => ih hn

/-- A request is drafted from its target and then its steps; at last it gets its id and token. -/
theorem build_firstProblemOr {p : Uri.Parts} (hp : p.Grammar) (method : Method)
    (steps : List RequestStep) (id : UInt16) (token : Token) :
    FirstProblemOr (build method p.uri steps id token) (problems p.target steps) fun n =>
      ∃ m, Draft method.code p.target (wishes steps) m ∧ n = { m with id, token } := by
  have hbuilt : FirstProblemOr (Request.target (.new .confirmable method.code 0) p.uri >>= fun m =>
      steps.foldlM Request.step m) (problems p.target steps)
      (Draft method.code p.target (wishes steps)) :=
    (draft_target hp method.code).bind fun m hm => hm.steps steps
  have hbuild : build method p.uri steps id token =
      (Request.target (.new .confirmable method.code 0) p.uri >>= fun m =>
        steps.foldlM Request.step m) >>= fun m => pure { m with id, token } := by
    rw [build, bind_assoc]
  rw [hbuild, ← List.append_nil (problems p.target steps)]
  exact hbuilt.bind fun m hm => ⟨_, rfl, m, hm, rfl⟩

/-- A request that says what it should. -/
structure Meant (method : Method) (t : Target) (w : Wishes) (id : UInt16) (token : Token)
    (m : Message) : Prop where
  code : m.code = method.code
  version : m.version = protocolVersion
  id : m.id = id
  token : m.token = token
  type : m.type = w.type
  payload : m.payload = w.payload.bind Message.chunk
  host : m.uriHost?.map Segment.bytes = t.name
  port : m.uriPort? = t.port
  path : m.uriPath.map Segment.bytes = t.path
  query : m.uriQuery.map Segment.bytes = t.query
  format : m.contentType? = w.format
  accept : m.accept = w.accept
  block2 : m.block2?.map (fun b => (b.num, b.more, b.size)) =
    w.block2.map fun num => (num, false, UInt16.ofNat maxChunkSize)
  present : ∀ o, m.has o = true ↔ values t w o ≠ []

theorem Draft.meant {method : Method} {w : Wishes} (h : Draft method.code t w m) (id : UInt16)
    (token : Token) : Meant method t w id token { m with id, token } := by
  obtain ⟨htype, hversion, hcode, hpayload⟩ := h.header
  have hlist {o : KnownOption} (ho : o.repeatable = true) : m.values o = values t w o :=
    (h.coherent.carried_of_repeatable ho).symm.trans (h.carried o)
  refine ⟨hcode, hversion, rfl, rfl, htype, hpayload, ?_, ?_, hlist (o := .uriPath) rfl,
    hlist (o := .uriQuery) rfl, ?_, h.accept_eq, h.block2_fields, ?_⟩
  · exact h.get? (o := .uriHost) (f := Segment.bytes) rfl rfl
  · exact (Option.map_inj_right fun _ _ => minimal_toUInt32_inj).mp
      (h.get? (o := .uriPort) (f := fun n : UInt16 => BigEndian.minimal n.toUInt32) rfl rfl)
  · exact (Option.map_inj_right fun _ _ => minimal_toUInt32_inj).mp
      (h.get? (o := .contentType) (f := fun n : UInt16 => BigEndian.minimal n.toUInt32) rfl rfl)
  · intro o
    have hnil : m.carried o = [] ↔ m.has o = false := h.coherent.carried_eq_nil_iff
    rw [h.carried] at hnil
    change m.has o = true ↔ _
    rw [Ne, hnil, Bool.not_eq_false]

/-- A request is written and read back as it was. -/
theorem Draft.roundTrip {method : Method} {w : Wishes} (h : Draft method.code t w m) (id : UInt16)
    (token : Token) : ∃ b, ({ m with id, token } : Message).encode = .ok b ∧
      Message.decode b = .ok { m with id, token } := by
  obtain ⟨_, hversion, hcode, _⟩ := h.header
  have hcoherent : ({ m with id, token } : Message).Coherent :=
    h.coherent.congr rfl (fun o => by cases o <;> rfl) rfl rfl
  have hborrow : ({ m with id, token } : Message).borrow = { m with id, token } :=
    congrArg (fun m : Message => { m with id, token }) h.borrowed
  have hfits : m.code.fitsByte = true := by
    rw [hcode]
    cases method <;> decide
  have hlocal : m.code.isLocal = false := by
    rw [hcode]
    cases method <;> decide
  obtain ⟨body, hs⟩ := hcoherent.exists_series
  refine ⟨_, hcoherent.encode hs hfits hlocal, ?_⟩
  rw [hcoherent.decode_layout hs hversion hfits, hborrow]

/-- A request for a text that has a URI fails with the first problem of its setters. If there is
none, it says exactly what the URI and the steps ask for, and it is written and read back as it was.
Texts that name the same resource make the same request. -/
theorem build_meaning {s : String} {uri : Uri} (h : (Uri.split s).uri = .ok uri) (method : Method)
    (steps : List RequestStep) (id : UInt16) (token : Token) :
    (∃ p : Uri.Parts, p.Grammar ∧ p.text = s.toList) ∧
    ∀ p : Uri.Parts, p.Grammar → p.text = s.toList → p.uri = uri ∧
      (∀ e, build method uri steps id token = .error e ↔
        (problems p.target steps).head? = some e) ∧
      (problems p.target steps = [] → ∃ m b, build method uri steps id token = .ok m ∧
        Meant method p.target (wishes steps) id token m ∧
        m.encode = .ok b ∧ Message.decode b = .ok m) ∧
      ∀ q : Uri.Parts, q.Grammar → p.Alike q →
        (Uri.split (String.ofList q.text)).uri = .ok q.uri ∧
        build method q.uri steps id token = build method uri steps id token := by
  obtain ⟨p, hp, htext, _⟩ := Uri.split_eq_ok_iff.mp h
  refine ⟨⟨p, hp, htext⟩, fun p hp htext => ?_⟩
  rw [Uri.split_of_grammar hp htext] at h
  obtain rfl := Except.ok.inj h
  have hbuild := build_firstProblemOr hp method steps id token
  refine ⟨rfl, hbuild.eq_error_iff, ?_, ?_⟩
  · intro hnone
    rw [hnone] at hbuild
    obtain ⟨_, hok, m, hm, rfl⟩ := hbuild
    obtain ⟨b, hb, hread⟩ := hm.roundTrip id token
    exact ⟨_, b, hok, hm.meant id token, hb, hread⟩
  · intro q hq halike
    have hq' := build_firstProblemOr hq method steps id token
    rw [← halike.target_eq] at hq'
    refine ⟨Uri.split_eq_ok_iff.mpr ⟨q, hq, String.toList_ofList.symm, rfl⟩, hq'.unique hbuild ?_⟩
    rintro _ _ ⟨m, hm, rfl⟩ ⟨n, hn, rfl⟩
    rw [hm.unique hn]

/-- The last step about it says that the request for `coap://Wren/a//b` is not confirmable. -/
theorem build_meaning_wren :
    let uri := ⟨false, some "wren", 5683, "a//b", none⟩
    ∃ m b, build .get uri [.confirmable, .block2 1, .nonConfirmable] 7 .empty = .ok m ∧
      m.type = .nonConfirmable ∧ m.uriHost?.map Segment.bytes = some (utf8 "wren") ∧
      m.uriPort? = none ∧ m.uriPath.map Segment.bytes = [[0x61], [], [0x62]] ∧
      m.encode = .ok b ∧ Message.decode b = .ok m := by
  have hname : Uri.HostText "Wren".toList := .name (by decide) (by decide) (by simp)
  have hp : Uri.Parts.Grammar ⟨false, "coap://".toList, some "Wren".toList, [], 5683, ['/'],
      "a//b".toList, none⟩ := .full rfl hname .absent (.path (by decide))
  have hsplit : (Uri.split "coap://Wren/a//b").uri =
      .ok ⟨false, some "wren", 5683, "a//b", none⟩ := by decide
  obtain ⟨_, hparts⟩ :=
    build_meaning hsplit .get [.confirmable, .block2 1, .nonConfirmable] 7 .empty
  obtain ⟨_, _, hok, _⟩ := hparts _ hp rfl
  obtain ⟨m, b, hbuild, hm, hb, hread⟩ := hok (by decide)
  exact ⟨m, b, hbuild, hm.type, hm.host, hm.port, hm.path, hb, hread⟩

end Request

end Coap
