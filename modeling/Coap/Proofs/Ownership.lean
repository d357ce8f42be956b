import Coap.Proofs.Footprint
import Mathlib.Data.List.Forall2

namespace Coap

/-- What may be asked of a message. -/
inductive Question where
  | header
  | present
  | has (o : KnownOption)
  | ifMatch
  | uriHost
  | etag
  | observe
  | uriPort
  | contentType
  | contentFormat
  | maxAge
  | accept
  | block2
  | block1
  | bodySize
  | proxyUri
  | payload
  | segments (o : SegmentOption)
  | join (o : SegmentOption) (sep : UInt8)
  | queryVariable (name : Bytes)
  | postVariable (name : Bytes)
  | encodedLength
  | encode
  | writeTo (buffer : Bytes)
  | ack
  | reset

inductive Answer where
  | header (id : UInt16) (type : MessageType) (version : UInt8) (token : Token) (code : Code)
  | present (options : OptionSet)
  | flag (set : Bool)
  | octets (value : Option Bytes)
  | short (value : Option UInt16)
  | word (value : Option UInt32)
  | format (value : Option ContentFormat)
  | formats (values : Option (List UInt16))
  | block (value : Option Block)
  | text (value : Option Segment)
  | texts (values : Segments)
  | length (n : Nat)
  | encoded (result : Except EncodeError Bytes)
  | written (result : Written)
  | changed (refusal : Option SetError)
  | made (m : Message)

/-- What a program does with a message. It may go on with the acknowledgement or the rejection of
the message. -/
inductive Use where
  | change (e : Edit)
  | ack
  | reset
  | ask (q : Question)

namespace Answer

/-- An answer without the copies of text values in it. -/
def borrow : Answer → Answer
  | text value => text (value.map Segment.borrow)
  | texts values => texts (values.map Segment.borrow)
  | made m => made m.borrow
  | header id type version token code => header id type version token code
  | present options => present options
  | flag set => flag set
  | octets value => octets value
  | short value => short value
  | word value => word value
  | format value => format value
  | formats values => formats values
  | block value => block value
  | length n => length n
  | encoded result => encoded result
  | written result => written result
  | changed refusal => changed refusal

/-- Answers that differ at most in who owns the bytes. -/
def Same (a b : Answer) : Prop := a.borrow = b.borrow

end Answer

namespace Message

def ask (m : Message) : Question → Answer
  | .header => .header m.id m.type m.version m.token m.code
  | .present => .present m.present
  | .has o => .flag (m.has o)
  | .ifMatch => .octets m.ifMatch?
  | .uriHost => .text m.uriHost?
  | .etag => .octets m.etag?
  | .observe => .word m.observeValue?
  | .uriPort => .short m.uriPort?
  | .contentType => .short m.contentType?
  | .contentFormat => .format m.contentFormat?
  | .maxAge => .word m.maxAge?
  | .accept => .formats m.accept?
  | .block2 => .block m.block2?
  | .block1 => .block m.block1?
  | .bodySize => .word m.bodySize?
  | .proxyUri => .text m.proxyUri?
  | .payload => .octets (m.payload.map Segment.bytes)
  | .segments o => .texts (m.segments o)
  | .join o sep => .octets (some ((m.segments o).join sep))
  | .queryVariable name => .octets (m.queryVariable name)
  | .postVariable name => .octets (m.postVariable name)
  | .encodedLength => .length m.encodedLength
  | .encode => .encoded m.encode
  | .writeTo buffer => .written (m.writeTo buffer)
  | .ack => .made m.ack
  | .reset => .made m.reset

/-- What a use of a message answers, and the message after it. -/
def use (m : Message) : Use → Answer × Message
  | .change e => (.changed (m.edit e).2, (m.edit e).1)
  | .ack => (m.ask .ack, m.ack)
  | .reset => (m.ask .reset, m.reset)
  | .ask q => (m.ask q, m)

/-- The answers to some uses of a message, one after the other, and the messages after them. -/
def useAll (m : Message) : List Use → List (Answer × Message)
  | [] => []
  | u :: us => m.use u :: (m.use u).2.useAll us

/-- A message that holds its own copy of all its text values and its payload. -/
structure Owned (m : Message) : Prop where
  uriHost : m.uriHost.isBorrowed = false
  proxyUri : m.proxyUri.isBorrowed = false
  segments : ∀ o, ∀ s ∈ m.segments o, s.isBorrowed = false
  payload : ∀ p, m.payload = some p → p.isBorrowed = false

/-- The same answer, and equal messages of the same size that are written in the same bytes. -/
structure SameStep (x y : Answer × Message) : Prop where
  answer : x.1.Same y.1
  equal : (x.2 == y.2) = true
  size : x.2.encodedLength = y.2.encodedLength
  wire : x.2.encode = y.2.encode

theorem owned_own (m : Message) : m.own.Owned where
  uriHost := rfl
  proxyUri := rfl
  segments o s hs := by
    have hown (l : Segments) (hl : s ∈ l.own) : s.isBorrowed = false := by
      obtain ⟨t, _, rfl⟩ := List.mem_map.mp hl
      rfl
    cases o <;> exact hown _ hs
  payload p hp := by
    obtain ⟨q, _, rfl⟩ := Option.map_eq_some_iff.mp hp
    rfl

theorem own_beq (m : Message) : (m == m.own) = true := by
  have hs (s : Segments) : s.own.map Segment.borrow = s.map Segment.borrow := by
    rw [Segments.own, List.map_map]
    rfl
  rw [beq_iff_borrow_eq]
  simp only [own, borrow, hs, Option.map_map]
  rfl

theorem map_get? {α β : Type} (f : α → β) (m : Message) (o : KnownOption) (value : α) :
    (m.get? o value).map f = m.get? o (f value) := by
  unfold get?
  split <;> rfl

theorem segments_borrow (m : Message) (o : SegmentOption) :
    m.borrow.segments o = (m.segments o).map Segment.borrow := by
  cases o <;> rfl

theorem payload_borrow (m : Message) :
    m.borrow.payload.map Segment.bytes = m.payload.map Segment.bytes := by
  change (m.payload.map Segment.borrow).map Segment.bytes = _
  rw [Option.map_map]
  rfl

theorem queryVariable_borrow (m : Message) (name : Bytes) :
    m.borrow.queryVariable name = m.queryVariable name := by
  have hs : m.borrow.uriQuery.map Segment.bytes = m.uriQuery.map Segment.bytes :=
    Segments.map_bytes_borrow m.uriQuery
  rw [queryVariable, queryVariable, hs]

theorem postVariable_eq (m : Message) (name : Bytes) : m.postVariable name =
    (m.payload.map Segment.bytes).bind fun form =>
      findVariable (Separated.trimmedPieces 0x26 form) name := by
  rw [postVariable, Option.bind_map]
  rfl

theorem postVariable_borrow (m : Message) (name : Bytes) :
    m.borrow.postVariable name = m.postVariable name := by
  rw [postVariable_eq, postVariable_eq, payload_borrow]

/-- A question to a message without copies has the answer without copies. -/
theorem ask_borrow (m : Message) (q : Question) : m.borrow.ask q = (m.ask q).borrow := by
  cases q with
  | uriHost => exact congrArg Answer.text (map_get? Segment.borrow m .uriHost m.uriHost).symm
  | proxyUri => exact congrArg Answer.text (map_get? Segment.borrow m .proxyUri m.proxyUri).symm
  | payload => exact congrArg Answer.octets m.payload_borrow
  | segments o => exact congrArg Answer.texts (m.segments_borrow o)
  | join o sep =>
    have hjoin : (m.borrow.segments o).join sep = (m.segments o).join sep := by
      rw [segments_borrow, Segments.join, Segments.map_bytes_borrow, Segments.join]
    exact congrArg (fun joined => Answer.octets (some joined)) hjoin
  | queryVariable name => exact congrArg Answer.octets (m.queryVariable_borrow name)
  | postVariable name => exact congrArg Answer.octets (m.postVariable_borrow name)
  | encodedLength => exact congrArg Answer.length m.encodedLength_borrow
  | encode => exact congrArg Answer.encoded m.encode_borrow
  | writeTo buffer => exact congrArg Answer.written (m.writeTo_borrow buffer)
  | _ => rfl

theorem ask_same_of_beq {m n : Message} (h : (m == n) = true) (q : Question) :
    (m.ask q).Same (n.ask q) := by
  rw [Answer.Same, ← ask_borrow, ← ask_borrow, beq_iff_borrow_eq.mp h]

theorem Coherent.use {m : Message} (h : m.Coherent) (u : Use) : (m.use u).2.Coherent := by
  cases u with
  | change e => exact h.edit e
  | ack => exact coherent_bare .acknowledgement .empty m.id m.token
  | reset => exact coherent_bare .reset .empty m.id m.token
  | ask q => exact h

theorem SameStep.of_beq {x y : Answer × Message} (answer : x.1.Same y.1)
    (equal : (x.2 == y.2) = true) : SameStep x y := by
  obtain ⟨size, wire⟩ := encode_eq_of_beq equal
  exact ⟨answer, equal, size, wire⟩

/-- Equal messages are used with the same answer and stay equal. -/
theorem Coherent.use_sameStep {m n : Message} (hm : m.Coherent) (hn : n.Coherent)
    (h : (m == n) = true) (u : Use) : SameStep (m.use u) (n.use u) := by
  have hagree := (hm.beq_iff_agree hn).mp h
  have hid : m.id = n.id := hagree .id
  have htoken : m.token = n.token := hagree .token
  cases u with
  | change e =>
    refine .of_beq (congrArg Answer.changed (refused_eq_of_agree fun p _ => hagree p)) ?_
    rw [Message.use, Message.use, (hm.edit e).beq_iff_agree (hn.edit e)]
    exact fun p => (hagree p).edit hm.accept_le hn.accept_le e
  | ack =>
    have hsame : m.ack = n.ack := by rw [ack, ack, hid, htoken]
    exact .of_beq (ask_same_of_beq h .ack) (beq_iff_borrow_eq.mpr (congrArg borrow hsame))
  | reset =>
    have hsame : m.reset = n.reset := by rw [reset, reset, hid, htoken]
    exact .of_beq (ask_same_of_beq h .reset) (beq_iff_borrow_eq.mpr (congrArg borrow hsame))
  | ask q => exact .of_beq (ask_same_of_beq h q) h

theorem Coherent.useAll_sameStep {m n : Message} (hm : m.Coherent) (hn : n.Coherent)
    (h : (m == n) = true) (us : List Use) :
    List.Forall₂ SameStep (m.useAll us) (n.useAll us) := by
  induction us generalizing m n with
  | nil => exact .nil
  | cons u us ih =>
    have hfirst := hm.use_sameStep hn h u
    exact .cons hfirst (ih (hm.use u) (hn.use u) hfirst.equal)

/-- A message equals its copy that owns all its bytes, and whatever is done with the two, the
answers are the same and the messages stay equal. The same goes for any two equal messages. -/
theorem ownership_unobservable {m : Message} (h : m.Reachable) :
    (m == m.own) = true ∧ m.own.Owned ∧
    (∀ us, List.Forall₂ SameStep (m.useAll us) (m.own.useAll us)) ∧
    ∀ n : Message, n.Reachable → (m == n) = true →
      ∀ us, List.Forall₂ SameStep (m.useAll us) (n.useAll us) := by
  have hown : m.own.Reachable := h.edited .own
  refine ⟨m.own_beq, m.owned_own, ?_, ?_⟩
  · exact fun us => h.coherent.useAll_sameStep hown.coherent m.own_beq us
  · exact fun n hn heq us => h.coherent.useAll_sameStep hn.coherent heq us

/-- A message that borrows its host, and a copy of one that was made in another order. -/
theorem ownership_unobservable_host :
    let m := ((new .confirmable .get 7).edit (.uriHost [0x68])).1.edit (.maxAge 5)
    let n := (((new .confirmable .get 7).edit (.maxAge 5)).1.edit (.uriHost [0x68])).1.edit .own
    let us := [Use.ask .uriHost, .change (.segments .uriQuery [0x61, 0x3D]), .ask .encode, .ack]
    (m.1 == n.1) = true ∧ List.Forall₂ SameStep (m.1.useAll us) (n.1.useAll us) := by
  intro m n us
  have hm : m.1.Reachable := .edited (.edited (.new .confirmable .get 7) _) _
  have hn : n.1.Reachable := .edited (.edited (.edited (.new .confirmable .get 7) _) _) _
  have heq : (m.1 == n.1) = true := by decide
  obtain ⟨_, _, _, hall⟩ := ownership_unobservable hm
  exact ⟨heq, hall n.1 hn heq us⟩

end Message

end Coap
