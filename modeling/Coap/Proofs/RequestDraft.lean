import Coap.Proofs.BlockFields
import Coap.Proofs.CarriedValues
import Coap.Request

namespace Coap.Request

/-- Where a request goes, as far as it says so: the host unless it is an address, the port unless it
is the usual one, and the pieces of path and query. -/
structure Target where
  name : Option Bytes
  port : Option UInt16
  path : List Bytes
  query : List Bytes

/-- What the steps ask for. -/
structure Wishes where
  type : MessageType
  payload : Option Bytes
  format : Option UInt16
  accept : List UInt16
  block2 : Option UInt32

def Target.nowhere : Target := ⟨none, none, [], []⟩

def Wishes.none : Wishes := ⟨.confirmable, .none, .none, [], .none⟩

/-- The values that a request carries for each option, as they are written. -/
def values (t : Target) (w : Wishes) : KnownOption → List Bytes
  | .uriHost => t.name.toList
  | .uriPort => (t.port.map fun n => BigEndian.minimal n.toUInt32).toList
  | .uriPath => t.path
  | .uriQuery => t.query
  | .contentType => (w.format.map fun n => BigEndian.minimal n.toUInt32).toList
  | .accept => w.accept.map fun n => BigEndian.minimal n.toUInt32
  | .block2 => (w.block2.map fun num : UInt32 => BigEndian.minimal (num <<< 4 ||| 3)).toList
  | _ => []

/-- A request under construction: its slots hold what target and wishes say, without copies. -/
structure Draft (code : Code) (t : Target) (w : Wishes) (m : Message) : Prop where
  coherent : m.Coherent
  borrowed : m.borrow = m
  frame : m.frame = (0, w.type, 1, .empty, code, w.payload.bind Message.chunk)
  carried : ∀ o, m.carried o = values t w o
  block2 : ∀ num, w.block2 = some num → num ≤ Block.maxNum

/-- The problems of values that an option should carry. -/
def tooLong (o : KnownOption) (values : List Bytes) : List SetError :=
  (values.filter fun v => o.maxLength < v.length).map fun v => .valueTooLong o.number v.length

/-- A setter fails with the first of some problems, or, if there is none, it gives a message with a
property. -/
def FirstProblemOr (r : Except SetError Message) (problems : List SetError)
    (P : Message → Prop) : Prop :=
  match problems with
  | [] => ∃ m, r = .ok m ∧ P m
  | e :: _ => r = .error e

theorem FirstProblemOr.bind {r : Except SetError Message} {f : Message → Except SetError Message}
    {problems later : List SetError} {P Q : Message → Prop} (h : FirstProblemOr r problems P)
    (hf : ∀ m, P m → FirstProblemOr (f m) later Q) :
    FirstProblemOr (r >>= f) (problems ++ later) Q := by
  cases problems with
  | nil =>
    obtain ⟨m, rfl, hm⟩ := h
    exact hf m hm
  | cons e problems =>
    obtain rfl : r = .error e := h
    rfl

theorem FirstProblemOr.eq_error_iff {r : Except SetError Message} {problems : List SetError}
    {P : Message → Prop} (h : FirstProblemOr r problems P) (e : SetError) :
    r = .error e ↔ problems.head? = some e := by
  cases problems with
  | nil =>
    obtain ⟨m, rfl, _⟩ := h
    exact iff_of_false nofun nofun
  | cons e' problems =>
    obtain rfl : r = .error e' := h
    rw [Except.error.injEq, List.head?_cons, Option.some.injEq]

theorem FirstProblemOr.unique {r r' : Except SetError Message} {problems : List SetError}
    {P : Message → Prop} (h : FirstProblemOr r problems P) (h' : FirstProblemOr r' problems P)
    (hP : ∀ m n, P m → P n → m = n) : r = r' := by
  cases problems with
  | nil =>
    obtain ⟨m, rfl, hm⟩ := h
    obtain ⟨n, rfl, hn⟩ := h'
    rw [hP m n hm hn]
  | cons e problems =>
    obtain rfl : r = .error e := h
    obtain rfl : r' = .error e := h'
    rfl

variable {code : Code} {t : Target} {w : Wishes} {m : Message}

theorem draft_new (code : Code) : Draft code .nowhere .none (.new .confirmable code 0) where
  coherent := Message.coherent_bare .confirmable code 0 .empty
  borrowed := rfl
  frame := rfl
  carried o := by
    have habsent : (Message.new .confirmable code 0).has o = false := OptionSet.contains_empty o
    rw [Message.carried_of_absent habsent]
    cases o <;> rfl
  block2 num h := nomatch h

theorem Draft.put (h : Draft code t w m) {o : KnownOption} {value : Bytes}
    (hv : o.admits value.length = true) (hc : o.canonical value = value) {t' : Target}
    {w' : Wishes} (type : w'.type = w.type) (payload : w'.payload = w.payload)
    (hblock : ∀ num, w'.block2 = some num → num ≤ Block.maxNum)
    (hvalues : ∀ p, values t' w' p =
      if p = o then o.select (values t w o ++ [value]) else values t w p) :
    Draft code t' w' (m.put o value) where
  coherent := h.coherent.put hv
  borrowed := by rw [Message.borrow_put, h.borrowed]
  frame := by rw [Message.frame_put, h.frame, type, payload]
  carried p := by rw [h.coherent.carried_put hv hc, h.carried, h.carried, hvalues]
  block2 := hblock

/-- An option that is not repeatable holds the value that was put last. -/
theorem Draft.putSingle (h : Draft code t w m) {o : KnownOption} (ho : o.repeatable = false)
    {value : Bytes} (hv : o.admits value.length = true) (hc : o.canonical value = value)
    {t' : Target} {w' : Wishes} (type : w'.type = w.type) (payload : w'.payload = w.payload)
    (hblock : ∀ num, w'.block2 = some num → num ≤ Block.maxNum)
    (hvalues : ∀ p, values t' w' p = if p = o then [value] else values t w p) :
    Draft code t' w' (m.put o value) := by
  refine h.put hv hc type payload hblock fun p => ?_
  rw [KnownOption.select_concat ho, hvalues]

/-- The check that fails with the first of some problems. -/
def firstOf : List SetError → Except SetError Unit
  | [] => .ok ()
  | e :: _ => .error e

theorem firstOf_append (problems later : List SetError) :
    firstOf (problems ++ later) = firstOf problems >>= fun _ => firstOf later := by
  cases problems <;> rfl

theorem tooLong_cons (o : KnownOption) (value : Bytes) (values : List Bytes) :
    tooLong o (value :: values) = tooLong o [value] ++ tooLong o values := by
  unfold tooLong
  rw [← List.map_append, ← List.filter_append]
  rfl

/-- A value that is not too short has no other problem than that it is too long. -/
theorem checkLength_eq {o : KnownOption} {value : Bytes} (hmin : o.minLength ≤ value.length) :
    o.checkLength value.length = firstOf (tooLong o [value]) := by
  unfold KnownOption.checkLength tooLong
  by_cases hlong : o.maxLength < value.length
  · rw [if_pos hlong, List.filter_cons_of_pos (by simpa using hlong)]
    rfl
  · rw [if_neg hlong, if_neg (Nat.not_lt.mpr hmin), List.filter_cons_of_neg (by simpa using hlong)]
    rfl

theorem checkPieces_eq {o : SegmentOption} (hmin : o.toKnown.minLength = 0) (text : Bytes) :
    o.checkPieces text =
      firstOf (tooLong o.toKnown (Separated.trimmedPieces o.separator text)) := by
  unfold SegmentOption.checkPieces Segments.split
  induction Separated.trimmedPieces o.separator text with
  | nil => rfl
  | cons piece pieces ih =>
    rw [tooLong_cons, firstOf_append, ← ih, ← checkLength_eq (hmin ▸ Nat.zero_le _)]
    rfl

/-- A setter that checks and then sets fails with the first problem of its check. -/
theorem firstProblemOr_map {problems : List SetError} {P : Message → Prop}
    (h : problems = [] → P m) : FirstProblemOr ((firstOf problems).map fun _ => m) problems P := by
  cases problems with
  | nil => exact ⟨m, rfl, h rfl⟩
  | cons e problems => rfl

theorem admits_of_tooLong {o : KnownOption} {value : Bytes} (hmin : o.minLength ≤ value.length)
    (h : tooLong o [value] = []) : o.admits value.length = true := by
  rw [← KnownOption.checkLength_eq_ok, checkLength_eq hmin, h]
  rfl

theorem Draft.name (h : Draft code t w m) {text : Bytes} (filled : text ≠ []) :
    FirstProblemOr (m.setUriHost text) (tooLong .uriHost [text])
      (Draft code { t with name := some text } w) := by
  have hmin : KnownOption.uriHost.minLength ≤ text.length := List.length_pos_iff.mpr filled
  have hset : m.setUriHost text =
      (firstOf (tooLong .uriHost [text])).map fun _ => m.put .uriHost text := by
    rw [← checkLength_eq hmin]
    rfl
  rw [hset]
  refine firstProblemOr_map fun fits => ?_
  refine h.putSingle rfl (admits_of_tooLong hmin fits) rfl rfl rfl h.block2 ?_
  intro p
  cases p <;> rfl

theorem canonical_minimal {o : KnownOption} (h : o.format = .uint) (n : UInt32) :
    o.canonical (BigEndian.minimal n) = BigEndian.minimal n := by
  rw [KnownOption.canonical, if_pos h, BigEndian.dropWhile_minimal]

theorem Draft.port (h : Draft code t w m) (port : UInt16) :
    Draft code { t with port := some port } w (m.setUriPort port) := by
  rw [Message.setUriPort_eq_put]
  refine h.putSingle rfl (KnownOption.admits_of_le rfl (BigEndian.length_minimal_short port))
    (canonical_minimal rfl _) rfl rfl h.block2 ?_
  intro p
  cases p <;> rfl

/-- The target with the pieces of a path or of a query. -/
def Target.withPieces (t : Target) (pieces : List Bytes) : SegmentOption → Target
  | .uriPath => { t with path := pieces }
  | .uriQuery => { t with query := pieces }
  | .locationPath | .locationQuery => t

theorem Draft.pieces (h : Draft code t w m) {o : SegmentOption} (ho : o = .uriPath ∨ o = .uriQuery)
    (text : Bytes) : FirstProblemOr (m.setSegments o text)
      (tooLong o.toKnown (Separated.trimmedPieces o.separator text))
      (Draft code (t.withPieces (Separated.trimmedPieces o.separator text) o) w) := by
  have hmin : o.toKnown.minLength = 0 := by rcases ho with rfl | rfl <;> rfl
  rw [Message.setSegments_eq, checkPieces_eq hmin]
  refine firstProblemOr_map fun fits => ?_
  have hcheck : o.checkPieces text = .ok () := by
    rw [checkPieces_eq hmin, fits]
    rfl
  have hset : m.setSegments o text = .ok (m.withPieces o text) := by
    rw [Message.setSegments_eq, hcheck]
    rfl
  refine ⟨h.coherent.setSegments hset, ?_, ?_, ?_, h.block2⟩
  · rw [Message.borrow_withPieces, h.borrowed]
  · rw [Message.frame_withPieces, h.frame]
  · intro p
    rw [Message.carried_withPieces, h.carried]
    rcases ho with rfl | rfl <;> cases p <;> rfl

theorem Draft.type (h : Draft code t w m) (type : MessageType) :
    Draft code t { w with type } { m with type } where
  coherent := h.coherent.congr rfl (fun o => by cases o <;> rfl) rfl rfl
  borrowed := by
    have hb := h.borrowed
    exact congrArg (fun m : Message => { m with type }) hb
  frame := by
    have hf := h.frame
    simp only [Message.frame, Prod.mk.injEq, true_and] at hf ⊢
    exact ⟨hf.1, hf.2.2⟩
  carried o := by
    have hc := h.carried o
    cases o <;> exact hc
  block2 := h.block2

theorem Draft.payload (h : Draft code t w m) (bytes : Bytes) :
    Draft code t { w with payload := some bytes } (m.setPayload bytes) where
  coherent := h.coherent.setPayload bytes
  borrowed := by
    have hchunk : (Message.chunk bytes).map Segment.borrow = Message.chunk bytes := by
      unfold Message.chunk
      split <;> rfl
    calc
      (m.setPayload bytes).borrow
        = { m.borrow with payload := (Message.chunk bytes).map Segment.borrow } := by
          rw [Message.setPayload_eq]
          rfl
      _ = { m with payload := Message.chunk bytes } := by rw [hchunk, h.borrowed]
      _ = m.setPayload bytes := (m.setPayload_eq bytes).symm
  frame := by
    have hf := h.frame
    rw [Message.setPayload_eq]
    simp only [Message.frame, Prod.mk.injEq] at hf ⊢
    obtain ⟨hid, htype, hversion, htoken, hcode, _⟩ := hf
    exact ⟨hid, htype, hversion, htoken, hcode, rfl⟩
  carried o := by
    have hc := h.carried o
    rw [Message.setPayload_eq]
    cases o <;> exact hc
  block2 := h.block2

theorem Draft.contentFormat (h : Draft code t w m) (f : ContentFormat) :
    Draft code t { w with format := some f.number } (m.setContentFormat f) := by
  rw [Message.setContentFormat, Message.setContentType_eq_put]
  refine h.putSingle rfl (KnownOption.admits_of_le rfl (BigEndian.length_minimal_short f.number))
    (canonical_minimal rfl _) rfl rfl h.block2 ?_
  intro p
  cases p <;> rfl

theorem minimal_toUInt32_inj {m n : UInt16}
    (h : BigEndian.minimal m.toUInt32 = BigEndian.minimal n.toUInt32) : m = n :=
  UInt16.toUInt32_inj.mp (BigEndian.minimal_inj h)

theorem Draft.accept_eq (h : Draft code t w m) : m.accept = w.accept := by
  have hc := h.carried .accept
  rw [h.coherent.carried_of_repeatable rfl] at hc
  exact (List.map_inj_right fun _ _ => minimal_toUInt32_inj).mp hc

theorem Draft.accept (h : Draft code t w m) (n : UInt16) : FirstProblemOr (m.addAccept n)
    (if maxAccept ≤ w.accept.length then [.acceptFull] else [])
    (Draft code t { w with accept := w.accept ++ [n] }) := by
  by_cases hfull : maxAccept ≤ w.accept.length
  · have hm : m.addAccept n = .error .acceptFull := by
      rw [Message.addAccept, h.accept_eq, if_pos hfull]
    rw [if_pos hfull]
    exact hm
  · have hroom : m.accept.length < maxAccept := by
      rw [h.accept_eq]
      exact Nat.not_le.mp hfull
    rw [if_neg hfull]
    refine ⟨_, Message.addAccept_eq_put hroom n, ?_⟩
    refine h.put (KnownOption.admits_of_le rfl (BigEndian.length_minimal_short n))
      (canonical_minimal rfl _) rfl rfl h.block2 ?_
    have htwo : (w.accept ++ [n]).length ≤ maxAccept := by
      rw [List.length_append]
      exact Nat.not_le.mp hfull
    have hselect :
        KnownOption.accept.select (values t w .accept ++ [BigEndian.minimal n.toUInt32]) =
          values t { w with accept := w.accept ++ [n] } .accept := by
      have hmap : values t w .accept ++ [BigEndian.minimal n.toUInt32] =
          (w.accept ++ [n]).map fun n => BigEndian.minimal n.toUInt32 := by
        rw [List.map_append]
        rfl
      have hshort : ((w.accept ++ [n]).map fun n : UInt16 =>
          BigEndian.minimal n.toUInt32).length ≤ maxAccept := by rwa [List.length_map]
      rw [hmap, KnownOption.select, if_pos rfl, List.take_of_length_le hshort]
      rfl
    intro p
    rw [hselect]
    cases p <;> rfl

/-- The block that asks for one chunk of a response. -/
theorem ofParts_chunk {num : UInt32} (h : num ≤ Block.maxNum) :
    Block.ofParts num false (UInt16.ofNat maxChunkSize) = .ok ⟨num <<< 4 ||| 3⟩ := by
  have hnum : ¬Block.maxNum < num := UInt32.not_lt.mpr h
  have hexponent : UInt32.ofNat (UInt16.ofNat maxChunkSize / 16).toNat.log2 = 3 := by decide
  rw [Block.ofParts, if_neg hnum, if_neg (by decide), hexponent, if_neg Bool.false_ne_true,
    UInt32.or_zero]

/-- A block of one chunk is short enough for its option. -/
theorem length_chunk_le {num : UInt32} (h : num ≤ Block.maxNum) :
    (BigEndian.minimal (num <<< 4 ||| 3)).length ≤ 3 :=
  BigEndian.length_minimal_le_three.mpr (Block.raw_lt_of_ofParts (ofParts_chunk h))

theorem Draft.chunk (h : Draft code t w m) (num : UInt32) : FirstProblemOr (step m (.block2 num))
    (if Block.maxNum < num then [.blockNumberTooLarge num] else [])
    (Draft code t { w with block2 := some num }) := by
  by_cases hlarge : Block.maxNum < num
  · rw [if_pos hlarge, step, Block.ofParts, if_pos hlarge]
    rfl
  · have hnum : num ≤ Block.maxNum := UInt32.not_lt.mp hlarge
    have hv := KnownOption.admits_of_le (o := .block2) rfl (length_chunk_le hnum)
    have hset : step m (.block2 num) =
        .ok (m.put .block2 (BigEndian.minimal (num <<< 4 ||| 3))) := by
      rw [step, ofParts_chunk hnum]
      change m.setBlock2 ⟨num <<< 4 ||| 3⟩ = _
      rw [Message.setBlock2_eq_checkedPut, Message.checkedPut, KnownOption.checkLength_eq_ok.mpr hv]
      rfl
    rw [if_neg hlarge]
    refine ⟨_, hset, h.putSingle rfl hv (canonical_minimal rfl _) rfl rfl ?_ ?_⟩
    · rintro _ ⟨rfl⟩
      exact hnum
    · intro p
      cases p <;> rfl

theorem Draft.header (h : Draft code t w m) : m.type = w.type ∧ m.version = protocolVersion ∧
    m.code = code ∧ m.payload = w.payload.bind Message.chunk := by
  have hf := h.frame
  simp only [Message.frame, Prod.mk.injEq] at hf
  obtain ⟨_, htype, hversion, _, hcode, hpayload⟩ := hf
  exact ⟨htype, hversion, hcode, hpayload⟩

/-- Two drafts of the same request are the same message. -/
theorem Draft.unique {n : Message} (hm : Draft code t w m) (hn : Draft code t w n) : m = n := by
  have hframe : m.borrow.frame = n.borrow.frame := by
    rw [hm.borrowed, hn.borrowed, hm.frame, hn.frame]
  have hcarried (o : KnownOption) : m.carried o = n.carried o := by rw [hm.carried, hn.carried]
  have h := hm.coherent.borrow_eq_of_carried hn.coherent hframe hcarried
  rwa [hm.borrowed, hn.borrowed] at h

theorem Draft.get? (h : Draft code t w m) {α : Type} {o : KnownOption} {value : α} {f : α → Bytes}
    (hv : m.values o = [f value]) {asked : Option Bytes} (ha : values t w o = asked.toList) :
    (m.get? o value).map f = asked := by
  have hlist := (Message.toList_get? hv).trans ((h.carried o).trans ha)
  have hhead := congrArg List.head? hlist
  rwa [Option.head?_toList, Option.head?_toList] at hhead

theorem Draft.block2_fields (h : Draft code t w m) :
    m.block2?.map (fun b => (b.num, b.more, b.size)) =
      w.block2.map fun num => (num, false, UInt16.ofNat maxChunkSize) := by
  have hraw : m.block2?.map (fun b => BigEndian.minimal b.raw) =
      (w.block2.map fun num : UInt32 => (⟨num <<< 4 ||| 3⟩ : Block)).map
        fun b => BigEndian.minimal b.raw := by
    rw [Option.map_map]
    exact h.get? (o := .block2) (f := fun b : Block => BigEndian.minimal b.raw) rfl rfl
  have hinj (b c : Block) (he : BigEndian.minimal b.raw = BigEndian.minimal c.raw) : b = c :=
    congrArg Block.mk (BigEndian.minimal_inj he)
  rw [(Option.map_inj_right hinj).mp hraw, Option.map_map]
  cases hnum : w.block2 with
  | none => rfl
  | some num =>
    obtain ⟨b, hb, hbnum, hmore, hsize⟩ := Block.ofParts_fields (h.block2 num hnum)
      (show 16 ≤ UInt16.ofNat maxChunkSize by decide) (by decide) false
    obtain rfl := Except.ok.inj ((ofParts_chunk (h.block2 num hnum)).symm.trans hb)
    have hsize : (⟨num <<< 4 ||| 3⟩ : Block).size = UInt16.ofNat maxChunkSize :=
      UInt16.toNat_inj.mp hsize
    simp only [Option.map_some, Function.comp_apply, hbnum, hmore, hsize]

end Coap.Request
