import Coap.Proofs.Ownership
import Coap.Proofs.RefusedEdit

namespace Coap

/-- A name and a value as they can stand in a form: the first equals sign ends the name, and an
ampersand ends the pair. -/
structure FormPair where
  name : Bytes
  value : Bytes
  equals_notMem_name : 0x3D ∉ name
  ampersand_notMem_name : 0x26 ∉ name
  ampersand_notMem_value : 0x26 ∉ value

namespace FormPair

def text (pair : FormPair) : Bytes := pair.name ++ 0x3D :: pair.value

theorem ampersand_notMem_text (pair : FormPair) : 0x26 ∉ pair.text := by
  simp [text, pair.ampersand_notMem_name, pair.ampersand_notMem_value]

theorem text_ne_nil (pair : FormPair) : pair.text ≠ [] := by simp [text]

end FormPair

abbrev Form := List FormPair

namespace Form

/-- The pairs, joined with ampersands. -/
def text (form : Form) : Bytes := [0x26].intercalate (form.map FormPair.text)

/-- The value of the first pair with a name. -/
def value? (form : Form) (name : Bytes) : Option Bytes :=
  (form.find? (·.name == name)).map FormPair.value

theorem trimmedPieces_text (form : Form) :
    Separated.trimmedPieces 0x26 form.text = form.map FormPair.text := by
  have hne (pair? : Option FormPair) : pair?.map FormPair.text ≠ some [] := by
    intro h
    obtain ⟨pair, _, hpair⟩ := Option.map_eq_some_iff.mp h
    exact pair.text_ne_nil hpair
  rw [text, Separated.trimmedPieces_intercalate_iff, List.head?_map, List.getLast?_map,
    List.forall_mem_map]
  exact ⟨fun pair _ => pair.ampersand_notMem_text, hne _, hne _⟩

end Form

namespace Message

theorem splitPair_text (pair : FormPair) : splitPair pair.text = some (pair.name, pair.value) := by
  obtain ⟨htake, hdrop⟩ := takeWhile_ne_append pair.equals_notMem_name pair.value
  rw [splitPair, FormPair.text, htake, hdrop]

/-- The variables of a form are found in its pairs. -/
theorem findVariable_text (form : Form) (name : Bytes) :
    findVariable (form.map FormPair.text) name = form.value? name := by
  have hpairs : (form.map FormPair.text).filterMap splitPair =
      form.map fun pair => (pair.name, pair.value) := by
    rw [List.filterMap_map, ← List.filterMap_eq_map]
    exact congrArg (List.filterMap · form) (funext splitPair_text)
  rw [findVariable, hpairs, List.find?_map, Option.map_map]
  rfl

theorem postVariable_edit_payload (m : Message) {text : Bytes} (h : text.length ≤ maxChunkSize)
    (name : Bytes) : (m.edit (.payload text)).1.postVariable name =
      findVariable (Separated.trimmedPieces 0x26 text) name := by
  rw [edit, setPayload_eq, postVariable, chunk, List.take_of_length_le h]
  cases text <;> rfl

theorem queryVariable_edit_segments (m : Message) {text : Bytes}
    (h : (m.edit (.segments .uriQuery text)).2 = none) (name : Bytes) :
    (m.edit (.segments .uriQuery text)).1.queryVariable name =
      findVariable (Separated.trimmedPieces 0x26 text) name := by
  have hvalue : (m.withPieces .uriQuery text).uriQuery = Segments.split text 0x26 := rfl
  rw [edit_segments_eq_none_iff] at h
  rw [edit_segments, h, ← Segments.map_bytes_split, ← hvalue]
  rfl

/-- A query is taken if none of its pieces is too long. -/
theorem edit_query_eq_none {m : Message} {text : Bytes}
    (h : ∀ piece ∈ Separated.trimmedPieces 0x26 text,
      piece.length ≤ KnownOption.uriQuery.maxLength) :
    (m.edit (.segments .uriQuery text)).2 = none := by
  rw [edit_segments_eq_none_iff, SegmentOption.checkPieces_eq_ok_iff]
  exact fun piece hpiece => KnownOption.admits_of_le rfl (h piece hpiece)

/-- A message answers every name with the value in a form, also after it is written and read back,
which it can be exactly if its code may be sent and its version is read. -/
structure Finds (lookup : Message → Bytes → Option Bytes) (m : Message) (form : Form) : Prop where
  value : ∀ name, lookup m name = form.value? name
  returned : ∀ n, m.Returns n → ∀ name, lookup n name = form.value? name
  returns : (∃ n, m.Returns n) ↔
    m.version.toNat % 4 = 1 ∧ m.code.fitsByte = true ∧ m.code.isLocal = false

theorem Coherent.finds {lookup : Message → Bytes → Option Bytes} {m : Message} {form : Form}
    (h : m.Coherent) (hvalue : ∀ name, lookup m name = form.value? name)
    (hcopy : ∀ name, lookup ({ m with version := 1 } : Message).borrow name = lookup m name) :
    Finds lookup m form where
  value := hvalue
  returned n hn name := by rw [h.eq_of_returns hn, hcopy, hvalue]
  returns := h.exists_returns_iff

theorem Coherent.finds_query {m : Message} (h : m.Coherent) {form : Form}
    (hform : ∀ pair ∈ form, pair.text.length ≤ KnownOption.uriQuery.maxLength) :
    (m.edit (.segments .uriQuery form.text)).2 = none ∧
      Finds queryVariable (m.edit (.segments .uriQuery form.text)).1 form := by
  have htaken : (m.edit (.segments .uriQuery form.text)).2 = none := by
    apply edit_query_eq_none
    rwa [form.trimmedPieces_text, List.forall_mem_map]
  refine ⟨htaken, (h.edit _).finds ?_ fun name => queryVariable_borrow _ name⟩
  intro name
  rw [queryVariable_edit_segments m htaken, form.trimmedPieces_text, findVariable_text]

theorem Coherent.finds_post {m : Message} (h : m.Coherent) {form : Form}
    (hform : form.text.length ≤ maxChunkSize) :
    Finds postVariable (m.edit (.payload form.text)).1 form := by
  refine (h.edit _).finds ?_ fun name => postVariable_borrow _ name
  intro name
  rw [postVariable_edit_payload m hform, form.trimmedPieces_text, findVariable_text]

/-- A text that fits in a payload is taken as a query too, and its variables are the same. -/
theorem query_agrees_with_payload (m : Message) {text : Bytes} (h : text.length ≤ maxChunkSize) :
    m.refusals [.segments .uriQuery text, .payload text] = [none, none] ∧
      ∀ name, (m.editAll [.segments .uriQuery text, .payload text]).queryVariable name =
        (m.editAll [.segments .uriQuery text, .payload text]).postVariable name := by
  have htaken : (m.edit (.segments .uriQuery text)).2 = none := by
    apply edit_query_eq_none
    intro piece hpiece
    have hlength := Separated.length_le_of_mem_trimmedPieces hpiece
    have hroom : maxChunkSize ≤ KnownOption.uriQuery.maxLength := by decide
    omega
  refine ⟨congrArg (· :: [none]) htaken, ?_⟩
  intro name
  have hquery : ((m.edit (.segments .uriQuery text)).1.edit (.payload text)).1.queryVariable name =
      (m.edit (.segments .uriQuery text)).1.queryVariable name := by
    rw [edit, setPayload_eq]
    rfl
  calc
    _ = (m.edit (.segments .uriQuery text)).1.queryVariable name := hquery
    _ = findVariable (Separated.trimmedPieces 0x26 text) name :=
      queryVariable_edit_segments m htaken name
    _ = _ := (postVariable_edit_payload _ h name).symm

/-- The variables of a form are found in a payload that it fits in and in a query that its pairs fit
in. For any text that fits in a payload, the variables of the query are those of the payload. -/
theorem form_variables {m : Message} (h : m.Reachable) :
    (∀ form : Form,
      (form.text.length ≤ maxChunkSize →
        Finds postVariable (m.edit (.payload form.text)).1 form) ∧
      ((∀ pair ∈ form, pair.text.length ≤ KnownOption.uriQuery.maxLength) →
        (m.edit (.segments .uriQuery form.text)).2 = none ∧
          Finds queryVariable (m.edit (.segments .uriQuery form.text)).1 form)) ∧
    ∀ text : Bytes, text.length ≤ maxChunkSize →
      m.refusals [.segments .uriQuery text, .payload text] = [none, none] ∧
      ∀ name, (m.editAll [.segments .uriQuery text, .payload text]).queryVariable name =
        (m.editAll [.segments .uriQuery text, .payload text]).postVariable name := by
  refine ⟨fun form => ⟨?_, ?_⟩, ?_⟩
  · exact h.coherent.finds_post
  · exact h.coherent.finds_query
  · exact fun text ht => m.query_agrees_with_payload ht

/-- The first of two pairs with the same name counts; its value holds an equals sign. -/
theorem form_variables_first :
    let form : Form := [⟨[0x61], [0x31, 0x3D], by decide, by decide, by decide⟩,
      ⟨[0x61], [0x32], by decide, by decide, by decide⟩]
    let m := new .confirmable .get 7
    form.value? [0x61] = some [0x31, 0x3D] ∧ form.value? [0x62] = none ∧
      Finds postVariable (m.edit (.payload form.text)).1 form ∧
      Finds queryVariable (m.edit (.segments .uriQuery form.text)).1 form := by
  intro form m
  obtain ⟨hform, _⟩ := form_variables (.new .confirmable .get 7)
  obtain ⟨hpost, hquery⟩ := hform form
  exact ⟨by decide, by decide, hpost (by decide), (hquery (by decide)).2⟩

end Message

end Coap
