import Coap.Proofs.DottedAddress
import Coap.Proofs.RequestDraft
import Coap.Proofs.UriGrammar

namespace Coap

namespace Uri

/-- A host that is an address: one in brackets, or four numbers with dots between them. -/
def IsLiteral (host : List Char) : Prop := host.head? = some '[' ∨ Dotted.Address host

instance : DecidablePred IsLiteral := fun _ => inferInstanceAs (Decidable (_ ∨ _))

/-- Where a request for a text goes. -/
def Parts.target (p : Parts) : Request.Target where
  name := (p.lowered.host.filter fun host => ¬IsLiteral host).map fun host =>
    utf8 (String.ofList host)
  port := if p.port = schemePort p.secure then none else some p.port
  path := Separated.trimmedPieces 0x2F (utf8 (String.ofList p.path))
  query := Separated.trimmedPieces 0x26 (utf8 (String.ofList (p.query.getD [])))

/-- Texts that name the same resource: the case of the host does not count, nor which address it is,
nor how the port is written, nor separators around the pieces of path and query. -/
structure Parts.Alike (p q : Parts) : Prop where
  secure : p.secure = q.secure
  host : p.lowered.host = q.lowered.host ∨
    (∃ host, p.lowered.host = some host ∧ IsLiteral host) ∧
      ∃ host, q.lowered.host = some host ∧ IsLiteral host
  port : p.port = q.port
  path : Separated.trimmedPieces 0x2F (utf8 (String.ofList p.path)) =
    Separated.trimmedPieces 0x2F (utf8 (String.ofList q.path))
  query : Separated.trimmedPieces 0x26 (utf8 (String.ofList (p.query.getD []))) =
    Separated.trimmedPieces 0x26 (utf8 (String.ofList (q.query.getD [])))

theorem Parts.Alike.target_eq {p q : Parts} (h : p.Alike q) : p.target = q.target := by
  have hname : p.lowered.host.filter (fun host => ¬IsLiteral host) =
      q.lowered.host.filter fun host => ¬IsLiteral host := by
    rcases h.host with heq | ⟨⟨host, hp, hl⟩, host', hq, hl'⟩
    · rw [heq]
    · rw [hp, hq, Option.filter_some_neg (by simpa using hl),
        Option.filter_some_neg (by simpa using hl')]
  simp only [Parts.target, hname, h.secure, h.port, h.path, h.query]

theorem Parts.host_uri (p : Parts) : p.uri.host = p.lowered.host.map String.ofList := rfl

theorem Parts.isAddressLiteral_iff {p : Parts} {host : List Char} (h : p.lowered.host = some host) :
    p.uri.isAddressLiteral = true ↔ IsLiteral host := by
  rw [isAddressLiteral, host_uri, h, Option.map_some, Option.any_some, String.toList_ofList,
    Bool.or_eq_true, beq_iff_eq, Dotted.address?_isSome_iff, IsLiteral]

theorem Parts.Grammar.lowered_ne_nil {p : Parts} (h : p.Grammar) {host : List Char}
    (hhost : p.lowered.host = some host) : host ≠ [] := by
  cases h with
  | path => cases hhost
  | full hs hh =>
    obtain rfl := Option.some.inj hhost
    rw [Ne, List.map_eq_nil_iff]
    cases hh with
    | bracketed => exact List.cons_ne_nil _ _
    | name filled => exact filled

end Uri

namespace Request

theorem utf8_ne_nil {s : List Char} (h : s ≠ []) : utf8 (String.ofList s) ≠ [] := by
  intro hnil
  have hsize : (String.ofList s).utf8ByteSize = 0 := congrArg List.length hnil
  have hempty := congrArg String.toList (String.utf8ByteSize_eq_zero_iff.mp hsize)
  rw [String.toList_ofList] at hempty
  exact h hempty

/-- The host, the port and the pieces are set one after the other. -/
theorem target_eq (m : Message) (uri : Uri) : target m uri =
    (match uri.host with
      | some host => if uri.isAddressLiteral then pure m else m.setUriHost (utf8 host)
      | none => pure m) >>= fun m =>
    (let m := if uri.isDefaultPort then m else m.setUriPort uri.port
     if uri.path.isEmpty then pure m else m.setSegments .uriPath (utf8 uri.path)) >>= fun m =>
    match uri.query with
      | some query => if query.isEmpty then pure m else m.setSegments .uriQuery (utf8 query)
      | none => pure m := by
  -- in `target` each branch goes on by itself, here the branches meet before the next setter
  have hjoin (c : Bool) (r r' : Except SetError Message) (f : Message → Except SetError Message) :
      (if c = true then r >>= f else r' >>= f) = (if c = true then r else r') >>= f := by
    cases c <;> rfl
  simp only [target, hjoin]
  cases uri.host <;> rfl

variable {p : Uri.Parts} {code : Code} {t : Target} {w : Wishes} {m : Message}

/-- The host, if it is not an address, is the name in the target. -/
theorem draft_name (hp : p.Grammar) (h : Draft code .nowhere .none m) :
    FirstProblemOr (match p.uri.host with
        | some host => if p.uri.isAddressLiteral then pure m else m.setUriHost (utf8 host)
        | none => pure m)
      (tooLong .uriHost p.target.name.toList)
      (Draft code { Target.nowhere with name := p.target.name } .none) := by
  cases hlowered : p.lowered.host with
  | none =>
    have hname : p.target.name = none := by
      rw [Uri.Parts.target, hlowered]
      rfl
    rw [p.host_uri, hlowered, hname]
    exact ⟨m, rfl, h⟩
  | some host =>
    have hliteral := Uri.Parts.isAddressLiteral_iff hlowered
    rw [p.host_uri, hlowered, Option.map_some]
    dsimp only
    by_cases hl : Uri.IsLiteral host
    · have hname : p.target.name = none := by
        rw [Uri.Parts.target, hlowered, Option.filter_some_neg (by simpa using hl)]
        rfl
      rw [if_pos (hliteral.mpr hl), hname]
      exact ⟨m, rfl, h⟩
    · have hname : p.target.name = some (utf8 (String.ofList host)) := by
        rw [Uri.Parts.target, hlowered, Option.filter_some_pos (by simpa using hl)]
        rfl
      rw [if_neg fun hlit => hl (hliteral.mp hlit), hname]
      exact h.name (utf8_ne_nil (hp.lowered_ne_nil hlowered))

theorem draft_port (h : Draft code t w m) (ht : t.port = none) :
    Draft code { t with port := p.target.port } w
      (if p.uri.isDefaultPort then m else m.setUriPort p.uri.port) := by
  have hiff : p.uri.isDefaultPort = true ↔ p.port = Uri.schemePort p.secure := beq_iff_eq
  by_cases hport : p.port = Uri.schemePort p.secure
  · have hnone : p.target.port = none := if_pos hport
    rw [if_pos (hiff.mpr hport), hnone, ← ht]
    exact h
  · have hsome : p.target.port = some p.port := if_neg hport
    rw [if_neg fun hd => hport (hiff.mp hd), hsome]
    exact h.port p.port

/-- An empty text has no pieces, and nothing is set for it. -/
theorem draft_pieces (h : Draft code t w m) {o : SegmentOption} (ho : o = .uriPath ∨ o = .uriQuery)
    (text : List Char) (hempty : t.withPieces [] o = t) :
    FirstProblemOr (if (String.ofList text).isEmpty then pure m
        else m.setSegments o (utf8 (String.ofList text)))
      (tooLong o.toKnown (Separated.trimmedPieces o.separator (utf8 (String.ofList text))))
      (Draft code (t.withPieces
        (Separated.trimmedPieces o.separator (utf8 (String.ofList text))) o) w) := by
  cases text with
  | nil => exact ⟨m, rfl, hempty.symm ▸ h⟩
  | cons c text =>
    have hfilled : ¬(String.ofList (c :: text)).isEmpty = true := by
      rw [String.isEmpty_iff, String.ofList_eq_empty_iff]
      exact List.cons_ne_nil c text
    rw [if_neg hfilled]
    exact h.pieces ho _

/-- A URI gives its target, or the first of its values that is too long. -/
theorem draft_target (hp : p.Grammar) (code : Code) :
    FirstProblemOr (Request.target (.new .confirmable code 0) p.uri)
      (tooLong .uriHost p.target.name.toList ++
        (tooLong .uriPath p.target.path ++ tooLong .uriQuery p.target.query))
      (Draft code p.target .none) := by
  rw [target_eq]
  refine (draft_name hp (draft_new code)).bind fun m hm => ?_
  refine (draft_pieces (draft_port (p := p) hm rfl) (Or.inl rfl) p.path rfl).bind fun m hm => ?_
  have hmatch : (match p.uri.query with
        | some query => if query.isEmpty then pure m else m.setSegments .uriQuery (utf8 query)
        | none => pure m) =
      if (String.ofList (p.query.getD [])).isEmpty then pure m
      else m.setSegments .uriQuery (utf8 (String.ofList (p.query.getD []))) := by
    have hquery : p.uri.query = p.query.map String.ofList := rfl
    rw [hquery]
    cases p.query <;> rfl
  rw [hmatch]
  exact draft_pieces hm (Or.inr rfl) (p.query.getD []) rfl

end Request

end Coap
