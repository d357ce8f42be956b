import Coap.Proofs.UriGrammar

namespace Coap.Uri

theorem PathText.endsPort {slash path : List Char} (h : PathText slash path)
    (query : Option (List Char)) : ∀ c,
    (slash ++ (path ++ query.elim [] ('?' :: ·))).head? = some c → c = '/' ∨ c = '?' := by
  intro c hc
  cases h with
  | absent =>
    cases query with
    | none => cases hc
    | some query => exact Or.inr (Option.some.inj hc).symm
  | path => exact Or.inl (Option.some.inj hc).symm

theorem EndsPort.of_tail {rest : List Char} (h : ∀ c, rest.head? = some c → c = '/' ∨ c = '?')
    (portText : List Char) : EndsPort portText rest := by
  intro c hc
  rcases h c hc with rfl | rfl <;> split <;> decide

theorem PortText.endsHost {default port : UInt16} {portText rest : List Char}
    (h : PortText default portText port)
    (hrest : ∀ c, rest.head? = some c → c = '/' ∨ c = '?') (host : List Char) :
    EndsHost host (portText ++ rest) := by
  right
  cases h with
  | absent => exact fun c hc => Or.inr (hrest c hc)
  | blank => exact EndsName.colon rest
  | digits => exact EndsName.colon _

/-- After a scheme, the rest is taken apart. -/
theorem SchemeText.splitChars_append {secure : Bool} {scheme : List Char}
    (hs : SchemeText secure scheme) (rest : List Char) : splitChars (scheme ++ rest) = do
      let (host, afterHost) ← takeHost rest
      let (port, afterPort) ← takePort (schemePort secure) afterHost
      let (path, query) ← takePath afterPort
      return ({ secure, host := some (String.ofList (host.map Char.toLower)), port,
                path := String.ofList path, query := query.map String.ofList },
              scheme ++ (host.map Char.toLower ++ afterHost)) := by
  have hscheme : scheme? (scheme ++ rest) = some (secure, rest) :=
    scheme?_eq_some_iff.mpr ⟨scheme, hs, rfl⟩
  have hfront : (scheme ++ rest).take ((scheme ++ rest).length - rest.length) = scheme := by
    rw [List.length_append, Nat.add_sub_cancel, List.take_left]
  unfold splitChars splitAfterScheme
  rw [if_neg (hs.head?_ne rest), hscheme]
  simp only [hfront, List.append_assoc]

/-- A text of the grammar is accepted, and only its host changes. -/
theorem Parts.Grammar.read {p : Parts} (h : p.Grammar) :
    splitChars p.text = .ok (p.uri, p.lowered.text) := by
  cases h with
  | @path path query h =>
    have hpath := (PathText.path h).take query
    have hslash : (['/'] ++ (path ++ query.elim [] ('?' :: ·))).head? = some '/' := rfl
    change splitChars (['/'] ++ (path ++ query.elim [] ('?' :: ·))) = _
    unfold splitChars
    rw [if_pos hslash, hpath]
    rfl
  | @full secure scheme host portText slash path port query hs hh hp ht =>
    have htail := ht.endsPort query
    have hhost := hh.take (hp.endsHost htail host)
    have hport := hp.take (EndsPort.of_tail htail portText)
    have hpath := ht.take query
    change splitChars (scheme ++ (host ++ (portText ++ (slash ++ (path ++
      query.elim [] ('?' :: ·)))))) = _
    rw [hs.splitChars_append, hhost]
    dsimp only [bind, Except.bind]
    rw [hport]
    dsimp only
    rw [hpath]
    rfl

/-- A text with a defect is refused from there on. -/
theorem Defect.read {front rest : List Char} (h : Defect front rest) :
    splitChars (front ++ rest) = .error rest := by
  cases h with
  | scheme relative h =>
    have hnone : scheme? rest = none := by
      rw [Option.eq_none_iff_forall_ne_some]
      rintro ⟨secure, after⟩ hs
      obtain ⟨front, hf, rfl⟩ := scheme?_eq_some_iff.mp hs
      exact h secure front after hf rfl
    rw [List.nil_append]
    unfold splitChars splitAfterScheme
    rw [if_neg relative, hnone]
  | noHost hs h =>
    rw [hs.splitChars_append, takeHost_of_endsName h]
    rfl
  | unclosed hs h =>
    rw [List.append_nil, hs.splitChars_append, takeHost_of_unclosed h]
    rfl
  | @port secure scheme host digits rest hs hh hd hr h =>
    have hfilled : digits ≠ [] := by
      rintro rfl
      exact absurd h (by decide)
    have hends : EndsHost host (':' :: (digits ++ rest)) := Or.inr (EndsName.colon _)
    have hhost := hh.take hends
    have hport := takePort_colon hd hr (schemePort secure)
    rw [if_neg hfilled, if_pos h] at hport
    simp only [List.append_assoc, List.singleton_append]
    rw [hs.splitChars_append, hhost]
    dsimp only [bind, Except.bind]
    rw [hport]
  | path hs hh hp endsHost endsPort hc =>
    simp only [List.append_assoc]
    rw [hs.splitChars_append, hh.take endsHost]
    dsimp only [bind, Except.bind]
    rw [hp.take endsPort]
    dsimp only
    rw [takePath_of_other hc]

theorem PathText.exists_of_slash (s : List Char) : ∃ path, ∃ query : Option (List Char),
    '?' ∉ path ∧ '/' :: s = ['/'] ++ (path ++ query.elim [] ('?' :: ·)) := by
  rcases path_or_other ('/' :: s) with ⟨slash, path, query, ht, heq⟩ | ⟨c, rest, hc, heq⟩
  · cases ht with
    | absent => cases query <;> cases heq
    | path h => exact ⟨path, query, h, heq⟩
  · obtain ⟨rfl, _⟩ := List.cons.inj heq
    exact absurd rfl hc.1

/-- Every text is of the grammar or has a defect. -/
theorem grammar_or_defect (s : List Char) : (∃ p : Parts, p.Grammar ∧ p.text = s) ∨
    ∃ front rest, Defect front rest ∧ s = front ++ rest := by
  by_cases hslash : s.head? = some '/'
  · obtain ⟨s, rfl⟩ := List.head?_eq_some_iff.mp hslash
    obtain ⟨path, query, h, heq⟩ := PathText.exists_of_slash s
    have hp : Parts.Grammar ⟨_, _, _, _, _, _, path, query⟩ := .path h
    exact Or.inl ⟨_, hp, heq.symm⟩
  by_cases hscheme : ∃ secure front rest, SchemeText secure front ∧ s = front ++ rest
  · obtain ⟨secure, scheme, s, hs, rfl⟩ := hscheme
    rcases host_or_defect s with ⟨host, s, hh, endsHost, rfl⟩ | hnone | ⟨inside, hi, rfl⟩
    · rcases port_or_defect (schemePort secure) s with
        ⟨portText, port, s, hp, endsPort, rfl⟩ | ⟨digits, rest, hd, hr, hbig, rfl⟩
      · rcases path_or_other s with ⟨slash, path, query, ht, rfl⟩ | ⟨c, rest, hc, rfl⟩
        · have hg : Parts.Grammar ⟨_, _, _, _, _, _, path, query⟩ := .full hs hh hp ht
          exact Or.inl ⟨_, hg, rfl⟩
        · exact Or.inr ⟨_, _, .path hs hh hp endsHost endsPort hc, by simp⟩
      · exact Or.inr ⟨_, _, .port hs hh hd hr hbig, by simp⟩
    · exact Or.inr ⟨_, _, .noHost hs hnone, rfl⟩
    · exact Or.inr ⟨_, _, .unclosed hs hi, by simp⟩
  · have hno : ∀ secure front rest, SchemeText secure front → s ≠ front ++ rest :=
      fun secure front rest hs heq => hscheme ⟨secure, front, rest, hs, heq⟩
    exact Or.inr ⟨[], s, .scheme hslash hno, rfl⟩

theorem accepted_iff_grammar {s : List Char} :
    Accepted s ↔ ∃ p : Parts, p.Grammar ∧ p.text = s := by
  constructor
  · intro h
    cases h with
    | path rest =>
      obtain ⟨path, query, h, heq⟩ := PathText.exists_of_slash rest
      have hp : Parts.Grammar ⟨_, _, _, _, _, _, path, query⟩ := .path h
      exact ⟨_, hp, heq.symm⟩
    | @full secure scheme host portText rest port hs hh hp hrest =>
      rcases path_or_other rest with ⟨slash, path, query, ht, rfl⟩ | ⟨c, rest, hc, rfl⟩
      · have hg : Parts.Grammar ⟨_, _, _, _, _, _, path, query⟩ := .full hs hh hp ht
        exact ⟨_, hg, rfl⟩
      · exact absurd (hrest c rfl) (not_or.mpr hc)
  · rintro ⟨p, hp, rfl⟩
    cases hp with
    | path h => exact .path _
    | full hs hh hp ht => exact .full hs hh hp (ht.endsPort _)

theorem utf8Length_eq (s : List Char) : utf8Length s = (String.ofList s).utf8ByteSize := by
  induction s with
  | nil => rfl
  | cons c s ih =>
    rw [String.ofList_cons, String.utf8ByteSize_append, String.utf8ByteSize_singleton, ← ih]
    rfl

theorem split_of_read {s : String} {uri : Uri} {after : List Char}
    (h : splitChars s.toList = .ok (uri, after)) : split s = ⟨String.ofList after, .ok uri⟩ := by
  unfold split
  rw [h]

/-- The position of a defect is the length of the text before it. -/
theorem split_of_defect {s : String} {front rest : List Char} (h : Defect front rest)
    (heq : s.toList = front ++ rest) :
    split s = ⟨s, .error (.malformed (String.ofList front).utf8ByteSize)⟩ := by
  have hread : splitChars s.toList = .error rest := heq ▸ h.read
  have hat : utf8Length s.toList - utf8Length rest = (String.ofList front).utf8ByteSize := by
    rw [heq, utf8Length_eq, utf8Length_eq, String.ofList_append, String.utf8ByteSize_append,
      Nat.add_sub_cancel]
  unfold split
  rw [hread]
  dsimp only
  rw [hat]

theorem Parts.join_tiles (p : Parts) :
    String.join (p.tiles p.uri) = String.ofList p.lowered.text := by
  have hquery : (if p.uri.query.isSome then "?" else "") ++ p.uri.query.getD "" =
      String.ofList p.queryText := by
    unfold Parts.uri Parts.queryText
    cases p.query with
    | none => rfl
    | some query =>
      have happend : String.ofList (['?'] ++ query) = String.ofList ['?'] ++ String.ofList query :=
        String.ofList_append
      exact happend.symm
  have hhost : p.uri.host.getD "" = String.ofList (p.lowered.host.getD []) := by
    unfold Parts.uri Parts.lowered
    cases p.host <;> rfl
  have htext : p.lowered.text = p.scheme ++ (p.lowered.host.getD [] ++
      (p.portText ++ (p.slash ++ (p.path ++ p.queryText)))) := rfl
  simp only [Parts.tiles, String.join_cons, String.join_nil, String.append_empty, htext,
    String.ofList_append, hhost, hquery]
  rfl

/-- Before any of the strings of a list, a character of the joined string begins. -/
theorem isValid_join_take (l : List String) (k : Nat) :
    (String.join (l.take k)).rawEndPos.IsValid (String.join l) := by
  rw [String.Pos.Raw.isValid_iff_exists_append]
  refine ⟨String.join (l.take k), String.join (l.drop k), ?_, rfl⟩
  rw [← String.join_append, List.take_append_drop]

theorem split_of_grammar {s : String} {p : Parts} (hp : p.Grammar) (htext : p.text = s.toList) :
    split s = ⟨String.ofList p.lowered.text, .ok p.uri⟩ :=
  split_of_read (htext ▸ hp.read)

theorem split_eq_ok_iff {s : String} {uri : Uri} : (split s).uri = .ok uri ↔
    ∃ p : Parts, p.Grammar ∧ p.text = s.toList ∧ p.uri = uri := by
  constructor
  · intro h
    rcases grammar_or_defect s.toList with ⟨p, hp, htext⟩ | ⟨front, rest, hd, heq⟩
    · rw [split_of_grammar hp htext] at h
      exact ⟨p, hp, htext, Except.ok.inj h⟩
    · rw [split_of_defect hd heq] at h
      cases h
  · rintro ⟨p, hp, htext, rfl⟩
    rw [split_of_grammar hp htext]

/-- Exactly the texts of the grammar have a URI. The text afterwards is made of the URI's views and
what parts them, and they all begin and end with a character. A text of another kind is refused with
the position of its first defect. -/
theorem split_grammar (s : String) :
    ((∃ uri, (split s).uri = .ok uri) ↔ Accepted s.toList) ∧
    (∀ uri, (split s).uri = .ok uri ↔ ∃ p : Parts, p.Grammar ∧ p.text = s.toList ∧ p.uri = uri) ∧
    (∀ p : Parts, p.Grammar → p.text = s.toList →
      (split s).text = String.join (p.tiles p.uri) ∧
      ∀ k, (String.join ((p.tiles p.uri).take k)).rawEndPos.IsValid (split s).text) ∧
    ∀ position, (split s).uri = .error (.malformed position) ↔ ∃ front rest,
      Defect front rest ∧ s.toList = front ++ rest ∧
      position = (String.ofList front).utf8ByteSize := by
  refine ⟨?_, fun uri => split_eq_ok_iff, ?_, ?_⟩
  · rw [accepted_iff_grammar]
    constructor
    · rintro ⟨uri, h⟩
      obtain ⟨p, hp, htext, _⟩ := split_eq_ok_iff.mp h
      exact ⟨p, hp, htext⟩
    · rintro ⟨p, hp, htext⟩
      exact ⟨p.uri, split_eq_ok_iff.mpr ⟨p, hp, htext, rfl⟩⟩
  · intro p hp htext
    have hafter : (split s).text = String.join (p.tiles p.uri) := by
      rw [split_of_grammar hp htext, p.join_tiles]
    exact ⟨hafter, fun k => hafter ▸ isValid_join_take (p.tiles p.uri) k⟩
  · intro position
    constructor
    · intro h
      rcases grammar_or_defect s.toList with ⟨p, hp, htext⟩ | ⟨front, rest, hd, heq⟩
      · rw [split_of_grammar hp htext] at h
        cases h
      · rw [split_of_defect hd heq] at h
        exact ⟨front, rest, hd, heq, (UriError.malformed.inj (Except.error.inj h)).symm⟩
    · rintro ⟨front, rest, hd, heq, rfl⟩
      rw [split_of_defect hd heq]

theorem split_grammar_full :
    (split "CoAP://Wren:61616/a?b?c").uri = .ok ⟨false, some "wren", 61616, "a", some "b?c"⟩ ∧
    (split "CoAP://Wren:61616/a?b?c").text = "CoAP://wren:61616/a?b?c" := by
  have hname : HostText "Wren".toList := .name (by decide) (by decide) (by simp)
  have hdigits : ∀ c ∈ "61616".toList, c.isDigit = true := by simp [Char.isDigit]
  have hport : PortText (schemePort false) ":61616".toList 61616 :=
    .digits (by decide) hdigits (by decide)
  have hp : Parts.Grammar ⟨false, "CoAP://".toList, some "Wren".toList, ":61616".toList, 61616,
      ['/'], "a".toList, some "b?c".toList⟩ := .full rfl hname hport (.path (by decide))
  obtain ⟨_, huri, htiles, _⟩ := split_grammar "CoAP://Wren:61616/a?b?c"
  exact ⟨(huri _).mpr ⟨_, hp, rfl, rfl⟩, (htiles _ hp rfl).1⟩

end Coap.Uri
