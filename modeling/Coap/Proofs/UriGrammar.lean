import Coap.Proofs.LongestRun
import Coap.Uri

namespace Coap.Uri

/-- The word of a scheme and what parts it from the host, in any case of ASCII letters. -/
def SchemeText (secure : Bool) (s : List Char) : Prop :=
  s.map Char.toLower = (if secure then "coaps://" else "coap://").toList

/-- A host as it is written: in brackets up to the first closing one, or a name. -/
inductive HostText : List Char → Prop
  | bracketed {inside : List Char} (h : ']' ∉ inside) : HostText ('[' :: inside ++ [']'])
  | name {host : List Char} (filled : host ≠ []) (first : host.head? ≠ some '[')
      (plain : ∀ c ∈ host, c ≠ ':' ∧ c ≠ '/' ∧ c ≠ '?') : HostText host

/-- The port with its colon, and the number it stands for. -/
inductive PortText (default : UInt16) : List Char → UInt16 → Prop
  | absent : PortText default [] default
  | blank : PortText default [':'] default
  | digits {digits : List Char} {port : UInt16} (filled : digits ≠ [])
      (h : ∀ c ∈ digits, c.isDigit = true) (value : Text.decimal digits = port.toNat) :
      PortText default (':' :: digits) port

/-- The slash and the path, if there is one. -/
inductive PathText : List Char → List Char → Prop
  | absent : PathText [] []
  | path {path : List Char} (h : '?' ∉ path) : PathText ['/'] path

/-- The pieces of a text, as they are written, and the port that it stands for. -/
structure Parts where
  secure : Bool
  scheme : List Char
  host : Option (List Char)
  portText : List Char
  port : UInt16
  slash : List Char
  path : List Char
  query : Option (List Char)

/-- The grammar: a path and perhaps a query, or a scheme and a host before them. -/
inductive Parts.Grammar : Parts → Prop
  | path {path : List Char} {query : Option (List Char)} (h : '?' ∉ path) :
      Grammar ⟨false, [], none, [], defaultPort, ['/'], path, query⟩
  | full {secure : Bool} {scheme host portText slash path : List Char} {port : UInt16}
      {query : Option (List Char)} (hs : SchemeText secure scheme) (hh : HostText host)
      (hp : PortText (schemePort secure) portText port) (ht : PathText slash path) :
      Grammar ⟨secure, scheme, some host, portText, port, slash, path, query⟩

namespace Parts

def queryText (p : Parts) : List Char := p.query.elim [] ('?' :: ·)

/-- What stands after the port. -/
def tail (p : Parts) : List Char := p.slash ++ (p.path ++ p.queryText)

def text (p : Parts) : List Char := p.scheme ++ (p.host.getD [] ++ (p.portText ++ p.tail))

/-- The same pieces with the host in lower case. -/
def lowered (p : Parts) : Parts := { p with host := p.host.map (·.map Char.toLower) }

/-- What the pieces stand for; the host is read in lower case. -/
def uri (p : Parts) : Uri where
  secure := p.secure
  host := p.lowered.host.map String.ofList
  port := p.port
  path := String.ofList p.path
  query := p.query.map String.ofList

/-- The scheme, what stands for a URI's views, and what parts them, in the order of the text. -/
def tiles (p : Parts) (uri : Uri) : List String :=
  [String.ofList p.scheme, uri.host.getD "", String.ofList p.portText, String.ofList p.slash,
    uri.path, if uri.query.isSome then "?" else "", uri.query.getD ""]

end Parts

/-- The texts that have a URI: a path, or a scheme and a host, perhaps a port, and what may follow
them. -/
inductive Accepted : List Char → Prop
  | path (rest : List Char) : Accepted ('/' :: rest)
  | full {secure : Bool} {scheme host portText rest : List Char} {port : UInt16}
      (hs : SchemeText secure scheme) (hh : HostText host)
      (hp : PortText (schemePort secure) portText port)
      (hrest : ∀ c, rest.head? = some c → c = '/' ∨ c = '?') :
      Accepted (scheme ++ (host ++ (portText ++ rest)))

/-- A text may end here, or go on with something that is not part of a name. -/
def EndsName (rest : List Char) : Prop := ∀ c, rest.head? = some c → c = ':' ∨ c = '/' ∨ c = '?'

def EndsHost (host rest : List Char) : Prop := host.head? = some '[' ∨ EndsName rest

def EndsPort (portText rest : List Char) : Prop :=
  ∀ c, rest.head? = some c → if portText = [] then c ≠ ':' else c.isDigit = false

/-- The first defect of a text in two parts: it cannot be understood from the second part on. -/
inductive Defect : List Char → List Char → Prop
  | scheme {s : List Char} (relative : s.head? ≠ some '/')
      (h : ∀ secure front rest, SchemeText secure front → s ≠ front ++ rest) : Defect [] s
  | noHost {secure : Bool} {scheme rest : List Char} (hs : SchemeText secure scheme)
      (h : EndsName rest) : Defect scheme rest
  | unclosed {secure : Bool} {scheme inside : List Char} (hs : SchemeText secure scheme)
      (h : ']' ∉ inside) : Defect (scheme ++ '[' :: inside) []
  | port {secure : Bool} {scheme host digits rest : List Char} (hs : SchemeText secure scheme)
      (hh : HostText host) (hd : ∀ c ∈ digits, c.isDigit = true)
      (hr : ∀ c, rest.head? = some c → c.isDigit = false) (h : 65535 < Text.decimal digits) :
      Defect (scheme ++ (host ++ [':'])) (digits ++ rest)
  | path {secure : Bool} {scheme host portText rest : List Char} {port : UInt16} {c : Char}
      (hs : SchemeText secure scheme) (hh : HostText host)
      (hp : PortText (schemePort secure) portText port)
      (endsHost : EndsHost host (portText ++ c :: rest)) (endsPort : EndsPort portText (c :: rest))
      (hc : c ≠ '/' ∧ c ≠ '?') : Defect (scheme ++ (host ++ portText)) (c :: rest)

theorem dropFolded_eq_some_iff {word s rest : List Char} : dropFolded word s = some rest ↔
    ∃ front, front.map Char.toLower = word ∧ s = front ++ rest := by
  induction word generalizing s with
  | nil =>
    simp only [dropFolded, Option.some.injEq, List.map_eq_nil_iff]
    constructor
    · rintro rfl
      exact ⟨[], rfl, rfl⟩
    · rintro ⟨_, rfl, rfl⟩
      rfl
  | cons w word ih =>
    cases s with
    | nil =>
      refine iff_of_false (fun h => nomatch h) ?_
      rintro ⟨front, hf, hs⟩
      obtain ⟨rfl, _⟩ := List.append_eq_nil_iff.mp hs.symm
      cases hf
    | cons c s =>
      unfold dropFolded
      by_cases hc : c.toLower = w
      · rw [if_pos (by simpa using hc), ih]
        constructor
        · rintro ⟨front, rfl, rfl⟩
          exact ⟨c :: front, congrArg (· :: _) hc, rfl⟩
        · rintro ⟨front, hf, hs⟩
          cases front with
          | nil => cases hf
          | cons d front =>
            obtain ⟨rfl, rfl⟩ := List.cons.inj hs
            exact ⟨front, (List.cons.inj hf).2, rfl⟩
      · rw [if_neg (by simpa using hc)]
        refine iff_of_false (fun h => nomatch h) ?_
        rintro ⟨front, hf, hs⟩
        cases front with
        | nil => cases hf
        | cons d front =>
          obtain ⟨rfl, rfl⟩ := List.cons.inj hs
          exact hc (List.cons.inj hf).1

theorem SchemeText.secure_eq {secure secure' : Bool} {front front' rest rest' : List Char}
    (h : SchemeText secure front) (h' : SchemeText secure' front')
    (heq : front ++ rest = front' ++ rest') : secure = secure' := by
  have hmap := congrArg (List.map Char.toLower) heq
  rw [List.map_append, List.map_append, h, h'] at hmap
  cases secure <;> cases secure' <;> first | rfl | simp at hmap

theorem SchemeText.head?_ne {secure : Bool} {front : List Char} (h : SchemeText secure front)
    (rest : List Char) : (front ++ rest).head? ≠ some '/' := by
  cases front with
  | nil => cases secure <;> cases h
  | cons c front =>
    intro hc
    obtain rfl := Option.some.inj hc
    cases secure <;> cases h

theorem scheme?_eq_some_iff {s rest : List Char} {secure : Bool} :
    scheme? s = some (secure, rest) ↔ ∃ front, SchemeText secure front ∧ s = front ++ rest := by
  unfold scheme?
  cases hs : dropFolded "coaps://".toList s with
  | some rest' =>
    obtain ⟨front', hf', hs'⟩ := dropFolded_eq_some_iff.mp hs
    have hsecure : SchemeText true front' := hf'
    constructor
    · rintro ⟨rfl, rfl⟩
      exact ⟨front', hsecure, hs'⟩
    · rintro ⟨front, hf, hs''⟩
      obtain rfl := hsecure.secure_eq hf (hs'.symm.trans hs'')
      have hdrop := dropFolded_eq_some_iff.mpr ⟨front, hf, hs''⟩
      obtain rfl := Option.some.inj (hs.symm.trans hdrop)
      rfl
  | none =>
    constructor
    · intro h
      obtain ⟨_, hdrop, he⟩ := Option.map_eq_some_iff.mp h
      cases he
      exact dropFolded_eq_some_iff.mp hdrop
    · rintro ⟨front, hf, hs'⟩
      have hdrop := dropFolded_eq_some_iff.mpr ⟨front, hf, hs'⟩
      cases secure with
      | true =>
        rw [if_pos rfl, hs] at hdrop
        cases hdrop
      | false => exact congrArg (Option.map _) hdrop

theorem EndsName.colon (rest : List Char) : EndsName (':' :: rest) := by
  rintro c ⟨rfl⟩
  exact Or.inl rfl

theorem ne_closing_of_notMem {inside : List Char} (h : ']' ∉ inside) :
    ∀ c ∈ '[' :: inside, (c != ']') = true := by
  intro c hc
  rw [bne_iff_ne]
  rcases List.mem_cons.mp hc with rfl | hc
  · decide
  · exact fun he => h (he ▸ hc)

theorem inName_iff {c : Char} :
    (c != ':' && c != '/' && c != '?') = true ↔ c ≠ ':' ∧ c ≠ '/' ∧ c ≠ '?' := by
  simp [and_assoc]

/-- A host that ends is taken as it is written. -/
theorem HostText.take {host rest : List Char} (h : HostText host) (ends : EndsHost host rest) :
    takeHost (host ++ rest) = .ok (host, rest) := by
  cases h with
  | @bracketed inside h =>
    have hi := ne_closing_of_notMem h
    obtain ⟨htake, hdrop⟩ := takeWhile_append_stop (r := ']' :: rest) hi (by rintro c ⟨rfl⟩; rfl)
    have hbracket : ('[' :: inside ++ ']' :: rest).head? = some '[' := rfl
    rw [List.append_assoc, List.singleton_append]
    unfold takeHost
    rw [if_pos hbracket, htake, hdrop]
  | name filled first plain =>
    have hi : ∀ c ∈ host, (c != ':' && c != '/' && c != '?') = true :=
      fun c hc => inName_iff.mpr (plain c hc)
    have hr : ∀ c, rest.head? = some c → (c != ':' && c != '/' && c != '?') = false := by
      intro c hc
      rcases ends.resolve_left first c hc with rfl | rfl | rfl <;> rfl
    obtain ⟨htake, hdrop⟩ := takeWhile_append_stop hi hr
    cases host with
    | nil => exact absurd rfl filled
    | cons c host =>
      have hbracket : ¬(c :: host ++ rest).head? = some '[' := first
      unfold takeHost
      rw [if_neg hbracket]
      dsimp only
      rw [htake, hdrop]

theorem takeHost_of_endsName {s : List Char} (h : EndsName s) : takeHost s = .error s := by
  cases s with
  | nil => rfl
  | cons c s => rcases h c rfl with rfl | rfl | rfl <;> rfl

theorem takeHost_of_unclosed {inside : List Char} (h : ']' ∉ inside) :
    takeHost ('[' :: inside) = .error [] := by
  obtain ⟨_, hdrop⟩ := takeWhile_append_stop (r := []) (ne_closing_of_notMem h) nofun
  rw [List.append_nil] at hdrop
  have hbracket : ('[' :: inside).head? = some '[' := rfl
  unfold takeHost
  rw [if_pos hbracket, hdrop]

/-- A text starts with a host, or it has none, or it opens a bracket that is never closed. -/
theorem host_or_defect (s : List Char) :
    (∃ host rest, HostText host ∧ EndsHost host rest ∧ s = host ++ rest) ∨ EndsName s ∨
    ∃ inside, ']' ∉ inside ∧ s = '[' :: inside := by
  by_cases hbracket : s.head? = some '['
  · obtain ⟨s, rfl⟩ := List.head?_eq_some_iff.mp hbracket
    obtain ⟨inside, rest, rfl, hi, hr⟩ := exists_takeWhile (· != ']') s
    have hclosing : ']' ∉ inside := fun hm => bne_iff_ne.mp (hi _ hm) rfl
    cases rest with
    | nil => exact Or.inr (Or.inr ⟨inside, hclosing, by rw [List.append_nil]⟩)
    | cons c rest =>
      obtain rfl : c = ']' := by simpa using hr c rfl
      refine Or.inl ⟨'[' :: inside ++ [']'], rest, .bracketed hclosing, Or.inl rfl, ?_⟩
      rw [List.append_assoc]
      rfl
  · obtain ⟨host, rest, rfl, hi, hr⟩ :=
      exists_takeWhile (fun c => c != ':' && c != '/' && c != '?') s
    have hends : EndsName rest := by
      intro c hc
      have hc := hr c hc
      simp only [Bool.and_eq_false_iff, bne_eq_false_iff_eq, or_assoc] at hc
      exact hc
    cases host with
    | nil => exact Or.inr (Or.inl hends)
    | cons c host =>
      have hplain : ∀ d ∈ c :: host, d ≠ ':' ∧ d ≠ '/' ∧ d ≠ '?' :=
        fun d hd => inName_iff.mp (hi d hd)
      exact Or.inl ⟨c :: host, rest, .name (List.cons_ne_nil c host) hbracket hplain,
        Or.inr hends, rfl⟩

theorem takePort_of_no_colon {s : List Char} (h : s.head? ≠ some ':') (default : UInt16) :
    takePort default s = .ok (default, s) := by
  unfold takePort
  split
  next => exact absurd rfl h
  next => rfl

/-- After a colon, all digits are read. -/
theorem takePort_colon {digits rest : List Char} (hd : ∀ c ∈ digits, c.isDigit = true)
    (hr : ∀ c, rest.head? = some c → c.isDigit = false) (default : UInt16) :
    takePort default (':' :: (digits ++ rest)) =
      if digits = [] then .ok (default, rest)
      else if 65535 < Text.decimal digits then .error (digits ++ rest)
      else .ok (UInt16.ofNat (Text.decimal digits), rest) := by
  obtain ⟨htake, hdrop⟩ := takeWhile_append_stop hd hr
  simp only [takePort, htake, hdrop]
  cases digits with
  | nil => rfl
  | cons d digits => rfl

/-- A port that ends is read as the number of its digits, or as the default. -/
theorem PortText.take {default port : UInt16} {portText rest : List Char}
    (h : PortText default portText port) (ends : EndsPort portText rest) :
    takePort default (portText ++ rest) = .ok (port, rest) := by
  cases h with
  | absent =>
    have hr : rest.head? ≠ some ':' := fun hc => by simpa using ends ':' hc
    exact takePort_of_no_colon hr default
  | blank =>
    have hr : ∀ c, rest.head? = some c → c.isDigit = false := fun c hc => by simpa using ends c hc
    have hnone : ∀ c ∈ ([] : List Char), c.isDigit = true := fun c hc => nomatch hc
    exact takePort_colon hnone hr default
  | @digits digits _ filled hd value =>
    have hr : ∀ c, rest.head? = some c → c.isDigit = false := fun c hc => by simpa using ends c hc
    have hport : UInt16.ofNat (Text.decimal digits) = port := by rw [value, UInt16.ofNat_toNat]
    have hlt := port.toNat_lt
    rw [List.cons_append, takePort_colon hd hr, if_neg filled, if_neg (by omega), hport]

/-- What follows a host starts with a port, or with a colon and a number that is no port. -/
theorem port_or_defect (default : UInt16) (s : List Char) :
    (∃ portText port rest, PortText default portText port ∧ EndsPort portText rest ∧
      s = portText ++ rest) ∨
    ∃ digits rest, (∀ c ∈ digits, c.isDigit = true) ∧
      (∀ c, rest.head? = some c → c.isDigit = false) ∧ 65535 < Text.decimal digits ∧
      s = ':' :: (digits ++ rest) := by
  by_cases hcolon : s.head? = some ':'
  · obtain ⟨s, rfl⟩ := List.head?_eq_some_iff.mp hcolon
    obtain ⟨digits, rest, rfl, hd, hr⟩ := exists_takeWhile Char.isDigit s
    by_cases hbig : 65535 < Text.decimal digits
    · exact Or.inr ⟨digits, rest, hd, hr, hbig, rfl⟩
    · have hends : EndsPort (':' :: digits) rest := by
        intro c hc
        rw [if_neg (List.cons_ne_nil ':' digits)]
        exact hr c hc
      left
      by_cases hfilled : digits = []
      · rw [hfilled] at hends ⊢
        exact ⟨[':'], default, rest, .blank, hends, rfl⟩
      · have hvalue : Text.decimal digits = (UInt16.ofNat (Text.decimal digits)).toNat := by
          rw [UInt16.toNat_ofNat']
          exact (Nat.mod_eq_of_lt (by omega)).symm
        exact ⟨':' :: digits, _, rest, .digits hfilled hd hvalue, hends, rfl⟩
  · have hends : EndsPort [] s := by
      intro c hc
      rw [if_pos rfl]
      rintro rfl
      exact hcolon hc
    exact Or.inl ⟨[], default, s, .absent, hends, rfl⟩

theorem takePath_of_other {c : Char} (h : c ≠ '/' ∧ c ≠ '?') (rest : List Char) :
    takePath (c :: rest) = .error (c :: rest) := by
  unfold takePath
  split
  next he => cases he
  next he => exact absurd (List.cons.inj he).1 h.1
  next he => exact absurd (List.cons.inj he).1 h.2
  next => rfl

theorem PathText.take {slash path : List Char} (h : PathText slash path)
    (query : Option (List Char)) :
    takePath (slash ++ (path ++ query.elim [] ('?' :: ·))) = .ok (path, query) := by
  cases h with
  | absent => cases query <;> rfl
  | path h =>
    have hp : ∀ c ∈ path, (c != '?') = true := fun c hc => bne_iff_ne.mpr fun he => h (he ▸ hc)
    have hr : ∀ c, (query.elim [] ('?' :: ·)).head? = some c → (c != '?') = false := by
      intro c hc
      cases query with
      | none => cases hc
      | some query =>
        obtain rfl := Option.some.inj hc
        rfl
    obtain ⟨htake, hdrop⟩ := takeWhile_append_stop hp hr
    rw [List.singleton_append]
    simp only [takePath, htake, hdrop]
    cases query <;> rfl

/-- What follows the port is a path and a query, or it starts with something else. -/
theorem path_or_other (s : List Char) :
    (∃ slash path, ∃ query : Option (List Char), PathText slash path ∧
      s = slash ++ (path ++ query.elim [] ('?' :: ·))) ∨
    ∃ c rest, (c ≠ '/' ∧ c ≠ '?') ∧ s = c :: rest := by
  cases s with
  | nil => exact Or.inl ⟨[], [], none, .absent, rfl⟩
  | cons c s =>
    by_cases hslash : c = '/'
    · obtain ⟨path, rest, rfl, hp, hr⟩ := exists_takeWhile (· != '?') s
      have hmark : '?' ∉ path := fun hm => bne_iff_ne.mp (hp _ hm) rfl
      left
      cases rest with
      | nil => exact ⟨['/'], path, none, .path hmark, by rw [hslash]; rfl⟩
      | cons d query =>
        obtain rfl : d = '?' := by simpa using hr d rfl
        exact ⟨['/'], path, some query, .path hmark, by rw [hslash]; rfl⟩
    · by_cases hmark : c = '?'
      · exact Or.inl ⟨[], [], some s, .absent, by rw [hmark]; rfl⟩
      · exact Or.inr ⟨c, s, ⟨hslash, hmark⟩, rfl⟩

end Coap.Uri
