import Coap.Bytes
import Coap.Proofs.UriSplit

namespace Coap

/-- A byte with an ASCII upper-case letter in it put into lower case. -/
def asciiLower (b : UInt8) : UInt8 := if 0x41 ≤ b ∧ b ≤ 0x5A then b + 0x20 else b

theorem toNat_toLower (c : Char) :
    c.toLower.toNat = if 65 ≤ c.toNat ∧ c.toNat ≤ 90 then c.toNat + 32 else c.toNat := by
  have hupper : c.val ≥ 'A'.val ∧ c.val ≤ 'Z'.val ↔ 65 ≤ c.toNat ∧ c.toNat ≤ 90 := Iff.rfl
  unfold Char.toLower
  simp only [hupper]
  split
  next h =>
    have hlt : c.val.toNat + 32 < 2 ^ 32 := by
      have hle : c.val.toNat ≤ 90 := h.2
      omega
    exact (UInt32.toNat_add _ _).trans (Nat.mod_eq_of_lt hlt)
  next => rfl

theorem toLower_toLower (c : Char) : c.toLower.toLower = c.toLower := by
  apply Char.toNat_inj.mp
  rw [toNat_toLower, if_neg]
  rw [toNat_toLower]
  split <;> omega

theorem map_toLower_map_toLower (l : List Char) :
    (l.map Char.toLower).map Char.toLower = l.map Char.toLower := by
  rw [List.map_map]
  exact List.map_congr_left fun c _ => toLower_toLower c

/-- A character that is no ASCII letter. -/
def Caseless (d : Char) : Prop := d.toNat < 65 ∨ 90 < d.toNat ∧ d.toNat < 97 ∨ 122 < d.toNat

instance : DecidablePred Caseless := fun _ => inferInstanceAs (Decidable (_ ∨ _))

theorem toLower_eq_iff {c d : Char} (hd : Caseless d) : c.toLower = d ↔ c = d := by
  unfold Caseless at hd
  rw [← Char.toNat_inj, ← Char.toNat_inj, toNat_toLower]
  split <;> omega

theorem utf8_ofList (l : List Char) : utf8 (String.ofList l) = l.flatMap String.utf8EncodeChar := by
  rw [utf8, String.toUTF8, String.toByteArray_ofList, List.utf8Encode, List.data_toByteArray]

theorem toNat_asciiLower (b : UInt8) :
    (asciiLower b).toNat = if 65 ≤ b.toNat ∧ b.toNat ≤ 90 then b.toNat + 32 else b.toNat := by
  have hupper : 0x41 ≤ b ∧ b ≤ 0x5A ↔ 65 ≤ b.toNat ∧ b.toNat ≤ 90 := Iff.rfl
  unfold asciiLower
  simp only [hupper]
  split
  next h =>
    have hlt : b.toNat + 32 < 2 ^ 8 := by omega
    exact (UInt8.toNat_add b 0x20).trans (Nat.mod_eq_of_lt hlt)
  next => rfl

theorem utf8EncodeChar_of_lt {c : Char} (h : c.toNat < 128) :
    String.utf8EncodeChar c = [UInt8.ofNat c.toNat] := if_pos (Nat.le_of_lt_succ h)

/-- A character that is not ASCII has no ASCII bytes. -/
theorem le_of_mem_utf8EncodeChar {c : Char} (h : 128 ≤ c.toNat) {b : UInt8}
    (hb : b ∈ String.utf8EncodeChar c) : 128 ≤ b.toNat := by
  have hlarge : ¬c.val.toNat ≤ 127 := Nat.not_le.mpr h
  simp only [String.utf8EncodeChar, if_neg hlarge] at hb
  split at hb
  next =>
    simp only [List.mem_cons, List.not_mem_nil, or_false] at hb
    rcases hb with rfl | rfl <;> rw [UInt8.toNat_ofNat'] <;> omega
  next =>
    split at hb
    next =>
      simp only [List.mem_cons, List.not_mem_nil, or_false] at hb
      rcases hb with rfl | rfl | rfl <;> rw [UInt8.toNat_ofNat'] <;> omega
    next =>
      simp only [List.mem_cons, List.not_mem_nil, or_false] at hb
      rcases hb with rfl | rfl | rfl | rfl <;> rw [UInt8.toNat_ofNat'] <;> omega

theorem utf8EncodeChar_toLower (c : Char) :
    String.utf8EncodeChar c.toLower = (String.utf8EncodeChar c).map asciiLower := by
  have hlower := toNat_toLower c
  by_cases hascii : c.toNat < 128
  · have hstays : c.toLower.toNat < 128 := by
      rw [hlower]
      split <;> omega
    have hbyte : (UInt8.ofNat c.toNat).toNat = c.toNat := by
      rw [UInt8.toNat_ofNat', Nat.mod_eq_of_lt (by omega)]
    have hbyte' : (UInt8.ofNat c.toLower.toNat).toNat = c.toLower.toNat := by
      rw [UInt8.toNat_ofNat', Nat.mod_eq_of_lt (by omega)]
    have hsame : UInt8.ofNat c.toLower.toNat = asciiLower (UInt8.ofNat c.toNat) := by
      apply UInt8.toNat_inj.mp
      rw [hbyte', toNat_asciiLower, hbyte, hlower]
    rw [utf8EncodeChar_of_lt hascii, utf8EncodeChar_of_lt hstays, hsame]
    rfl
  · have hlarge : 128 ≤ c.toNat := Nat.not_lt.mp hascii
    have hsame : c.toLower = c := by
      apply Char.toNat_inj.mp
      rw [hlower, if_neg (by omega)]
    have hbytes : ∀ b ∈ String.utf8EncodeChar c, asciiLower b = b := by
      intro b hb
      have hle := le_of_mem_utf8EncodeChar hlarge hb
      apply UInt8.toNat_inj.mp
      rw [toNat_asciiLower, if_neg (by omega)]
    rw [hsame, List.map_congr_left hbytes, List.map_id']

/-- In bytes, too, only ASCII letters are put into lower case. -/
theorem utf8_map_toLower (l : List Char) :
    utf8 (String.ofList (l.map Char.toLower)) = (utf8 (String.ofList l)).map asciiLower := by
  rw [utf8_ofList, utf8_ofList, List.flatMap_map, List.map_flatMap]
  exact congrArg (List.flatMap · l) (funext utf8EncodeChar_toLower)

/-- Texts that differ at most in the case of ASCII letters. -/
def Recased (s t : List Char) : Prop := s.map Char.toLower = t.map Char.toLower

namespace Recased

variable {s t : List Char} {d : Char}

theorem lowered (s : List Char) : Recased (s.map Char.toLower) s := map_toLower_map_toLower s

theorem eq_nil_iff (h : Recased s t) : s = [] ↔ t = [] := by
  rw [← List.map_eq_nil_iff (f := Char.toLower), h, List.map_eq_nil_iff]

theorem mem_iff (h : Recased s t) (hd : Caseless d) : d ∈ s ↔ d ∈ t := by
  have hmap (l : List Char) : d ∈ l.map Char.toLower ↔ d ∈ l := by
    simp only [List.mem_map, toLower_eq_iff hd, exists_eq_right]
  rw [← hmap s, h, hmap]

theorem head?_iff (h : Recased s t) (hd : Caseless d) :
    s.head? = some d ↔ t.head? = some d := by
  have hmap (l : List Char) : (l.map Char.toLower).head? = some d ↔ l.head? = some d := by
    simp only [List.head?_map, Option.map_eq_some_iff, toLower_eq_iff hd, exists_eq_right]
  rw [← hmap s, h, hmap]

end Recased

namespace Uri

theorem HostText.recased {host host' : List Char} (h : HostText host) (heq : Recased host' host) :
    HostText host' := by
  cases h with
  | @bracketed inside h =>
    obtain ⟨front, back, rfl, hfront, hback⟩ :=
      List.map_eq_append_iff.mp (heq.trans List.map_append)
    obtain ⟨c, inside', rfl, hc, hinside⟩ := List.map_eq_cons_iff.mp hfront
    obtain ⟨d, rfl, hd⟩ := List.map_eq_singleton_iff.mp hback
    obtain rfl : c = '[' := (toLower_eq_iff (by decide)).mp hc
    obtain rfl : d = ']' := (toLower_eq_iff (by decide)).mp hd
    have hinside : Recased inside' inside := hinside
    exact .bracketed (mt (hinside.mem_iff (by decide)).mp h)
  | name filled first plain =>
    have hout (d : Char) (hd : Caseless d) (hplain : d ∉ host) : ∀ c ∈ host', c ≠ d := by
      rintro c hc rfl
      exact hplain ((heq.mem_iff hd).mp hc)
    have hcolon := hout ':' (by decide) fun hm => (plain _ hm).1 rfl
    have hslash := hout '/' (by decide) fun hm => (plain _ hm).2.1 rfl
    have hmark := hout '?' (by decide) fun hm => (plain _ hm).2.2 rfl
    refine .name (mt heq.eq_nil_iff.mp filled) (mt (heq.head?_iff (by decide)).mp first) ?_
    exact fun c hc => ⟨hcolon c hc, hslash c hc, hmark c hc⟩

namespace Parts

/-- The same pieces with another scheme, and another host if they have one. -/
def recase (p : Parts) (scheme host : List Char) : Parts :=
  { p with scheme, host := p.host.map fun _ => host }

theorem lowered_eq_recase (p : Parts) :
    p.lowered = p.recase p.scheme ((p.host.getD []).map Char.toLower) := by
  unfold lowered recase
  cases p.host <;> rfl

theorem lowered_lowered (p : Parts) : p.lowered.lowered = p.lowered := by
  unfold lowered
  cases p.host with
  | none => rfl
  | some host => simp only [Option.map_some, map_toLower_map_toLower]

/-- The case of scheme and host does not tell in a URI. -/
theorem Grammar.recase {p : Parts} (h : p.Grammar) {scheme host : List Char}
    (hscheme : Recased scheme p.scheme) (hhost : Recased host (p.host.getD [])) :
    (p.recase scheme host).Grammar ∧ (p.recase scheme host).uri = p.uri ∧
      (p.recase scheme host).text = scheme ++ (host ++ (p.portText ++ p.tail)) := by
  cases h with
  | path h =>
    obtain rfl := hscheme.eq_nil_iff.mpr rfl
    obtain rfl := hhost.eq_nil_iff.mpr rfl
    exact ⟨.path h, rfl, rfl⟩
  | full hs hh hp ht =>
    refine ⟨.full (hscheme.trans hs) (hh.recased hhost) hp ht, ?_, rfl⟩
    have hlower : host.map Char.toLower = _ := hhost
    simp only [Parts.recase, uri, lowered, Option.map_some, Option.getD_some, hlower]

theorem Grammar.lowered {p : Parts} (h : p.Grammar) :
    p.lowered.Grammar ∧ p.lowered.uri = p.uri := by
  obtain ⟨hgrammar, huri, _⟩ := h.recase rfl (Recased.lowered (p.host.getD []))
  rw [p.lowered_eq_recase]
  exact ⟨hgrammar, huri⟩

/-- Two texts whose bytes are the same but for letters in the host of the first, which are in lower
case in the second. -/
structure HostLowered (p : Parts) (old new : String) : Prop where
  old_eq : utf8 old = utf8 (String.ofList p.scheme) ++ (utf8 (String.ofList (p.host.getD [])) ++
    utf8 (String.ofList (p.portText ++ p.tail)))
  new_eq : utf8 new = utf8 (String.ofList p.scheme) ++
    ((utf8 (String.ofList (p.host.getD []))).map asciiLower ++
      utf8 (String.ofList (p.portText ++ p.tail)))
  length_eq : (utf8 new).length = (utf8 old).length
  path : p.host = none → new = old

/-- The texts that have the scheme and the host of the pieces in any case and go on in the same way.
-/
def Variant (p : Parts) (t : List Char) : Prop := ∃ scheme host, Recased scheme p.scheme ∧
  Recased host (p.host.getD []) ∧ t = scheme ++ (host ++ (p.portText ++ p.tail))

theorem lowered_text (p : Parts) : p.lowered.text =
    p.scheme ++ ((p.host.getD []).map Char.toLower ++ (p.portText ++ p.tail)) := by
  unfold lowered text
  cases p.host <;> rfl

theorem hostLowered (p : Parts) :
    p.HostLowered (String.ofList p.text) (String.ofList p.lowered.text) := by
  have happend (s t : List Char) :
      utf8 (String.ofList (s ++ t)) = utf8 (String.ofList s) ++ utf8 (String.ofList t) := by
    rw [utf8_ofList, utf8_ofList, utf8_ofList, List.flatMap_append]
  have hbefore := happend p.scheme (p.host.getD [] ++ (p.portText ++ p.tail))
  have hafter := happend p.scheme ((p.host.getD []).map Char.toLower ++ (p.portText ++ p.tail))
  rw [happend (p.host.getD [])] at hbefore
  rw [happend ((p.host.getD []).map Char.toLower), utf8_map_toLower, ← p.lowered_text] at hafter
  refine ⟨hbefore, hafter, ?_, ?_⟩
  · change (utf8 _).length = (utf8 (String.ofList (p.scheme ++ _))).length
    rw [hafter, hbefore]
    simp only [List.length_append, List.length_map]
  · intro hpath
    have hsame : p.lowered = p := by
      unfold lowered
      rw [hpath]
      exact congrArg (fun host => { p with host }) hpath.symm
    rw [hsame]

end Parts

theorem split_variant {p : Parts} (h : p.Grammar) {t : String} (ht : p.Variant t.toList) :
    (split t).uri = .ok p.uri := by
  obtain ⟨scheme, host, hscheme, hhost, heq⟩ := ht
  obtain ⟨hgrammar, huri, htext⟩ := h.recase hscheme hhost
  exact split_eq_ok_iff.mpr ⟨_, hgrammar, htext.trans heq.symm, huri⟩

/-- A text that was taken apart is taken apart in the same way again and does not change. -/
theorem split_lowered {p : Parts} (h : p.Grammar) :
    split (String.ofList p.lowered.text) = ⟨String.ofList p.lowered.text, .ok p.uri⟩ := by
  obtain ⟨hgrammar, huri⟩ := h.lowered
  rw [split_of_grammar hgrammar String.toList_ofList.symm, p.lowered_lowered, huri]

/-- A text that is no URI stays as it is. In a URI only letters of the host are put into lower case;
the new text has the same URI and does not change any more. Neither the case of the host nor that of
the scheme tells in a URI. -/
theorem split_lowers_host (s : String) :
    (∀ e, (split s).uri = .error e → (split s).text = s) ∧
    ∀ uri, (split s).uri = .ok uri →
      split (split s).text = ⟨(split s).text, .ok uri⟩ ∧
      (∃ p : Parts, p.Grammar ∧ p.text = s.toList) ∧
      ∀ p : Parts, p.Grammar → p.text = s.toList → p.uri = uri ∧
        p.HostLowered s (split s).text ∧
        ∀ t : String, p.Variant t.toList → (split t).uri = .ok uri := by
  constructor
  · intro e he
    rcases grammar_or_defect s.toList with ⟨p, hp, htext⟩ | ⟨front, rest, hd, heq⟩
    · rw [split_of_grammar hp htext] at he
      cases he
    · rw [split_of_defect hd heq]
  · intro uri huri
    obtain ⟨p, hp, htext, rfl⟩ := split_eq_ok_iff.mp huri
    refine ⟨?_, ⟨p, hp, htext⟩, ?_⟩
    · rw [split_of_grammar hp htext]
      exact split_lowered hp
    · intro q hq hqtext
      rw [split_of_grammar hq hqtext] at huri ⊢
      have hsame : q.uri = p.uri := Except.ok.inj huri
      have hs : s = String.ofList q.text := by rw [hqtext, String.ofList_toList]
      refine ⟨hsame, hs ▸ q.hostLowered, ?_⟩
      intro t ht
      rw [split_variant hq ht, hsame]

/-- The same host in two cases. -/
theorem split_lowers_host_wren :
    let uri : Uri := ⟨false, some "wren", 5683, "A", none⟩
    split (split "CoAP://Wren/A").text = ⟨(split "CoAP://Wren/A").text, .ok uri⟩ ∧
      (split "coap://WREN/A").uri = .ok uri := by
  intro uri
  have hname : HostText "Wren".toList := .name (by decide) (by decide) (by simp)
  have hp : Parts.Grammar ⟨false, "CoAP://".toList, some "Wren".toList, [], 5683, ['/'], "A".toList,
      none⟩ := .full rfl hname .absent (.path (by decide))
  have huri : (split "CoAP://Wren/A").uri = .ok uri := split_eq_ok_iff.mpr ⟨_, hp, rfl, rfl⟩
  obtain ⟨_, hok⟩ := split_lowers_host "CoAP://Wren/A"
  obtain ⟨hagain, _, hparts⟩ := hok uri huri
  obtain ⟨_, _, hvariant⟩ := hparts _ hp rfl
  exact ⟨hagain, hvariant "coap://WREN/A" ⟨"coap://".toList, "WREN".toList, rfl, rfl, rfl⟩⟩

end Uri

end Coap
