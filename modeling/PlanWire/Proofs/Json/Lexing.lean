import PlanWire.Json.Text
import PlanWire.Json.Token
import PlanWire.Proofs.Text.Utf8

/-!
# Written text is cut into its tokens

A written string is cut again as one token whatever follows its closing quote,
and the text of that token is the string. The lexer takes a written string
character by character: an escape is taken as a whole, and a byte of any other
character is neither quote nor backslash nor control character. Texts whose
tokens do not depend on what follows are put together freely.
-/

set_option autoImplicit false

namespace PlanWire.Json

open Text.Utf8

def rawText (s : String) : List UInt8 := encode (s.toList.flatMap escapeChar)

structure Plain (b : UInt8) : Prop where
  quote : b ≠ 0x22
  backslash : b ≠ 0x5c
  control : 0x20 ≤ b.toNat

/-- The bytes are cut as a whole and stand for one character. -/
structure Escapes (raw : List UInt8) (c : Char) : Prop where
  cut : ∀ rest, cutText (raw ++ rest) = grow raw (cutText rest)
  unescape : ∀ rest, unescape (raw ++ rest) = (unescape rest).map (encodeChar c ++ ·)

theorem cutText_plain {b : UInt8} (h : Plain b) (rest : List UInt8) :
    cutText (b :: rest) = grow [b] (cutText rest) := by
  have hb : (decide (b.toNat < 0x20) || b == 0x5c) = false := by
    simp [h.backslash, Nat.not_lt.2 h.control]
  rw [cutText.eq_def]
  split
  · next he => cases he; exact absurd rfl h.quote
  · next he => cases he; exact absurd rfl h.backslash
  · next he => cases he; exact absurd rfl h.backslash
  · next he => cases he; simp [hb]
  · next he => cases he

theorem unescape_plain {b : UInt8} (h : b ≠ 0x5c) (rest : List UInt8) :
    unescape (b :: rest) = (unescape rest).map (b :: ·) := by
  rw [unescape.eq_def]
  split
  · next he => cases he
  · next he => cases he; exact absurd rfl h
  · next he => cases he; exact absurd rfl h
  · next he => cases he; cases unescape rest <;> rfl

theorem cutText_short {e : UInt8} (hu : e ≠ 0x75) (he : (shortEscape? e).isSome)
    (rest : List UInt8) : cutText (0x5c :: e :: rest) = grow [0x5c, e] (cutText rest) := by
  rw [cutText.eq_def]
  split
  · next h => cases h
  · next h => cases h; exact absurd rfl hu
  · next h => cases h; simp [he]
  · next hn h => cases h; exact absurd rfl (hn _ _ rfl)
  · next h => cases h

theorem unescape_short {e b : UInt8} (hu : e ≠ 0x75) (he : shortEscape? e = some b)
    (rest : List UInt8) : unescape (0x5c :: e :: rest) = (unescape rest).map (b :: ·) := by
  rw [unescape.eq_def]
  split
  · next h => cases h
  · next h => cases h; exact absurd rfl hu
  · next h => cases h; cases unescape rest <;> simp [he]
  · next hn h => cases h; exact absurd rfl (hn _ _ rfl)

theorem grow_grow (first second : List UInt8) (o : Option (List UInt8 × List UInt8)) :
    grow first (grow second o) = grow (first ++ second) o := by
  cases o <;> simp [grow]

theorem escapes_plain {c : Char} (h : ∀ b ∈ encodeChar c, Plain b) : Escapes (encodeChar c) c := by
  generalize hbs : encodeChar c = bs at h
  have hcut (rest : List UInt8) : cutText (bs ++ rest) = grow bs (cutText rest) := by
    clear hbs
    induction bs with
    | nil => cases h : cutText rest <;> simp [grow, h]
    | cons b bs ih =>
      rw [List.cons_append, cutText_plain (h b (List.mem_cons_self ..)),
        ih fun x hx => h x (List.mem_cons_of_mem _ hx), grow_grow, List.singleton_append]
  have hunescape (rest : List UInt8) : unescape (bs ++ rest) = (unescape rest).map (bs ++ ·) := by
    clear hbs hcut
    induction bs with
    | nil => simp
    | cons b bs ih =>
      rw [List.cons_append, unescape_plain (h b (List.mem_cons_self ..)).backslash,
        ih fun x hx => h x (List.mem_cons_of_mem _ hx), Option.map_map]
      rfl
  exact ⟨hcut, fun rest => by rw [hbs]; exact hunescape rest⟩

theorem escapes_short {c : Char} {e b : UInt8} (hu : e ≠ 0x75) (he : shortEscape? e = some b)
    (hc : encodeChar c = [b]) : Escapes [0x5c, e] c where
  cut := cutText_short hu (by simp [he])
  unescape rest := by
    rw [hc]
    exact unescape_short hu he rest

def hexByte (n : Nat) : UInt8 := (Nat.digitChar n).toNat.toUInt8

theorem control_units : ∀ n < 0x20,
    encode ('\\' :: 'u' :: hexQuad n) =
      [0x5c, 0x75, 0x30, 0x30, hexByte (n / 16), hexByte (n % 16)] ∧
    unit? 0x30 0x30 (hexByte (n / 16)) (hexByte (n % 16)) = some n := by
  decide

theorem escapes_control {c : Char} (h : c.toNat < 0x20) :
    Escapes (encode ('\\' :: 'u' :: hexQuad c.toNat)) c := by
  obtain ⟨hraw, hunit⟩ := control_units c.toNat h
  have hhigh : isHighHalf c.toNat = false := by simp [isHighHalf]; omega
  have hbytes : unitBytes? c.toNat = some (encodeChar c) := by
    simp [unitBytes?, character_toNat c (Nat.zero_le _)]
  rw [hraw]
  refine ⟨fun rest => ?_, fun rest => ?_⟩
  · simp [cutText, hunit]
  · cases htail : unescape rest <;> simp [unescape, hunit, hhigh, hbytes, htail]

theorem plain_of_mem_encodeChar {c : Char} (hq : c ≠ '"') (hs : c ≠ '\\') (hc : ¬ c.toNat < 0x20)
    {b : UInt8} (hb : b ∈ encodeChar c) : Plain b := by
  by_cases ha : c.toNat < 0x80
  · rw [encodeChar_of_lt ha, List.mem_singleton] at hb
    have hn : b.toNat = c.toNat := by rw [hb]; exact toNat_toUInt8 (by omega)
    refine ⟨fun h => hq (Char.toNat_inj.1 ?_), fun h => hs (Char.toNat_inj.1 ?_), by omega⟩
    · rw [← hn, h]; rfl
    · rw [← hn, h]; rfl
  · have hle := le_of_mem_encodeChar (Nat.not_lt.1 ha) hb
    refine ⟨fun h => ?_, fun h => ?_, by omega⟩ <;> rw [h] at hle <;> exact absurd hle (by decide)

theorem escapes_escapeChar (c : Char) : Escapes (encode (escapeChar c)) c := by
  simp only [escapeChar]
  split
  · next h => subst h; exact escapes_short (by decide) rfl rfl
  split
  · next h => subst h; exact escapes_short (by decide) rfl rfl
  split
  · next h => subst h; exact escapes_short (by decide) rfl rfl
  split
  · next h => subst h; exact escapes_short (by decide) rfl rfl
  split
  · next h => subst h; exact escapes_short (by decide) rfl rfl
  split
  · next h => subst h; exact escapes_short (by decide) rfl rfl
  split
  · next h => subst h; exact escapes_short (by decide) rfl rfl
  split
  · next h => exact escapes_control h
  · next hquote hslash _ _ _ _ _ hcontrol =>
    rw [encode, List.flatMap_singleton]
    exact escapes_plain fun b => plain_of_mem_encodeChar hquote hslash hcontrol

theorem cutText_rawText (s : String) (rest : List UInt8) :
    cutText (rawText s ++ 0x22 :: rest) = some (rawText s, rest) := by
  simp only [rawText]
  induction s.toList with
  | nil => rfl
  | cons c cs ih =>
    rw [List.flatMap_cons, encode_append, List.append_assoc, (escapes_escapeChar c).cut, ih]
    rfl

theorem unescape_rawText (s : String) : unescape (rawText s) = some (encode s.toList) := by
  simp only [rawText]
  induction s.toList with
  | nil => rfl
  | cons c cs ih =>
    rw [List.flatMap_cons, encode_append, (escapes_escapeChar c).unescape, ih]
    rfl

theorem text?_rawText (s : String) : text? (rawText s) = some s := by
  simp [text?, unescape_rawText, decode_encode]

/-- The bytes are cut into these tokens, whatever follows them. -/
structure Lexes (bytes : List UInt8) (ts : List Token) : Prop where
  scan : ∀ fuel rest, scan (fuel + ts.length) (bytes ++ rest) = ts ++ scan fuel rest
  length : ts.length ≤ bytes.length

theorem Lexes.append {bytes more : List UInt8} {ts us : List Token} (h : Lexes bytes ts)
    (g : Lexes more us) : Lexes (bytes ++ more) (ts ++ us) where
  scan fuel rest := by
    rw [List.length_append, Nat.add_comm ts.length, ← Nat.add_assoc, List.append_assoc, h.scan,
      g.scan, List.append_assoc]
  length := by
    have := h.length
    have := g.length
    simp only [List.length_append]
    omega

theorem lexes_of_cutToken {b : UInt8} {bytes : List UInt8} {t : Token} (hb : isBlank b = false)
    (ht : t ≠ .bad) (h : ∀ rest, cutToken (b :: (bytes ++ rest)) = (t, rest)) :
    Lexes (b :: bytes) [t] where
  scan fuel rest := by
    simp only [List.cons_append, List.length_singleton, Json.scan, List.dropWhile_cons, hb]
    cases t with
    | bad => exact absurd rfl ht
    | _ => simp [h]
  length := by simp

theorem lexes_text (s : String) : Lexes (encode (stringText s)) [.text (rawText s)] := by
  have hbytes : encode (stringText s) = 0x22 :: (rawText s ++ [0x22]) := by
    rw [stringText, List.cons_append, encode, List.flatMap_cons, ← encode, encode_append]
    rfl
  rw [hbytes]
  refine lexes_of_cutToken rfl (by simp) fun rest => ?_
  simp [cutToken, cutText_rawText]

theorem tokens_of_scan {bytes : List UInt8} {ts : List Token} (hlength : ts.length ≤ bytes.length)
    (hscan : ∀ fuel, scan (fuel + ts.length) (bytes ++ []) = ts ++ scan fuel []) :
    tokens bytes = ts := by
  obtain ⟨fuel, hfuel⟩ := Nat.exists_eq_add_of_le' hlength
  have hnil : scan fuel [] = [] := by cases fuel <;> rfl
  have hend := hscan fuel
  rw [List.append_nil, hnil, List.append_nil] at hend
  rw [tokens, hfuel, hend]

theorem tokens_of_lexes {bytes : List UInt8} {ts : List Token} (h : Lexes bytes ts) :
    tokens bytes = ts :=
  tokens_of_scan h.length fun fuel => h.scan fuel []

theorem lexes_cons {c : Char} {cs : List Char} {t : Token} {ts : List Token}
    (hc : Lexes (encode [c]) [t]) (h : Lexes (encode cs) ts) : Lexes (encode (c :: cs)) (t :: ts) := by
  have happend := hc.append h
  rwa [← encode_append] at happend

theorem lexes_append {cs ds : List Char} {ts us : List Token} (h : Lexes (encode cs) ts)
    (g : Lexes (encode ds) us) : Lexes (encode (cs ++ ds)) (ts ++ us) := by
  rw [encode_append]
  exact h.append g

theorem lexes_openArray : Lexes (encode ['[']) [.openArray] :=
  lexes_of_cutToken rfl (by simp) fun _ => rfl

theorem lexes_closeArray : Lexes (encode [']']) [.closeArray] :=
  lexes_of_cutToken rfl (by simp) fun _ => rfl

theorem lexes_openObject : Lexes (encode ['\x7b']) [.openObject] :=
  lexes_of_cutToken rfl (by simp) fun _ => rfl

theorem lexes_closeObject : Lexes (encode ['\x7d']) [.closeObject] :=
  lexes_of_cutToken rfl (by simp) fun _ => rfl

theorem lexes_comma : Lexes (encode [',']) [.comma] :=
  lexes_of_cutToken rfl (by simp) fun _ => rfl

theorem lexes_colon : Lexes (encode [':']) [.colon] :=
  lexes_of_cutToken rfl (by simp) fun _ => rfl

end PlanWire.Json
