import PlanWire.Proofs.Json.Lexing

/-!
# Numbers are cut from what follows them

A number has no closing mark: it ends before the first byte that belongs to no
number. So a text with a number at its end is cut into tokens only where such a
byte follows, and this is so for everything that is written behind a value.
-/

set_option autoImplicit false

namespace PlanWire

open Text.Utf8

/-- The text of the number is one literal, and the literal stands for it. -/
def Number.Rereads (n : Number) : Prop :=
  ∃ l, Json.cutLiteral (encode n.text) = some (l, []) ∧ l.value? = some n

namespace Json

section Cutting

structure Foreign (b : UInt8) : Prop where
  digit : digit? b = none
  point : b ≠ 0x2e
  mark : b ≠ 0x65 ∧ b ≠ 0x45
  sign : b ≠ 0x2d ∧ b ≠ 0x2b

/-- A number in front of these bytes ends before them. -/
def Stops (rest : List UInt8) : Prop := ∀ b ∈ rest.head?, Foreign b

variable {rest : List UInt8} (h : Stops rest)

def behind {α : Type} (rest : List UInt8) : Option (α × List UInt8) → Option (α × List UInt8) :=
  Option.map fun (a, left) => (a, left ++ rest)

include h

theorem cutDigits_append (bytes : List UInt8) :
    cutDigits (bytes ++ rest) = ((cutDigits bytes).1, (cutDigits bytes).2 ++ rest) := by
  induction bytes with
  | nil =>
    cases rest with
    | nil => rfl
    | cons b rest => simp [cutDigits, (h b rfl).digit]
  | cons b bytes ih =>
    simp only [List.cons_append, cutDigits]
    cases hb : digit? b with
    | none => rfl
    | some d => simp only [ih]

theorem cutWhole_append (bytes : List UInt8) :
    cutWhole (bytes ++ rest) = behind rest (cutWhole bytes) := by
  simp only [cutWhole, cutDigits_append h bytes]
  obtain ⟨ds, left⟩ := cutDigits bytes
  match ds with
  | [] => rfl
  | [d] => cases d <;> rfl
  | 0 :: _ :: _ => rfl
  | (d + 1) :: _ :: _ => rfl

theorem cutSome_append (bytes : List UInt8) :
    cutSome (bytes ++ rest) = behind rest (cutSome bytes) := by
  simp only [cutSome, cutDigits_append h bytes]
  obtain ⟨ds, left⟩ := cutDigits bytes
  cases ds <;> rfl

theorem cutFraction_append (bytes : List UInt8) :
    cutFraction (bytes ++ rest) = behind rest (cutFraction bytes) := by
  cases bytes with
  | nil =>
    cases rest with
    | nil => rfl
    | cons b rest =>
      have hb := (h b rfl).point
      simp [cutFraction, hb, behind]
  | cons b bytes =>
    by_cases hb : b = 0x2e
    · subst hb
      exact cutSome_append h bytes
    · simp [cutFraction, hb, behind]

theorem map_cutSome_append (down : Bool) (bytes : List UInt8) :
    (cutSome (bytes ++ rest)).map (fun (ds, left) => (some (down, ds), left)) =
      behind rest ((cutSome bytes).map fun (ds, left) => (some (down, ds), left)) := by
  rw [cutSome_append h]
  cases cutSome bytes <;> rfl

theorem cutExponent_append (bytes : List UInt8) :
    cutExponent (bytes ++ rest) = behind rest (cutExponent bytes) := by
  cases bytes with
  | nil =>
    cases rest with
    | nil => rfl
    | cons b rest =>
      obtain ⟨hlower, hupper⟩ := (h b rfl).mark
      simp [cutExponent, hlower, hupper, behind]
  | cons e bytes =>
    by_cases he : (e == 0x65 || e == 0x45) = true
    · cases bytes with
      | nil =>
        have hempty : cutSome [] = none := rfl
        cases rest with
        | nil => simp [cutExponent, he, behind, hempty]
        | cons b rest =>
          have hnone : cutSome (b :: rest) = none := cutSome_append h []
          obtain ⟨hminus, hplus⟩ := (h b rfl).sign
          simp [cutExponent, he, hminus, hplus, hnone, behind, hempty]
      | cons s bytes =>
        have hmap := map_cutSome_append h
        by_cases hminus : s = 0x2d
        · subst hminus
          simpa [cutExponent, he] using hmap true bytes
        · by_cases hplus : s = 0x2b
          · subst hplus
            simpa [cutExponent, he] using hmap false bytes
          · simpa [cutExponent, he, hminus, hplus] using hmap false (s :: bytes)
    · simp [cutExponent, he, behind]

theorem cutMagnitude_append (negative : Bool) (bytes : List UInt8) :
    cutMagnitude negative (bytes ++ rest) = behind rest (cutMagnitude negative bytes) := by
  simp only [cutMagnitude, cutWhole_append h bytes]
  cases cutWhole bytes with
  | none => rfl
  | some cut =>
    obtain ⟨whole, left⟩ := cut
    simp only [behind, Option.map_some, Option.bind_eq_bind, Option.bind_some,
      cutFraction_append h left]
    cases cutFraction left with
    | none => rfl
    | some cut =>
      obtain ⟨fraction, left⟩ := cut
      simp only [behind, Option.map_some, Option.bind_some, cutExponent_append h left]
      cases cutExponent left <;> rfl

theorem cutLiteral_append (bytes : List UInt8) :
    cutLiteral (bytes ++ rest) = behind rest (cutLiteral bytes) := by
  cases bytes with
  | nil =>
    cases rest with
    | nil => rfl
    | cons b rest =>
      have hsign := (h b rfl).sign.1
      have hcut := cutMagnitude_append h false []
      simpa [cutLiteral, hsign] using hcut
  | cons b bytes =>
    by_cases hb : b = 0x2d
    · subst hb
      exact cutMagnitude_append h true bytes
    · simpa [cutLiteral, hb] using cutMagnitude_append h false (b :: bytes)

end Cutting

theorem first_of_cutLiteral {bytes left : List UInt8} {l : Number.Literal}
    (h : cutLiteral bytes = some (l, left)) :
    ∃ b rest, bytes = b :: rest ∧ (b = 0x2d ∨ ∃ d, digit? b = some d) := by
  cases bytes with
  | nil => cases h
  | cons b rest =>
    refine ⟨b, rest, rfl, ?_⟩
    by_cases hb : b = 0x2d
    · exact .inl hb
    · cases hd : digit? b with
      | some d => exact .inr ⟨d, rfl⟩
      | none =>
        have hnone : cutLiteral (b :: rest) = none := by
          simp [cutLiteral, hb, cutMagnitude, cutWhole, cutDigits, hd]
        rw [hnone] at h
        cases h

theorem cutToken_of_cutLiteral {bytes left : List UInt8} {l : Number.Literal}
    (h : cutLiteral bytes = some (l, left)) : cutToken bytes = (.number l, left) := by
  obtain ⟨b, rest, rfl, hb⟩ := first_of_cutLiteral h
  have hnot (c : UInt8) (hc : c ≠ 0x2d) (hd : digit? c = none) : b ≠ c := by
    rintro rfl
    rcases hb with hb | ⟨d, hb⟩
    · exact hc hb
    · rw [hd] at hb
      cases hb
  unfold cutToken
  split
  -- every case but the last is about another first byte
  iterate 10 next he => exact absurd (List.cons.inj he).1 (hnot _ (by decide) rfl)
  simp only [h]

/-- The bytes are cut into these tokens wherever a number at their end would end. -/
structure Cuts (bytes : List UInt8) (ts : List Token) : Prop where
  scan : ∀ fuel rest, Stops rest → scan (fuel + ts.length) (bytes ++ rest) = ts ++ scan fuel rest
  length : ts.length ≤ bytes.length

theorem cuts_number {n : Number} {l : Number.Literal}
    (h : cutLiteral (encode n.text) = some (l, [])) :
    Cuts (encode n.text) [.number l] := by
  obtain ⟨b, bytes, hbytes, hb⟩ := first_of_cutLiteral h
  rw [hbytes] at h ⊢
  have hblank : isBlank b = false := by
    rcases hb with rfl | ⟨d, hd⟩
    · rfl
    · unfold isBlank
      simp only [Bool.or_eq_false_iff, beq_eq_false_iff_ne]
      refine ⟨⟨⟨?_, ?_⟩, ?_⟩, ?_⟩
      all_goals
        rintro rfl
        cases hd
  constructor
  · intro fuel rest hrest
    have hcut : cutLiteral (b :: bytes ++ rest) = some (l, rest) := by
      rw [cutLiteral_append hrest, h]
      rfl
    have htoken := cutToken_of_cutLiteral hcut
    rw [List.cons_append] at htoken
    simp [Json.scan, hblank, htoken]
  · simp

theorem Lexes.cuts {bytes : List UInt8} {ts : List Token} (h : Lexes bytes ts) : Cuts bytes ts :=
  ⟨fun fuel rest _ => h.scan fuel rest, h.length⟩

theorem lexes_blank {cs : List Char} (h : ∀ c ∈ cs, c = ' ' ∨ c = '\n') : Lexes (encode cs) [] where
  scan fuel rest := by
    induction cs with
    | nil => rfl
    | cons c cs ih =>
      obtain ⟨hc, hcs⟩ := List.forall_mem_cons.1 h
      have hskip (b : UInt8) (hb : isBlank b = true) (bytes : List UInt8) :
          Json.scan fuel (b :: bytes) = Json.scan fuel bytes := by
        cases fuel with
        | zero => rfl
        | succ fuel => simp [Json.scan, hb]
      have hrest := ih hcs
      rcases hc with rfl | rfl
      · exact (hskip 0x20 rfl _).trans hrest
      · exact (hskip 0x0a rfl _).trans hrest
  length := Nat.zero_le _

/-- The text is cut into these tokens, and its first byte ends a number before it. -/
structure Closes (cs : List Char) (ts : List Token) : Prop where
  cuts : Cuts (encode cs) ts
  stops : ∀ rest, Stops (encode cs ++ rest)

theorem cuts_entry {opening value closing : List Char} {ts us vs : List Token}
    (ho : Lexes (encode opening) ts) (hv : Cuts (encode value) us) (hc : Closes closing vs) :
    Cuts (encode (opening ++ value ++ closing)) (ts ++ us ++ vs) where
  scan fuel rest hrest := by
    have hvalue := hv.scan (fuel + vs.length) (encode closing ++ rest) (hc.stops rest)
    have hclosing := hc.cuts.scan fuel rest hrest
    have hopening := ho.scan (fuel + vs.length + us.length)
      (encode value ++ (encode closing ++ rest))
    calc Json.scan (fuel + (ts ++ us ++ vs).length) (encode (opening ++ value ++ closing) ++ rest)
        = Json.scan (fuel + vs.length + us.length + ts.length)
            (encode opening ++ (encode value ++ (encode closing ++ rest))) := by
          simp only [encode_append, List.append_assoc, List.length_append]
          congr 1
          omega
      _ = ts ++ (us ++ (vs ++ Json.scan fuel rest)) := by rw [hopening, hvalue, hclosing]
      _ = ts ++ us ++ vs ++ Json.scan fuel rest := by simp only [List.append_assoc]
  length := by
    have hopening := ho.length
    have hvalue := hv.length
    have hclosing := hc.cuts.length
    simp only [encode_append, List.length_append]
    omega

theorem tokens_of_cuts {bytes : List UInt8} {ts : List Token} (h : Cuts bytes ts) :
    tokens bytes = ts :=
  tokens_of_scan h.length fun fuel => h.scan fuel [] nofun

end Json
end PlanWire
