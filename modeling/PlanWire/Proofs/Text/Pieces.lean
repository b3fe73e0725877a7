import PlanWire.Text.Parts

/-!
# Cut text put together again

Text cut at the first of a character is the text before it, that character and
the text behind it. Between the pieces of a text stands the character that it
was cut at, and none of them holds it.
-/

set_option autoImplicit false

namespace PlanWire.Text

variable {c : Char}

theorem cut_of_not_mem {cs : List Char} (h : c ∉ cs) : cut c cs = (cs, none) := by
  induction cs with
  | nil => rfl
  | cons x rest ih =>
    obtain ⟨hx, hrest⟩ := not_or.1 (mt List.mem_cons.2 h)
    simp [cut, Ne.symm hx, ih hrest]

theorem cut_append_cons {before : List Char} (h : c ∉ before) (behind : List Char) :
    cut c (before ++ c :: behind) = (before, some behind) := by
  induction before with
  | nil => simp [cut]
  | cons x rest ih =>
    obtain ⟨hx, hrest⟩ := not_or.1 (mt List.mem_cons.2 h)
    simp [cut, Ne.symm hx, ih hrest]

theorem cut_cases (c : Char) (cs : List Char) :
    (c ∉ cs ∧ cut c cs = (cs, none)) ∨
      ∃ before behind, cs = before ++ c :: behind ∧ c ∉ before ∧
        cut c cs = (before, some behind) := by
  by_cases h : c ∈ cs
  · obtain ⟨before, behind, rfl, hbefore⟩ := List.eq_append_cons_of_mem h
    exact .inr ⟨before, behind, rfl, hbefore, cut_append_cons hbefore behind⟩
  · exact .inl ⟨h, cut_of_not_mem h⟩

theorem pieces_eq_splitOn (c : Char) (cs : List Char) : pieces c cs = cs.splitOn c := by
  induction cs with
  | nil => rfl
  | cons x rest ih =>
    rw [pieces, List.splitOn_cons_eq_if_modifyHead, ih]
    cases hrest : rest.splitOn c with
    | nil => exact absurd hrest (List.splitOn_ne_nil c rest)
    | cons p ps => simp

theorem pieces_ne_nil (c : Char) (cs : List Char) : pieces c cs ≠ [] := by
  rw [pieces_eq_splitOn]
  exact List.splitOn_ne_nil c cs

theorem mem_of_mem_pieces {cs p : List Char} (hp : p ∈ pieces c cs) {x : Char} (hx : x ∈ p) :
    x ∈ cs ∧ x ≠ c := by
  induction cs generalizing p with
  | nil =>
    obtain rfl := List.mem_singleton.1 hp
    exact absurd hx List.not_mem_nil
  | cons y rest ih =>
    have hbehind {q : List Char} (hq : q ∈ pieces c rest) (hx : x ∈ q) : x ∈ y :: rest ∧ x ≠ c :=
      ⟨List.mem_cons_of_mem _ (ih hq hx).1, (ih hq hx).2⟩
    by_cases hy : y = c
    · rw [pieces, if_pos hy] at hp
      rcases List.mem_cons.1 hp with rfl | hp
      · exact absurd hx List.not_mem_nil
      · exact hbehind hp hx
    · cases hrest : pieces c rest with
      | nil => exact absurd hrest (pieces_ne_nil c rest)
      | cons q qs =>
        rw [hrest] at hbehind
        simp only [pieces, hy, hrest] at hp
        rcases List.mem_cons.1 hp with rfl | hp
        · rcases List.mem_cons.1 hx with rfl | hx
          · exact ⟨List.mem_cons_self .., hy⟩
          · exact hbehind (List.mem_cons_self ..) hx
        · exact hbehind (List.mem_cons_of_mem _ hp) hx

theorem pieces_eq_iff {cs : List Char} {ps : List (List Char)} :
    pieces c cs = ps ↔ ps ≠ [] ∧ (∀ p ∈ ps, c ∉ p) ∧ [c].intercalate ps = cs := by
  constructor
  · rintro rfl
    refine ⟨pieces_ne_nil c cs, fun p hp hc => (mem_of_mem_pieces hp hc).2 rfl, ?_⟩
    rw [pieces_eq_splitOn]
    exact List.intercalate_splitOn c
  · rintro ⟨hne, hps, rfl⟩
    rw [pieces_eq_splitOn]
    exact List.splitOn_intercalate c hps hne

theorem pieces_append_cons (c : Char) (cs more : List Char) :
    pieces c (cs ++ c :: more) = pieces c cs ++ pieces c more := by
  simp only [pieces_eq_splitOn, List.splitOn_append_cons_self]

end PlanWire.Text
