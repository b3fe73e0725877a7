import PlanWire.FormatVersion.Basic
import PlanWire.Proofs.Text.Decimal
import PlanWire.Proofs.Text.Pieces

/-!
# The grammar of version texts

A version text has an optional `v`, up to three numbers between dots, an
optional prerelease name behind a hyphen and an optional build name behind a
plus sign. The first plus sign ends all but the build name, and the first hyphen
before it ends the numbers. So a text is taken apart in one way only, and no
sign is left in front of a number.
-/

set_option autoImplicit false

namespace PlanWire.FormatVersion

open Text

/-- Up to three numbers between dots, of which the first two count. -/
inductive Numbers : List Char → Nat → Nat → Prop
  | major {ds : List Char} {m : Nat} (hm : IsWord ds m) : Numbers ds m 0
  | minor {ds es : List Char} {m n : Nat} (hm : IsWord ds m) (hn : IsWord es n) :
      Numbers (ds ++ '.' :: es) m n
  | patch {ds es fs : List Char} {m n k : Nat} (hm : IsWord ds m) (hn : IsWord es n)
      (hk : IsWord fs k) : Numbers (ds ++ '.' :: (es ++ '.' :: fs)) m n

inductive Mark : List Char → Prop
  | absent : Mark []
  | letter : Mark ['v']

inductive PrereleaseName : List Char → Bool → Prop
  | absent : PrereleaseName [] false
  | named {name : List Char} (nonempty : name ≠ []) (plus : '+' ∉ name) :
      PrereleaseName ('-' :: name) true

inductive BuildName : List Char → Prop
  | absent : BuildName []
  | named (name : List Char) : BuildName ('+' :: name)

/-- The text of a version, part by part. -/
inductive Spells : List Char → FormatVersion → Prop
  | parts {mark numbers name build : List Char} {v : FormatVersion} (hmark : Mark mark)
      (hnumbers : Numbers numbers v.major v.minor) (hname : PrereleaseName name v.prerelease)
      (hbuild : BuildName build) : Spells (mark ++ (numbers ++ name ++ build)) v

theorem Numbers.not_mem {cs : List Char} {m n : Nat} (h : Numbers cs m n) {c : Char}
    (hdigit : c.isDigit = false) (hdot : c ≠ '.') : c ∉ cs := by
  cases h with
  | major hm => exact hm.not_mem hdigit
  | minor hm hn => simp [hm.not_mem hdigit, hn.not_mem hdigit, hdot]
  | patch hm hn hk => simp [hm.not_mem hdigit, hn.not_mem hdigit, hk.not_mem hdigit, hdot]

theorem Numbers.ne_nil {cs : List Char} {m n : Nat} (h : Numbers cs m n) : cs ≠ [] := by
  cases h with
  | major hm => exact hm.nonempty
  | minor hm hn => simp
  | patch hm hn hk => simp

theorem numbers?_of_numbers {cs : List Char} {m n : Nat} (h : Numbers cs m n) :
    numbers? cs = some (m, n) := by
  have hdot {ds : List Char} {k : Nat} (hk : IsWord ds k) : '.' ∉ ds := hk.not_mem rfl
  have hread {ds : List Char} {k : Nat} (hk : IsWord ds k) : unsigned? ds = some k :=
    unsigned?_eq_some.2 ⟨ds, .inl rfl, hk⟩
  cases h with
  | major hm =>
    have hpieces : pieces '.' cs = [cs] :=
      pieces_eq_iff.2 ⟨by simp, by simp [hdot hm], List.intercalate_singleton⟩
    simp [numbers?, hpieces, hread hm]
  | @minor ds es m n hm hn =>
    have hpieces : pieces '.' (ds ++ '.' :: es) = [ds, es] :=
      pieces_eq_iff.2 ⟨by simp, by simp [hdot hm, hdot hn], by simp [List.intercalate_cons_cons]⟩
    simp [numbers?, hpieces, hread hm, hread hn]
  | @patch ds es fs m n k hm hn hk =>
    have hpieces : pieces '.' (ds ++ '.' :: (es ++ '.' :: fs)) = [ds, es, fs] :=
      pieces_eq_iff.2 ⟨by simp, by simp [hdot hm, hdot hn, hdot hk],
        by simp [List.intercalate_cons_cons]⟩
    simp [numbers?, hpieces, hread hm, hread hn, hread hk]

theorem numbers_of_numbers? {cs : List Char} {m n : Nat} (hplus : '+' ∉ cs)
    (h : numbers? cs = some (m, n)) : Numbers cs m n := by
  obtain ⟨-, -, hjoin⟩ := pieces_eq_iff.1 (rfl : pieces '.' cs = pieces '.' cs)
  have hword {p : List Char} (hp : p ∈ pieces '.' cs) {k : Nat} (hk : unsigned? p = some k) :
      IsWord p k := by
    rw [unsigned?_of_not_mem fun hmem => hplus (mem_of_mem_pieces hp hmem).1] at hk
    exact word?_eq_some.1 hk
  unfold numbers? at h
  split at h
  · next ds hpieces =>
    rw [hpieces] at hjoin hword
    rw [← hjoin, List.intercalate_singleton]
    simp only [Option.bind_eq_bind, Option.bind_eq_some_iff] at h
    obtain ⟨_, hm, hnumbers⟩ := h
    cases hnumbers
    exact .major (hword (by simp) hm)
  · next ds es hpieces =>
    rw [hpieces] at hjoin hword
    have hcs : cs = ds ++ '.' :: es := by simp [← hjoin, List.intercalate_cons_cons]
    simp only [Option.bind_eq_bind, Option.bind_eq_some_iff] at h
    obtain ⟨_, hm, _, hn, hnumbers⟩ := h
    cases hnumbers
    rw [hcs]
    exact .minor (hword (by simp) hm) (hword (by simp) hn)
  · next ds es fs hpieces =>
    rw [hpieces] at hjoin hword
    have hcs : cs = ds ++ '.' :: (es ++ '.' :: fs) := by
      simp [← hjoin, List.intercalate_cons_cons]
    simp only [Option.bind_eq_bind, Option.bind_eq_some_iff] at h
    obtain ⟨_, hm, _, hn, k, hk, hnumbers⟩ := h
    cases hnumbers
    rw [hcs]
    exact .patch (hword (by simp) hm) (hword (by simp) hn) (hword (by simp) hk)
  · cases h

theorem exists_mark (cs : List Char) : ∃ mark, Mark mark ∧ cs = mark ++ unmarked cs := by
  unfold unmarked
  split
  · exact ⟨['v'], .letter, rfl⟩
  · exact ⟨[], .absent, rfl⟩

theorem unmarked_append {mark cs : List Char} (hmark : Mark mark) (hcs : cs.head? ≠ some 'v') :
    unmarked (mark ++ cs) = cs := by
  cases hmark with
  | absent =>
    rw [List.nil_append, unmarked.eq_def]
    split
    · exact absurd rfl hcs
    · rfl
  | letter => rfl

theorem exists_build (cs : List Char) :
    ∃ front build, '+' ∉ front ∧ BuildName build ∧ cs = front ++ build ∧
      (cut '+' cs).1 = front := by
  rcases cut_cases '+' cs with ⟨hplus, hcut⟩ | ⟨front, name, hcs, hplus, hcut⟩
  · exact ⟨cs, [], hplus, .absent, (List.append_nil cs).symm, by rw [hcut]⟩
  · exact ⟨front, '+' :: name, hplus, .named name, hcs, by rw [hcut]⟩

theorem cut_build {front build : List Char} (hplus : '+' ∉ front) (hbuild : BuildName build) :
    (cut '+' (front ++ build)).1 = front := by
  cases hbuild with
  | absent => rw [List.append_nil, cut_of_not_mem hplus]
  | named name => rw [cut_append_cons hplus]

theorem Numbers.head?_append_ne {cs : List Char} {m n : Nat} (h : Numbers cs m n)
    (more : List Char) : (cs ++ more).head? ≠ some 'v' := by
  obtain ⟨c, rest, rfl⟩ := List.exists_cons_of_ne_nil h.ne_nil
  rw [List.cons_append, List.head?_cons]
  rintro ⟨⟩
  exact h.not_mem rfl (by decide) (List.mem_cons_self ..)

theorem ofChars?_of_spells {cs : List Char} {v : FormatVersion} (h : Spells cs v) :
    ofChars? cs = some v := by
  obtain @⟨mark, numbers, name, build, ⟨major, minor, prerelease⟩, hmark, hnumbers, hname,
    hbuild⟩ := h
  have hread : numbers? numbers = some (major, minor) := numbers?_of_numbers hnumbers
  have hplus : '+' ∉ numbers := hnumbers.not_mem rfl (by decide)
  have hhyphen : '-' ∉ numbers := hnumbers.not_mem rfl (by decide)
  rw [ofChars?, List.append_assoc, unmarked_append hmark (hnumbers.head?_append_ne _),
    ← List.append_assoc]
  cases hname with
  | absent =>
    rw [List.append_nil, cut_build hplus hbuild, cut_of_not_mem hhyphen]
    simp [hread]
  | @named name nonempty plus =>
    have hfront : '+' ∉ numbers ++ '-' :: name := by simp [hplus, plus]
    rw [cut_build hfront hbuild, cut_append_cons hhyphen]
    cases name with
    | nil => exact absurd rfl nonempty
    | cons c rest => simp [hread]

theorem spells_of_ofChars? {cs : List Char} {v : FormatVersion} (h : ofChars? cs = some v) :
    Spells cs v := by
  obtain ⟨mark, hmark, hcs⟩ := exists_mark cs
  obtain ⟨front, build, hplus, hbuild, hrest, hfront⟩ := exists_build (unmarked cs)
  rw [ofChars?, hfront] at h
  rw [hcs, hrest]
  rcases cut_cases '-' front with ⟨-, hcut⟩ | ⟨core, name, rfl, -, hcut⟩
  · rw [hcut] at h
    obtain ⟨⟨major, minor⟩, hread, rfl⟩ := Option.map_eq_some_iff.1 h
    have hnumbers : Numbers front major minor := numbers_of_numbers? hplus hread
    rw [← List.append_nil front]
    exact .parts hmark hnumbers .absent hbuild
  · rw [hcut] at h
    cases name with
    | nil => cases h
    | cons c rest =>
      obtain ⟨⟨major, minor⟩, hread, rfl⟩ := Option.map_eq_some_iff.1 h
      have hcore : '+' ∉ core := fun hmem => hplus (List.mem_append_left _ hmem)
      have hname : '+' ∉ c :: rest := fun hmem =>
        hplus (List.mem_append_right _ (List.mem_cons_of_mem _ hmem))
      exact .parts hmark (numbers_of_numbers? hcore hread) (.named (List.cons_ne_nil _ _) hname)
        hbuild

/-- A text is read as a version exactly when it spells this version. -/
theorem ofString?_eq_some_iff_spells (s : String) (v : FormatVersion) :
    ofString? s = some v ↔ Spells s.toList v :=
  ⟨spells_of_ofChars?, ofChars?_of_spells⟩

end PlanWire.FormatVersion
