import PlanWire.Proofs.Config.Ordered
import PlanWire.Proofs.Text.ByteOrder

/-!
# The first fault of a configuration

A call is told by the names of the calls that lead to it from the root module.
Between calls that lack their module depth-first order is the lexicographic
order of these names, since none of them leads any further. In a configuration
whose providers and calls are ordered the fault that is met first is the least.
-/

set_option autoImplicit false

namespace PlanWire.Config

open Text (quoted)

/-- From calls of one module down to a call, by name. -/
inductive Leads : List (String × ModuleCall) → List String → ModuleCall → Prop
  | here {calls : List (String × ModuleCall)} {name : String} {call : ModuleCall}
      (found : (name, call) ∈ calls) : Leads calls [name] call
  | through {calls : List (String × ModuleCall)} {name : String} {call target : ModuleCall}
      {m : Module} {path : List String} (found : (name, call) ∈ calls)
      (carried : call.module = some m) (rest : Leads m.calls path target) :
      Leads calls (name :: path) target

def Lacks (calls : List (String × ModuleCall)) (path : List String) : Prop :=
  ∃ call, Leads calls path call ∧ call.module = none

/-- Where two paths part, the one takes the call whose name has the lesser bytes. -/
def Before (path other : List String) : Prop := List.Lex Text.Precedes path other

structure FirstLacking (calls : List (String × ModuleCall)) (path : List String) : Prop where
  lacks : Lacks calls path
  first : ∀ other, Lacks calls other → other ≠ path → Before path other

structure FirstUnnamed (providers : Dict Provider) (key : String) : Prop where
  unnamed : ∃ provider, (key, provider) ∈ providers ∧ provider.name = ""
  first : ∀ other provider, (other, provider) ∈ providers → provider.name = "" → other ≠ key →
    Text.Precedes key other

def pathText (path : List String) : String :=
  String.intercalate "." (path.map ("module." ++ ·))

theorem pathText_ne_empty {path : List String} (h : path ≠ []) : pathText path ≠ "" := by
  obtain ⟨name, rest, rfl⟩ := List.exists_cons_of_ne_nil h
  rw [pathText, List.map_cons, String.intercalate_cons_append]
  intro hempty
  exact absurd (String.append_eq_empty_iff.1 hempty).1 (by decide)

theorem pathText_append_singleton {front : List String} (h : front ≠ []) (name : String) :
    pathText (front ++ [name]) = pathText front ++ ".module." ++ name := by
  have hnames : front.map ("module." ++ ·) ≠ [] := fun hn => h (List.map_eq_nil_iff.1 hn)
  have hdot : ".module." = "." ++ "module." := rfl
  rw [pathText, List.map_append, List.map_singleton,
    String.intercalate_append_of_ne_nil hnames (List.cons_ne_nil _ _),
    String.intercalate_singleton, hdot]
  simp only [pathText, String.append_assoc]

theorem callPath_pathText (front : List String) (name : String) :
    callPath (pathText front) name = pathText (front ++ [name]) := by
  rw [callPath]
  by_cases hfront : front = []
  · subst hfront
    simp [pathText]
  · have hempty : ¬ (pathText front).isEmpty = true :=
      fun h => pathText_ne_empty hfront (String.isEmpty_iff.1 h)
    rw [if_neg hempty, pathText_append_singleton hfront]

section Cons

variable {calls rest : List (String × ModuleCall)} {name : String} {call : ModuleCall}
  {m : Module} {path : List String}

theorem not_lacks_nil : ¬ Lacks [] path := by
  rintro ⟨target, hleads, -⟩
  cases hleads with
  | here found => cases found
  | through found _ _ => cases found

theorem leads_cons {target : ModuleCall} :
    Leads ((name, call) :: rest) path target ↔
      (path = [name] ∧ target = call) ∨
        (∃ m inner, call.module = some m ∧ path = name :: inner ∧ Leads m.calls inner target) ∨
          Leads rest path target := by
  constructor
  · intro h
    cases h with
    | here found =>
      rcases List.mem_cons.1 found with heq | hrest
      · cases heq
        exact .inl ⟨rfl, rfl⟩
      · exact .inr (.inr (.here hrest))
    | through found hm hbelow =>
      rcases List.mem_cons.1 found with heq | hrest
      · cases heq
        exact .inr (.inl ⟨_, _, hm, rfl, hbelow⟩)
      · exact .inr (.inr (.through hrest hm hbelow))
  · rintro (⟨rfl, rfl⟩ | ⟨m, inner, hm, rfl, hbelow⟩ | hlater)
    · exact .here (List.mem_cons_self ..)
    · exact .through (List.mem_cons_self ..) hm hbelow
    · cases hlater with
      | here found => exact .here (List.mem_cons_of_mem _ found)
      | through found hm hbelow => exact .through (List.mem_cons_of_mem _ found) hm hbelow

theorem lacks_cons_of_none (hnone : call.module = none) :
    Lacks ((name, call) :: rest) path ↔ path = [name] ∨ Lacks rest path := by
  simp [Lacks, leads_cons, hnone, or_and_right, exists_or, and_assoc]

theorem lacks_cons_of_some (hm : call.module = some m) :
    Lacks ((name, call) :: rest) path ↔
      (∃ inner, path = name :: inner ∧ Lacks m.calls inner) ∨ Lacks rest path := by
  constructor
  · rintro ⟨target, hleads, hnone⟩
    rcases leads_cons.1 hleads with ⟨-, rfl⟩ | ⟨n, inner, hn, hpath, hbelow⟩ | hlater
    · rw [hm] at hnone
      cases hnone
    · obtain rfl : m = n := Option.some.inj (hm.symm.trans hn)
      exact .inl ⟨inner, hpath, target, hbelow, hnone⟩
    · exact .inr ⟨target, hlater, hnone⟩
  · rintro (⟨inner, hpath, target, hbelow, hnone⟩ | ⟨target, hlater, hnone⟩)
    · exact ⟨target, leads_cons.2 (.inr (.inl ⟨m, inner, hm, hpath, hbelow⟩)), hnone⟩
    · exact ⟨target, leads_cons.2 (.inr (.inr hlater)), hnone⟩

theorem Lacks.exists_head (h : Lacks calls path) :
    ∃ entry ∈ calls, ∃ inner, path = entry.1 :: inner := by
  obtain ⟨target, hleads, -⟩ := h
  cases hleads with
  | here found => exact ⟨_, found, [], rfl⟩
  | through found _ _ => exact ⟨_, found, _, rfl⟩

theorem Lacks.before_of_later (hleast : ∀ entry ∈ rest, name < entry.1) (h : Lacks rest path)
    (inner : List String) : Before (name :: inner) path := by
  obtain ⟨entry, hentry, tail, rfl⟩ := h.exists_head
  exact .rel (Text.precedes_of_lt (hleast entry hentry))

namespace FirstLacking

theorem here (hleast : ∀ entry ∈ rest, name < entry.1) (hnone : call.module = none) :
    FirstLacking ((name, call) :: rest) [name] where
  lacks := (lacks_cons_of_none hnone).2 (.inl rfl)
  first := by
    intro other hother hne
    rcases (lacks_cons_of_none hnone).1 hother with rfl | hlater
    · exact absurd rfl hne
    · exact hlater.before_of_later hleast []

theorem through (hleast : ∀ entry ∈ rest, name < entry.1) (hm : call.module = some m)
    (h : FirstLacking m.calls path) : FirstLacking ((name, call) :: rest) (name :: path) where
  lacks := (lacks_cons_of_some hm).2 (.inl ⟨path, rfl, h.lacks⟩)
  first := by
    intro other hother hne
    rcases (lacks_cons_of_some hm).1 hother with ⟨inner, rfl, hinner⟩ | hlater
    · have hbelow : inner ≠ path := fun heq => hne (congrArg (name :: ·) heq)
      exact .cons (h.first inner hinner hbelow)
    · exact hlater.before_of_later hleast path

theorem later (hm : call.module = some m) (hnone : ∀ inner, ¬ Lacks m.calls inner)
    (h : FirstLacking rest path) : FirstLacking ((name, call) :: rest) path where
  lacks := (lacks_cons_of_some hm).2 (.inr h.lacks)
  first := by
    intro other hother hne
    rcases (lacks_cons_of_some hm).1 hother with ⟨inner, -, hinner⟩ | hlater
    · exact absurd hinner (hnone inner)
    · exact h.first other hlater hne

end FirstLacking
end Cons

/-- The verdict on calls below a path names the first one that lacks its module. -/
inductive Judged (front : List String) (calls : List (String × ModuleCall)) :
    Except Rule Unit → Prop
  | carried (none : ∀ path, ¬ Lacks calls path) : Judged front calls (.ok ())
  | lacking {path : List String} (first : FirstLacking calls path) :
      Judged front calls (.error (.emptyModuleCall (pathText (front ++ path))))

theorem Judged.cons {front : List String} {rest : List (String × ModuleCall)} {name : String}
    {call : ModuleCall} {m : Module} {inside behind : Except Rule Unit}
    (hleast : ∀ entry ∈ rest, name < entry.1) (hm : call.module = some m)
    (hinside : Judged (front ++ [name]) m.calls inside) (hbehind : Judged front rest behind) :
    Judged front ((name, call) :: rest) (inside >>= fun _ => behind) := by
  cases hinside with
  | @lacking path first =>
    rw [List.append_assoc]
    exact .lacking (first.through hleast hm)
  | carried hnone =>
    cases hbehind with
    | lacking first => exact .lacking (first.later hm hnone)
    | carried hrest =>
      refine .carried ?_
      intro path hpath
      rcases (lacks_cons_of_some hm).1 hpath with ⟨inner, -, hinner⟩ | hlater
      · exact hnone inner hinner
      · exact hrest path hlater

namespace Judged

variable {front : List String} {calls : List (String × ModuleCall)} {verdict : Except Rule Unit}

theorem eq_ok_iff (h : Judged front calls verdict) :
    verdict = .ok () ↔ ∀ path, ¬ Lacks calls path := by
  cases h with
  | carried hnone => exact ⟨fun _ => hnone, fun _ => rfl⟩
  | @lacking path first =>
    constructor
    · intro hok
      cases hok
    · intro hnone
      exact absurd first.lacks (hnone path)

theorem exists_first (h : Judged front calls verdict) (hlacks : ∃ path, Lacks calls path) :
    ∃ path, FirstLacking calls path ∧
      verdict = .error (.emptyModuleCall (pathText (front ++ path))) := by
  cases h with
  | carried hnone =>
    obtain ⟨path, hpath⟩ := hlacks
    exact absurd hpath (hnone path)
  | @lacking path first => exact ⟨path, first, rfl⟩

end Judged

mutual

theorem Module.judged_validate : ∀ (front : List String) (m : Module), m.OrderedBelow →
    Judged front m.calls (m.validate (pathText front))
  | front, ⟨_, _, calls, _⟩ => by
    rw [Module.orderedBelow_iff, Module.validate]
    rintro ⟨hsorted, hbelow⟩
    exact judged_validateCalls front calls hsorted hbelow

theorem judged_validateCalls : ∀ (front : List String) (calls : List (String × ModuleCall)),
    Dict.Sorted calls → (∀ entry ∈ calls, ∀ n, entry.2.module = some n → n.OrderedBelow) →
      Judged front calls (validateCalls (pathText front) calls)
  | _, [], _, _ => .carried fun _ => not_lacks_nil
  | front, (name, ⟨_, _, _, _, none, _, _⟩) :: _, hsorted, _ => by
    rw [validateCalls, callPath_pathText]
    exact .lacking (.here (List.pairwise_cons.1 hsorted).1 rfl)
  | front, (name, ⟨_, _, _, _, some m, _, _⟩) :: rest, hsorted, hbelow => by
    obtain ⟨hleast, hrest⟩ := List.pairwise_cons.1 hsorted
    obtain ⟨hfirst, hlater⟩ := List.forall_mem_cons.1 hbelow
    have hinside := Module.judged_validate (front ++ [name]) m (hfirst m rfl)
    have hbehind := judged_validateCalls front rest hrest hlater
    rw [validateCalls, callPath_pathText]
    exact hinside.cons hleast rfl hbehind

end

theorem validateProviders_cases {providers : Dict Provider} (hsorted : Dict.Sorted providers) :
    (validateProviders providers = .ok () ∧ ∀ entry ∈ providers, entry.2.name ≠ "") ∨
      ∃ key, validateProviders providers = .error (.unnamedProvider key) ∧
        FirstUnnamed providers key := by
  have hcases := Dict.loop_cases validateProviders (·.2.name = "") .unnamedProvider hsorted rfl
    (fun entry rest hname => by simp [validateProviders, hname])
    (fun entry rest hname => by simp [validateProviders, hname])
  rcases hcases with hok | ⟨⟨key, provider⟩, hmem, hname, herror, hfirst⟩
  · exact .inl hok
  · refine .inr ⟨key, herror, ⟨provider, hmem, hname⟩, ?_⟩
    intro other p hother
    exact hfirst (other, p) hother

def rootCalls (c : Config) : List (String × ModuleCall) :=
  match c.rootModule with
  | none => []
  | some root => root.calls

theorem judged_validate_of_named {c : Config} (ordered : c.Ordered)
    (named : validateProviders c.providers = .ok ()) : Judged [] c.rootCalls c.validate := by
  rw [validate, named, rootCalls]
  cases hroot : c.rootModule with
  | none => exact .carried fun _ => not_lacks_nil
  | some root => exact Module.judged_validate [] root (ordered.modules root hroot)

/-- Validation passes exactly when no provider lacks its name and no call its
module, and otherwise tells the first fault: providers come before calls. -/
theorem first_fault_reported {c : Config} (ordered : c.Ordered) :
    (c.validate = .ok () ↔
      (∀ entry ∈ c.providers, entry.2.name ≠ "") ∧
        ∀ path call, Leads c.rootCalls path call → call.module.isSome = true) ∧
    ((∃ entry ∈ c.providers, entry.2.name = "") →
      ∃ key, FirstUnnamed c.providers key ∧ c.validate = .error (.unnamedProvider key) ∧
        (Rule.unnamedProvider key).message =
          "provider config " ++ quoted key ++ " has an empty name") ∧
    ((∀ entry ∈ c.providers, entry.2.name ≠ "") →
      (∃ path call, Leads c.rootCalls path call ∧ call.module = none) →
      ∃ path, FirstLacking c.rootCalls path ∧
        c.validate = .error (.emptyModuleCall (pathText path)) ∧
        (Rule.emptyModuleCall (pathText path)).message =
          "module call " ++ quoted (pathText path) ++ " has no module") := by
  have hcarried : (∀ path call, Leads c.rootCalls path call → call.module.isSome = true) ↔
      ∀ path, ¬ Lacks c.rootCalls path := by
    simp only [Lacks, not_exists, not_and, Option.isSome_iff_ne_none, ne_eq]
  rw [hcarried]
  rcases validateProviders_cases ordered.providers with ⟨hok, hnamed⟩ | ⟨key, hfault, hfirst⟩
  · have hjudged := judged_validate_of_named ordered hok
    refine ⟨?_, ?_, ?_⟩
    · rw [hjudged.eq_ok_iff]
      exact ⟨fun hnone => ⟨hnamed, hnone⟩, And.right⟩
    · rintro ⟨entry, hentry, hname⟩
      exact absurd hname (hnamed entry hentry)
    · intro _ hlacks
      obtain ⟨path, hpath, hverdict⟩ := hjudged.exists_first hlacks
      exact ⟨path, hpath, hverdict, rfl⟩
  · have hverdict : c.validate = .error (.unnamedProvider key) := by
      rw [validate, hfault]
      rfl
    obtain ⟨provider, hmem, hname⟩ := hfirst.unnamed
    refine ⟨?_, ?_, ?_⟩
    · constructor
      · intro hok
        rw [hverdict] at hok
        cases hok
      · intro h
        exact absurd hname (h.1 (key, provider) hmem)
    · intro _
      exact ⟨key, hfirst, hverdict, rfl⟩
    · intro hnamed _
      exact absurd hname (hnamed (key, provider) hmem)

def bareCall (inner : Option (List (String × ModuleCall))) : ModuleCall where
  source := "./child"
  expressions := []
  countExpression := none
  forEachExpression := none
  module := inner.map fun calls => ⟨[], [], calls, []⟩
  versionConstraint := ""
  dependsOn := []

def twoLevels : Config where
  providers := [("aws", ⟨"aws", "", "", "", [], ""⟩)]
  rootModule := some ⟨[], [], [
    ("a", bareCall (some [("x", bareCall (some [])), ("y", bareCall none)])),
    ("b", bareCall none)], []⟩

theorem ordered_twoLevels : twoLevels.Ordered := by
  have hnone : ∀ n, (bareCall none).module = some n → n.OrderedBelow := nofun
  have hx : ∀ n, (bareCall (some [])).module = some n → n.OrderedBelow := by
    rintro n ⟨⟩
    exact Module.orderedBelow_iff.2 ⟨.nil, List.forall_mem_nil _⟩
  refine ⟨List.pairwise_singleton .., ?_⟩
  rintro root ⟨⟩
  refine Module.orderedBelow_iff.2 ⟨List.pairwise_pair.2 (by decide), ?_⟩
  refine List.forall_mem_cons.2 ⟨?_, List.forall_mem_singleton.2 hnone⟩
  rintro n ⟨⟩
  refine Module.orderedBelow_iff.2 ⟨List.pairwise_pair.2 (by decide), ?_⟩
  exact List.forall_mem_cons.2 ⟨hx, List.forall_mem_singleton.2 hnone⟩

theorem first_fault_reported_twoLevels :
    twoLevels.Ordered ∧ ∃ path, FirstLacking twoLevels.rootCalls path ∧
      twoLevels.validate = .error (.emptyModuleCall (pathText path)) ∧
      pathText path = "module.a.module.y" := by
  have hinner : Lacks [("x", bareCall (some [])), ("y", bareCall none)] ["y"] :=
    (lacks_cons_of_some rfl).2 (.inr ((lacks_cons_of_none rfl).2 (.inl rfl)))
  have hlacks : Lacks twoLevels.rootCalls ["a", "y"] :=
    (lacks_cons_of_some rfl).2 (.inl ⟨["y"], rfl, hinner⟩)
  have hnamed : ∀ entry ∈ twoLevels.providers, entry.2.name ≠ "" := by decide
  obtain ⟨path, hfirst, hverdict, -⟩ :=
    (first_fault_reported ordered_twoLevels).2.2 hnamed ⟨_, hlacks⟩
  have hcomputed : twoLevels.validate = .error (.emptyModuleCall "module.a.module.y") := by rfl
  refine ⟨ordered_twoLevels, path, hfirst, hverdict, ?_⟩
  exact Rule.emptyModuleCall.inj (Except.error.inj (hverdict.symm.trans hcomputed))

end PlanWire.Config
