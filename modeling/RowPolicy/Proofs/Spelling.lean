import Mathlib.Data.Set.Function
import Mathlib.Tactic.Tauto
import RowPolicy.Proofs.PolicyHistory

/-!
How actions are spelled. The case of ASCII letters is no part of a name, reading and creating have a
second name each, and everything else tells names apart, the case of other letters too.
Main statement: two names are one action exactly if one respells the other. What an action prints
spells it, so actions that print alike are one, and no action of an application prints as a built-in
one. Rules, requirements and exemptions that are entered under one spelling are found under every
other spelling of the action and under no other name.
-/
namespace RowPolicy

theorem toLower_toLower (c : Char) : c.toLower.toLower = c.toLower := by
  by_cases hupper : c.val ≥ 'A'.val ∧ c.val ≤ 'Z'.val
  · have hval : c.toLower.val = c.val + ('a'.val - 'A'.val) := congrArg Char.val (dif_pos hupper)
    have hlower : ¬(c.toLower.val ≥ 'A'.val ∧ c.toLower.val ≤ 'Z'.val) := by
      rw [hval]
      grind
    exact dif_neg hlower
  · have hsame : c.toLower = c := dif_neg hupper
    rw [hsame, hsame]

@[simp] theorem asciiLower_asciiLower (s : String) : asciiLower (asciiLower s) = asciiLower s := by
  have hchars : Char.toLower ∘ Char.toLower = Char.toLower := funext toLower_toLower
  rw [← String.toList_inj]
  simp only [asciiLower, String.toList_map, List.map_map, hchars]

namespace Action

/-- Two names spell one action: they differ in the case of ASCII letters at most, or both are names
of reading, or both are names of creating. -/
def Respells (s t : String) : Prop :=
  asciiLower s = asciiLower t ∨
    (asciiLower s ∈ ["read", "select"] ∧ asciiLower t ∈ ["read", "select"]) ∨
      (asciiLower s ∈ ["create", "insert"] ∧ asciiLower t ∈ ["create", "insert"])

instance (s t : String) : Decidable (Respells s t) := inferInstanceAs (Decidable (_ ∨ _))

/-- The first name of the action that a name in lower case spells. -/
def firstName (lower : String) : String :=
  if lower = "select" then "read" else if lower = "insert" then "create" else lower

theorem firstName_eq_iff {a b : String} : firstName a = firstName b ↔
    a = b ∨ (a ∈ ["read", "select"] ∧ b ∈ ["read", "select"]) ∨
      (a ∈ ["create", "insert"] ∧ b ∈ ["create", "insert"]) := by
  unfold firstName
  grind

theorem name_ofName (s : String) : (ofName s).name = firstName (asciiLower s) := by
  unfold ofName firstName
  split <;> simp_all [name]

theorem ofName_asciiLower (s : String) : ofName (asciiLower s) = ofName s := by
  rw [ofName, asciiLower_asciiLower, ← ofName]

theorem ofName_firstName (lower : String) : ofName (firstName lower) = ofName lower := by
  unfold firstName
  by_cases hselect : lower = "select"
  · subst hselect
    decide +kernel
  · by_cases hinsert : lower = "insert"
    · subst hinsert
      decide +kernel
    · rw [if_neg hselect, if_neg hinsert]

theorem ofName_name_ofName (s : String) : ofName (ofName s).name = ofName s := by
  rw [name_ofName, ofName_firstName, ofName_asciiLower]

theorem name_injOn : Set.InjOn name (Set.range ofName) := by
  have hleft : Set.LeftInvOn ofName name (Set.range ofName) := by
    rintro _ ⟨s, rfl⟩
    exact ofName_name_ofName s
  exact hleft.injOn

theorem ofName_eq_iff {s t : String} : ofName s = ofName t ↔ Respells s t :=
  calc ofName s = ofName t
    _ ↔ (ofName s).name = (ofName t).name := (name_injOn.eq_iff ⟨s, rfl⟩ ⟨t, rfl⟩).symm
    _ ↔ firstName (asciiLower s) = firstName (asciiLower t) := by rw [name_ofName, name_ofName]
    _ ↔ Respells s t := firstName_eq_iff

def isBuiltIn : Action → Bool
  | custom _ => false
  | _ => true

theorem ofName_name_of_isBuiltIn {b : Action} (h : b.isBuiltIn = true) : ofName b.name = b := by
  cases b with
  | custom n => cases h
  | read | create | update | delete => decide +kernel

/-- An action of an application is spelled by its name, which no built-in action prints. -/
theorem ofName_eq_custom {s n : String} (h : ofName s = custom n) :
    ofName n = custom n ∧ ∀ b : Action, b.isBuiltIn = true → b.name ≠ n := by
  have hn : ofName n = custom n := by
    have hround := ofName_name_ofName s
    rwa [h] at hround
  refine ⟨hn, ?_⟩
  rintro b hb rfl
  -- a built-in action that prints the name would be spelled by it as well
  rw [ofName_name_of_isBuiltIn hb] at hn
  rw [hn] at hb
  cases hb

end Action

namespace Policies

variable {p q : Policies} {model s t : String} {names : List String}

def NamedAmong (t : String) (names : List String) : Prop := ∃ s ∈ names, Action.Respells s t

instance (t : String) (names : List String) : Decidable (NamedAmong t names) :=
  inferInstanceAs (Decidable (∃ s ∈ names, Action.Respells s t))

theorem ofName_mem_iff : Action.ofName t ∈ names.map .ofName ↔ NamedAmong t names := by
  simp only [List.mem_map, Action.ofName_eq_iff, NamedAmong]

theorem names_iff_namedAmong {kind : String → List Action → Call}
    (hkind : ∀ name actions, (kind name actions).model = name ∧
      (kind name actions).actions = actions) :
    Names kind [kind model (names.map .ofName)] model (.ofName t) ↔ NamedAmong t names := by
  rw [names_singleton hkind, ofName_mem_iff, and_iff_right rfl]

theorem lookup_of_compose_named {rules : List Rule}
    (h : p.compose model (.ofName s) rules = .ok q) (t : String) :
    q.lookup model (.ofName t) =
      if Action.Respells s t then some rules else p.lookup model (.ofName t) := by
  rw [lookup_of_compose h]
  simp only [true_and, Action.ofName_eq_iff]

theorem requires_of_require_named (h : p.require model (names.map .ofName) = .ok q)
    (t : String) : q.requires model (.ofName t) = true ↔
      NamedAmong t names ∨ p.requires model (.ofName t) = true := by
  have hrecords : p.Records [.require model (names.map .ofName)] q := records_of_result h
  have hexempt : ¬Names .exempt [.require model (names.map .ofName)] model (.ofName t) := by
    simp [Names]
  have hrequired : Names .require [.require model (names.map .ofName)] model (.ofName t) ↔
      NamedAmong t names := names_iff_namedAmong fun _ _ => ⟨rfl, rfl⟩
  rw [requires_iff, requires_iff, hrecords.required, hrecords.exempt, hrecords.requireByDefault,
    hrequired, or_iff_left hexempt]
  tauto

/-- Actions that are exempted under a name need a rule only if they are required explicitly. -/
theorem requires_of_exempt_named (h : p.exemptActions model (names.map .ofName) = .ok q)
    (t : String) : q.requires model (.ofName t) = true ↔
      p.requires model (.ofName t) = true ∧
        (NamedAmong t names → lists p.required model (.ofName t) = true) := by
  have hrecords : p.Records [.exempt model (names.map .ofName)] q := records_of_result h
  have hrequired : ¬Names .require [.exempt model (names.map .ofName)] model (.ofName t) := by
    simp [Names]
  have hexempt : Names .exempt [.exempt model (names.map .ofName)] model (.ofName t) ↔
      NamedAmong t names := names_iff_namedAmong fun _ _ => ⟨rfl, rfl⟩
  rw [requires_iff, requires_iff, hrecords.required, hrecords.exempt, hrecords.requireByDefault,
    hexempt, or_iff_left hrequired]
  tauto

end Policies

namespace Action

/-- No spelling of an action escapes its policies. Names are one action exactly if they respell each
other. An action is spelled by what it prints, so actions that print alike are one, and what an
action of an application prints is neither printed by a built-in action nor a name of one. Rules,
requirements and exemptions hold under every spelling of the names they are entered under and change
nothing under other names. -/
theorem no_spelling_escapes :
    (∀ s t, ofName s = ofName t ↔ Respells s t) ∧
      (∀ s, ofName (ofName s).name = ofName s) ∧
      Set.InjOn name (Set.range ofName) ∧
      (∀ s n, ofName s = custom n →
        ofName n = custom n ∧ ∀ b : Action, b.isBuiltIn = true → b.name ≠ n) ∧
      ∀ (p q : Policies) (model : String),
        (∀ s rules, p.compose model (ofName s) rules = .ok q → ∀ t, q.lookup model (ofName t) =
          if Respells s t then some rules else p.lookup model (ofName t)) ∧
        (∀ names, p.require model (names.map ofName) = .ok q → ∀ t,
          q.requires model (ofName t) = true ↔
            Policies.NamedAmong t names ∨ p.requires model (ofName t) = true) ∧
        ∀ names, p.exemptActions model (names.map ofName) = .ok q → ∀ t,
          q.requires model (ofName t) = true ↔ p.requires model (ofName t) = true ∧
            (Policies.NamedAmong t names →
              Policies.lists p.required model (ofName t) = true) := by
  refine ⟨fun s t => ofName_eq_iff, ofName_name_ofName, name_injOn, fun s n => ofName_eq_custom, ?_⟩
  intro p q model
  refine ⟨?_, ?_, ?_⟩
  · intro s rules h
    exact Policies.lookup_of_compose_named h
  · intro names h
    exact Policies.requires_of_require_named h
  · intro names h
    exact Policies.requires_of_exempt_named h

def closedByDefault : Policies := { requireByDefault := true }

/-- Rules, exemptions and requirements for orders, entered under some spellings and asked for under
others. Only letters of ASCII lose their case. -/
theorem orders_by_name : ∃ q r u : Policies,
    (closedByDefault.compose "order" (ofName "SELECT") [Policies.openRule] = .ok q ∧
      q.lookup "order" (ofName "Read") = some [Policies.openRule] ∧
      q.lookup "order" (ofName "reader") = none) ∧
    (closedByDefault.exemptActions "order" (["Insert", "ÉDIT"].map ofName) = .ok r ∧
      ¬r.requires "order" (ofName "create") = true ∧
      r.requires "order" (ofName "édit") = true) ∧
    (Policies.require {} "order" (["Archive", "delete"].map ofName) = .ok u ∧
      u.requires "order" (ofName "ARCHIVE") = true ∧
      ¬u.requires "order" (ofName "update") = true) ∧
    ofName "ARCHIVE" = custom "archive" ∧ ofName "archive" = custom "archive" ∧
      delete.name ≠ "archive" := by
  obtain ⟨-, -, -, hcustom, hpolicies⟩ := no_spelling_escapes
  obtain ⟨q, hq⟩ : ∃ q, closedByDefault.compose "order" (ofName "SELECT") [Policies.openRule] =
    .ok q := ⟨_, rfl⟩
  obtain ⟨r, hr⟩ : ∃ r, closedByDefault.exemptActions "order" (["Insert", "ÉDIT"].map ofName) =
    .ok r := ⟨_, rfl⟩
  obtain ⟨u, hu⟩ : ∃ u, Policies.require {} "order" (["Archive", "delete"].map ofName) = .ok u :=
    ⟨_, rfl⟩
  have hlookup := (hpolicies closedByDefault q "order").1 "SELECT" _ hq
  have hexempt := (hpolicies closedByDefault r "order").2.2 _ hr
  have hrequire := (hpolicies {} u "order").2.1 _ hu
  have harchive : ofName "ARCHIVE" = custom "archive" := by decide +kernel
  have hmixed : ofName "Archive" = custom "archive" := by decide +kernel
  obtain ⟨hprinted, hothers⟩ := hcustom _ _ harchive
  have hlisted : ¬Policies.lists closedByDefault.required "order" (ofName "create") = true :=
    Bool.false_ne_true
  have hfree : ¬Policies.requires {} "order" (ofName "update") = true := Bool.false_ne_true
  refine ⟨q, r, u, ⟨hq, ?_, ?_⟩, ⟨hr, ?_, ?_⟩, ⟨hu, ?_, ?_⟩, harchive, hprinted, hothers _ rfl⟩
  · rw [hlookup, if_pos (by decide +kernel)]
  · rw [hlookup, if_neg (by decide +kernel)]
    rfl
  · rw [hexempt]
    intro hrequires
    exact hlisted (hrequires.2 (by decide +kernel))
  · rw [hexempt]
    exact ⟨rfl, fun hnamed => absurd hnamed (by decide +kernel)⟩
  · rw [hrequire]
    exact .inl ⟨"Archive", List.mem_cons_self, ofName_eq_iff.mp (hmixed.trans harchive.symm)⟩
  · rw [hrequire, or_iff_left hfree]
    decide +kernel

end Action
end RowPolicy
