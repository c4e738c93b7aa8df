import RowPolicy.Fault

/-!
Places in JSON values. A place is where keys and list positions lead, or where an object lacks a key
that it is asked for; places of a part are places of the whole. A path to a place is rendered with
dots between keys and brackets around positions.
-/
namespace RowPolicy

namespace Json

def at? : List Step → Json → Option Json
  | [], raw => some raw
  | .key name :: path, obj members => (Table.get? members name).bind (at? path)
  | .index i :: path, arr items => items[i]?.bind (at? path)
  | _ :: _, _ => none

/-- The keys without which an object may be refused for lack of them. -/
def soughtKeys : List String := ["field", "op", "value", "relation"]

/-- The places of a value: those where something stands, and those of a key that is sought in an
object that stands there and lacks it. -/
inductive HasPlace (raw : Json) : List Step → Prop
  | found {path : List Step} {part : Json} (h : raw.at? path = some part) : HasPlace raw path
  | missing {path : List Step} {members : List (String × Json)} {key : String}
    (h : raw.at? path = some (.obj members)) (hkey : key ∈ soughtKeys)
    (hnone : Table.get? members key = none) : HasPlace raw (path ++ [.key key])

variable {raw part : Json} {path rest : List Step} {members : List (String × Json)} {key : String}

@[simp] theorem at?_nil : raw.at? [] = some raw := by cases raw <;> rfl

@[simp] theorem at?_key :
    (obj members).at? (.key key :: path) = (Table.get? members key).bind (at? path) := rfl

@[simp] theorem at?_index {items : List Json} {i : Nat} :
    (arr items).at? (.index i :: path) = items[i]?.bind (at? path) := rfl

theorem at?_append : raw.at? (path ++ rest) = (raw.at? path).bind (at? rest) := by
  induction path generalizing raw with
  | nil => simp
  | cons step path ih =>
    cases step with
    | key name =>
      cases raw with
      | obj members => cases h : Table.get? members name <;> simp [h, ih]
      | _ => rfl
    | index i =>
      cases raw with
      | arr items => cases h : items[i]? <;> simp [h, ih]
      | _ => rfl

theorem hasPlace_nil : raw.HasPlace [] := .found at?_nil

theorem hasPlace_key (h : Table.get? members key = some part) :
    (obj members).HasPlace [.key key] := by
  have hat : (obj members).at? [.key key] = some part := by simp [h]
  exact .found hat

theorem HasPlace.within (hplace : part.HasPlace rest) (h : raw.at? path = some part) :
    raw.HasPlace (path ++ rest) := by
  cases hplace with
  | found hpart => exact .found (by rw [at?_append, h]; exact hpart)
  | missing hobj hkey hnone =>
    rw [← List.append_assoc]
    exact .missing (by rw [at?_append, h]; exact hobj) hkey hnone

theorem HasPlace.member (h : Table.get? members key = some part) (hplace : part.HasPlace rest) :
    (obj members).HasPlace (.key key :: rest) := by
  have hat : (obj members).at? [.key key] = some part := by simp [h]
  exact hplace.within hat

theorem HasPlace.item {items : List Json} {i : Nat} (h : items[i]? = some part)
    (hplace : part.HasPlace rest) : (arr items).HasPlace (.index i :: rest) := by
  have hat : (arr items).at? [.index i] = some part := by simp [h]
  exact hplace.within hat

theorem HasPlace.eq_nil (h : null.HasPlace path) : path = [] := by
  have hnull {path : List Step} {part : Json} (h : null.at? path = some part) :
      path = [] ∧ part = null := by
    cases path with
    | nil => exact ⟨rfl, by simpa using h.symm⟩
    | cons step path => cases step <;> cases h
  cases h with
  | found h => exact (hnull h).1
  | missing h => cases (hnull h).2

end Json

section Writing

def Step.text : Step → String
  | key name => "." ++ name
  | index i => "[" ++ toString i ++ "]"

/-- A path in writing: its keys with dots between them, every position in brackets behind what it is
a position of, and nothing for the value itself. -/
def writePath : List Step → String
  | [] => ""
  | .key name :: path => name ++ String.join (path.map Step.text)
  | .index i :: path => (Step.index i).text ++ String.join (path.map Step.text)

theorem Step.extend_of_ne {root : String} (h : root ≠ "") (s : Step) :
    s.extend root = root ++ s.text := by
  cases s <;> simp [extend, text, h, String.append_assoc]

theorem renderPath_of_ne {root : String} (h : root ≠ "") (path : List Step) :
    renderPath root path = root ++ String.join (path.map Step.text) := by
  induction path generalizing root with
  | nil => simp
  | cons s path ih =>
    have hs : root ++ s.text ≠ "" := by simp [h]
    rw [renderPath_cons, Step.extend_of_ne h, ih hs, List.map_cons, String.join_cons,
      String.append_assoc]

/-- Nothing stands behind an empty first key. Rendering would leave out the dot there. -/
def StartsPlainly (path : List Step) : Prop := ∀ rest, path = .key "" :: rest → rest = []

theorem startsPlainly_nil : StartsPlainly [] := by
  intro rest h
  cases h

theorem renderPath_eq_writePath {path : List Step} (h : StartsPlainly path) :
    renderPath "" path = writePath path := by
  cases path with
  | nil => rfl
  | cons s path =>
    rw [renderPath_cons]
    cases s with
    | key name =>
      by_cases hname : name = ""
      · subst hname
        rw [h path rfl]
        rfl
      · exact renderPath_of_ne hname path
    | index i =>
      have hi : (Step.index i).extend "" = (Step.index i).text := by simp [Step.extend, Step.text]
      rw [hi]
      exact renderPath_of_ne (by simp [Step.text]) path

end Writing

end RowPolicy
