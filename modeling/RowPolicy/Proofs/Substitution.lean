import RowPolicy.Proofs.JsonTree
import RowPolicy.Proofs.QueryGrammar
import RowPolicy.Template

/-!
What comes of a value when the attributes of an actor are put into it. Main statement: this fails
exactly where some text names an attribute that the actor lacks; otherwise each position keeps what
stands there, but that a name gives way to the value of the attribute as it is and two dollar signs
give way to one. So what is escaped comes through unchanged.
-/
namespace RowPolicy

section Lists

variable {α β : Type} {f : α → Option β}

theorem mapM_eq_none_iff {xs : List α} : xs.mapM f = none ↔ ∃ x ∈ xs, f x = none := by
  induction xs with
  | nil => simp
  | cons x xs ih =>
    rw [List.mapM_cons]
    cases hx : f x with
    | none => simp [hx]
    | some y => cases hxs : xs.mapM f <;> simp_all

theorem mapM_eq_some_iff {xs : List α} {ys : List β} : xs.mapM f = some ys ↔
    xs.length = ys.length ∧
      ∀ (i : Nat) x, xs[i]? = some x → ∃ y, ys[i]? = some y ∧ f x = some y := by
  induction xs generalizing ys with
  | nil => cases ys <;> simp
  | cons x xs ih =>
    rw [List.mapM_cons]
    constructor
    · intro h
      obtain ⟨y, hy, h⟩ := Option.bind_eq_some_iff.mp h
      obtain ⟨rest, hrest, h⟩ := Option.bind_eq_some_iff.mp h
      cases h
      obtain ⟨hlength, hplaces⟩ := ih.mp hrest
      refine ⟨congrArg (· + 1) hlength, fun i z hz => ?_⟩
      cases i with
      | zero =>
        cases hz
        exact ⟨y, rfl, hy⟩
      | succ i => exact hplaces i z hz
    · rintro ⟨hlength, hplaces⟩
      cases ys with
      | nil => simp at hlength
      | cons y ys =>
        have hy : f x = some y := by
          obtain ⟨z, hz, hx⟩ := hplaces 0 x rfl
          cases hz
          exact hx
        have hys : xs.mapM f = some ys :=
          ih.mpr ⟨Nat.succ.inj hlength, fun i z hz => hplaces (i + 1) z hz⟩
        simp [hy, hys]

end Lists

namespace Json

def children : Json → List Json
  | arr items => items
  | obj members => members.map (·.2)
  | _ => []

/-- What stands at a position: each step goes to a child, counted from zero. A key that an object
has twice counts twice. -/
def part? : List Nat → Json → Option Json
  | [], raw => some raw
  | i :: path, raw => raw.children[i]?.bind (part? path)

theorem induction_children {motive : Json → Prop}
    (step : ∀ raw : Json, (∀ part ∈ raw.children, motive part) → motive raw) (raw : Json) :
    motive raw := by
  induction raw with
  | arr items ih => exact step _ ih
  | obj members ih =>
    refine step _ fun part hpart => ?_
    obtain ⟨p, hp, rfl⟩ := List.mem_map.mp hpart
    exact ih p hp
  | _ => exact step _ nofun

/-- A part that has a property stands at some position, or some child has it at one of its own. -/
theorem exists_part?_iff {p : Json → Prop} {raw : Json} :
    (∃ path part, raw.part? path = some part ∧ p part) ↔
      p raw ∨ ∃ child ∈ raw.children, ∃ path part, child.part? path = some part ∧ p part := by
  constructor
  · rintro ⟨path, part, hpart, hp⟩
    cases path with
    | nil =>
      cases hpart
      exact .inl hp
    | cons i path =>
      obtain ⟨child, hchild, hpart⟩ := Option.bind_eq_some_iff.mp hpart
      exact .inr ⟨child, List.mem_of_getElem? hchild, path, part, hpart, hp⟩
  · rintro (hp | ⟨child, hchild, path, part, hpart, hp⟩)
    · exact ⟨[], raw, rfl, hp⟩
    · obtain ⟨i, hi⟩ := List.getElem?_of_mem hchild
      refine ⟨i :: path, part, ?_, hp⟩
      rw [part?, hi]
      exact hpart

end Json

section Texts

def StartsWithDollar (text : String) : Prop := text.toList.head? = some '$'

instance (text : String) : Decidable (StartsWithDollar text) :=
  inferInstanceAs (Decidable (text.toList.head? = some '$'))

variable {text : String}

theorem StartsWithDollar.exists_eq (h : StartsWithDollar text) : ∃ rest, text = "$" ++ rest := by
  obtain ⟨rest, hrest⟩ := List.head?_eq_some_iff.mp h
  refine ⟨String.ofList rest, ?_⟩
  rw [← String.toList_inj, hrest]
  simp

end Texts

namespace Json

mutual
/-- Every text that starts with a dollar sign gets one more in front, at every position. -/
def doubleDollars : Json → Json
  | str text => str (if StartsWithDollar text then "$" ++ text else text)
  | arr items => arr (doubleDollarsOfItems items)
  | obj members => obj (doubleDollarsOfMembers members)
  | null => null
  | bool b => bool b
  | num n => num n

def doubleDollarsOfItems : List Json → List Json
  | [] => []
  | item :: items => item.doubleDollars :: doubleDollarsOfItems items

def doubleDollarsOfMembers : List (String × Json) → List (String × Json)
  | [] => []
  | (key, value) :: members => (key, value.doubleDollars) :: doubleDollarsOfMembers members
end

end Json

namespace Attribute

theorem ofName?_of_not_mem {name : String} (h : '.' ∉ name.toList) :
    ofName? name = if name = "session" then some session else none := by
  rw [ofName?, cutAtDot_of_not_mem h]
  by_cases hname : name = "session" <;> simp [hname]

theorem ofName?_append {head rest : String} (hhead : '.' ∉ head.toList)
    (hrest : '.' ∉ rest.toList) :
    ofName? (head ++ "." ++ rest) = if head = "claim" then some (claim rest) else none := by
  simp only [ofName?, cutAtDot_append hhead, cutAtDot_of_not_mem hrest]
  by_cases hclaim : head = "claim" <;> simp [hclaim]

theorem ofName?_append_append {head type : String} (hhead : '.' ∉ head.toList)
    (htype : '.' ∉ type.toList) (part : String) :
    ofName? (head ++ "." ++ (type ++ "." ++ part)) =
      if head = "subject" ∧ part = "id" then some (subjectId type)
      else if head = "subject" ∧ part = "model" then some (subjectModel type) else none := by
  simp only [ofName?, cutAtDot_append hhead, cutAtDot_append htype]
  by_cases hsubject : head = "subject"
  · by_cases hid : part = "id"
    · simp [hsubject, hid]
    · by_cases hmodel : part = "model" <;> simp [hsubject, hid, hmodel]
  · simp [hsubject]

end Attribute

namespace Actor

/-- What a name stands for: the id or the model of a subject, a claim that is not null, or the
session. Types and claims are named without dots. -/
inductive Resolves (a : Actor) : String → Json → Prop
  | subjectId {type : String} {s : Subject} (hdot : '.' ∉ type.toList)
    (h : a.subject? type = some s) : Resolves a ("subject." ++ type ++ ".id") s.id.toJson
  | subjectModel {type : String} {s : Subject} (hdot : '.' ∉ type.toList)
    (h : a.subject? type = some s) : Resolves a ("subject." ++ type ++ ".model") (.str s.model)
  | claim {key : String} {value : Json} (hdot : '.' ∉ key.toList)
    (h : a.claim? key = some value) (hnull : value ≠ .null) : Resolves a ("claim." ++ key) value
  | session {session : String} (h : a.session = some session) :
    Resolves a "session" (.str session)

/-- What stands at a position, and what comes to stand there. The value of an attribute is taken as
it is, a text with two dollar signs loses the first, and lists and objects keep their length and
their keys. -/
inductive Binds (a : Actor) : Json → Json → Prop
  | named {name : String} {value : Json} (hname : ¬StartsWithDollar name)
    (h : a.Resolves name value) : Binds a (.str ("$" ++ name)) value
  | escaped {text : String} (h : StartsWithDollar text) :
    Binds a (.str ("$" ++ text)) (.str text)
  | text {text : String} (h : ¬StartsWithDollar text) : Binds a (.str text) (.str text)
  | null : Binds a .null .null
  | bool (b : Bool) : Binds a (.bool b) (.bool b)
  | num (n : Number) : Binds a (.num n) (.num n)
  | arr {items bounds : List Json} (h : items.length = bounds.length) :
    Binds a (.arr items) (.arr bounds)
  | obj {members bounds : List (String × Json)} (h : members.map (·.1) = bounds.map (·.1)) :
    Binds a (.obj members) (.obj bounds)

variable {a : Actor} {name text : String} {raw bound value : Json}

theorem subjectId_eq (type : String) :
    "subject." ++ type ++ ".id" = "subject" ++ "." ++ (type ++ "." ++ "id") := by
  simp [← String.toList_inj]

theorem subjectModel_eq (type : String) :
    "subject." ++ type ++ ".model" = "subject" ++ "." ++ (type ++ "." ++ "model") := by
  simp [← String.toList_inj]

theorem claim_eq (key : String) : "claim." ++ key = "claim" ++ "." ++ key := rfl

theorem resolves_of_resolve (h : a.resolve name = some value) : a.Resolves name value := by
  obtain ⟨named, hname, hvalue⟩ := Option.bind_eq_some_iff.mp h
  rcases cutAtDot_cases name with hdot | ⟨head, rest, hhead, rfl⟩
  · rw [Attribute.ofName?_of_not_mem hdot] at hname
    split at hname
    · cases hname
      obtain ⟨session, hsession, rfl⟩ := Option.map_eq_some_iff.mp hvalue
      subst name
      exact .session hsession
    · cases hname
  · rcases cutAtDot_cases rest with hrest | ⟨type, part, htype, rfl⟩
    · rw [Attribute.ofName?_append hhead hrest] at hname
      split at hname
      · cases hname
        obtain ⟨hclaim, hnull⟩ := Option.filter_eq_some_iff.mp hvalue
        subst head
        exact .claim hrest hclaim fun h => by simp [h, Json.isNull] at hnull
      · cases hname
    · rw [Attribute.ofName?_append_append hhead htype] at hname
      split at hname
      · rename_i hid
        cases hname
        obtain ⟨s, hs, rfl⟩ := Option.map_eq_some_iff.mp hvalue
        rw [hid.1, hid.2, ← subjectId_eq]
        exact .subjectId htype hs
      · split at hname
        · rename_i hmodel
          cases hname
          obtain ⟨s, hs, rfl⟩ := Option.map_eq_some_iff.mp hvalue
          rw [hmodel.1, hmodel.2, ← subjectModel_eq]
          exact .subjectModel htype hs
        · cases hname

theorem resolve_of_resolves (h : a.Resolves name value) : a.resolve name = some value := by
  cases h with
  | subjectId hdot h =>
    rw [resolve, subjectId_eq, Attribute.ofName?_append_append (by decide) hdot, if_pos ⟨rfl, rfl⟩]
    simp [attribute?, h]
  | subjectModel hdot h =>
    rw [resolve, subjectModel_eq, Attribute.ofName?_append_append (by decide) hdot,
      if_neg (by decide), if_pos ⟨rfl, rfl⟩]
    simp [attribute?, h]
  | claim hdot h hnull =>
    rw [resolve, claim_eq, Attribute.ofName?_append (by decide) hdot, if_pos rfl]
    cases value <;> simp_all [attribute?, Json.isNull]
  | session h =>
    rw [resolve, Attribute.ofName?_of_not_mem (by decide), if_pos rfl]
    simp [attribute?, h]

theorem resolve_eq_some_iff : a.resolve name = some value ↔ a.Resolves name value :=
  ⟨resolves_of_resolve, resolve_of_resolves⟩

theorem resolve_eq_none_iff : a.resolve name = none ↔ ∀ value, ¬a.Resolves name value := by
  rw [Option.eq_none_iff_forall_ne_some]
  exact forall_congr' fun value => not_congr resolve_eq_some_iff

theorem substituteText_plain (h : ¬StartsWithDollar text) :
    a.substituteText text = some (.str text) := by
  unfold substituteText
  split <;> simp_all [StartsWithDollar]

theorem substituteText_escaped (h : StartsWithDollar text) :
    a.substituteText ("$" ++ text) = some (.str text) := by
  obtain ⟨rest, rfl⟩ := h.exists_eq
  have htext : ("$" ++ ("$" ++ rest)).toList = '$' :: '$' :: rest.toList := by simp
  rw [substituteText, htext]
  simp

theorem substituteText_named (h : ¬StartsWithDollar name) :
    a.substituteText ("$" ++ name) = a.resolve name := by
  have htext : ("$" ++ name).toList = '$' :: name.toList := by simp
  rw [substituteText, htext]
  split
  · simp_all [StartsWithDollar]
  · rename_i rest _ hrest
    rw [← (List.cons.inj hrest).2, String.ofList_toList]
  · simp_all

theorem substituteText_eq_some_iff :
    a.substituteText text = some bound ↔ a.Binds (.str text) bound := by
  constructor
  · intro h
    by_cases htext : StartsWithDollar text
    · obtain ⟨rest, rfl⟩ := htext.exists_eq
      by_cases hrest : StartsWithDollar rest
      · rw [substituteText_escaped hrest] at h
        cases h
        exact .escaped hrest
      · rw [substituteText_named hrest] at h
        exact .named hrest (resolves_of_resolve h)
    · rw [substituteText_plain htext] at h
      cases h
      exact .text htext
  · intro h
    cases h with
    | named hname h => rw [substituteText_named hname, resolve_of_resolves h]
    | escaped h => exact substituteText_escaped h
    | text h => exact substituteText_plain h

def Lacks (a : Actor) (raw : Json) : Prop :=
  ∃ name, raw = .str ("$" ++ name) ∧ ¬StartsWithDollar name ∧ ∀ value, ¬a.Resolves name value

theorem substituteText_eq_none_iff : a.substituteText text = none ↔ a.Lacks (.str text) := by
  constructor
  · intro h
    by_cases htext : StartsWithDollar text
    · obtain ⟨rest, rfl⟩ := htext.exists_eq
      by_cases hrest : StartsWithDollar rest
      · rw [substituteText_escaped hrest] at h
        cases h
      · rw [substituteText_named hrest] at h
        exact ⟨rest, rfl, hrest, resolve_eq_none_iff.mp h⟩
    · rw [substituteText_plain htext] at h
      cases h
  · rintro ⟨name, heq, hname, h⟩
    cases heq
    rw [substituteText_named hname, resolve_eq_none_iff.mpr h]

theorem substituteItems_eq_mapM (items : List Json) :
    a.substituteItems items = items.mapM a.substitute := by
  induction items with
  | nil => rfl
  | cons item items ih => rw [substituteItems, ih, List.mapM_cons]

theorem substituteMembers_eq_map (members : List (String × Json)) :
    a.substituteMembers members =
      ((members.map (·.2)).mapM a.substitute).map (members.map (·.1)).zip := by
  induction members with
  | nil => rfl
  | cons p members ih =>
    obtain ⟨key, value⟩ := p
    rw [substituteMembers, ih, List.map_cons, List.map_cons, List.mapM_cons]
    cases a.substitute value with
    | none => rfl
    | some bound => cases (members.map (·.2)).mapM a.substitute <;> rfl

theorem substituteMembers_eq_some_iff {members bounds : List (String × Json)} :
    a.substituteMembers members = some bounds ↔ members.map (·.1) = bounds.map (·.1) ∧
      (members.map (·.2)).mapM a.substitute = some (bounds.map (·.2)) := by
  rw [substituteMembers_eq_map, Option.map_eq_some_iff]
  constructor
  · rintro ⟨values, hvalues, rfl⟩
    have hlength : (members.map (·.1)).length = values.length := by
      simpa using (mapM_eq_some_iff.mp hvalues).1
    refine ⟨(List.map_fst_zip hlength.le).symm, ?_⟩
    rw [List.map_snd_zip hlength.ge]
    exact hvalues
  · rintro ⟨hkeys, hvalues⟩
    exact ⟨_, hvalues, (List.zip_of_prod hkeys.symm rfl).symm⟩

theorem substitute_eq_none_iff_children : a.substitute raw = none ↔
    a.Lacks raw ∨ ∃ part ∈ raw.children, a.substitute part = none := by
  cases raw with
  | str text => simp [substitute, substituteText_eq_none_iff, Json.children]
  | arr items => simp [substitute, substituteItems_eq_mapM, mapM_eq_none_iff, Lacks, Json.children]
  | obj members =>
    rw [substitute, substituteMembers_eq_map, Option.map_eq_none_iff, Option.map_eq_none_iff,
      mapM_eq_none_iff]
    simp [Lacks, Json.children]
  | _ => simp [substitute, Lacks, Json.children]

/-- One level of a value: what it becomes itself, and each child on its own. -/
theorem substitute_eq_some_iff_children : a.substitute raw = some bound ↔
    a.Binds raw bound ∧ ∀ (i : Nat) part, raw.children[i]? = some part →
      ∃ part', bound.children[i]? = some part' ∧ a.substitute part = some part' := by
  cases raw with
  | str text => simp [substitute, substituteText_eq_some_iff, Json.children]
  | arr items =>
    rw [substitute, substituteItems_eq_mapM, Option.map_eq_some_iff]
    constructor
    · rintro ⟨bounds, hbounds, rfl⟩
      obtain ⟨hlength, hplaces⟩ := mapM_eq_some_iff.mp hbounds
      exact ⟨.arr hlength, hplaces⟩
    · rintro ⟨hbinds, hplaces⟩
      cases hbinds with
      | arr hlength => exact ⟨_, mapM_eq_some_iff.mpr ⟨hlength, hplaces⟩, rfl⟩
  | obj members =>
    rw [substitute, Option.map_eq_some_iff]
    constructor
    · rintro ⟨bounds, hbounds, rfl⟩
      obtain ⟨hkeys, hvalues⟩ := substituteMembers_eq_some_iff.mp hbounds
      exact ⟨.obj hkeys, (mapM_eq_some_iff.mp hvalues).2⟩
    · rintro ⟨hbinds, hplaces⟩
      cases hbinds with
      | @obj _ bounds hkeys =>
        have hlength : (members.map (·.2)).length = (bounds.map (·.2)).length := by
          simpa using congrArg List.length hkeys
        have hvalues := mapM_eq_some_iff.mpr ⟨hlength, hplaces⟩
        exact ⟨bounds, substituteMembers_eq_some_iff.mpr ⟨hkeys, hvalues⟩, rfl⟩
  | _ =>
    constructor
    · rintro ⟨⟩
      exact ⟨by constructor, by simp [Json.children]⟩
    · rintro ⟨⟨⟩, -⟩
      rfl

theorem substitute_eq_none_iff : a.substitute raw = none ↔
    ∃ path part, raw.part? path = some part ∧ a.Lacks part := by
  induction raw using Json.induction_children with
  | step raw ih =>
    rw [substitute_eq_none_iff_children, Json.exists_part?_iff]
    refine or_congr_right (exists_congr fun part => and_congr_right fun hpart => ih part hpart)

theorem substitute_eq_some_iff : a.substitute raw = some bound ↔
    ∀ path part, raw.part? path = some part →
      ∃ part', bound.part? path = some part' ∧ a.Binds part part' := by
  induction raw using Json.induction_children generalizing bound with
  | step raw ih =>
    rw [substitute_eq_some_iff_children]
    constructor
    · rintro ⟨hbinds, hchildren⟩ path part hpart
      cases path with
      | nil =>
        cases hpart
        exact ⟨bound, rfl, hbinds⟩
      | cons i path =>
        obtain ⟨child, hchild, hpart⟩ := Option.bind_eq_some_iff.mp hpart
        obtain ⟨child', hchild', h⟩ := hchildren i child hchild
        have hmem := List.mem_of_getElem? hchild
        obtain ⟨part', hpart', hbinds⟩ := (ih child hmem).mp h path part hpart
        refine ⟨part', ?_, hbinds⟩
        rw [Json.part?, hchild']
        exact hpart'
    · intro h
      obtain ⟨bound', hbound, hbinds⟩ := h [] raw rfl
      cases hbound
      refine ⟨hbinds, fun i child hchild => ?_⟩
      have hpart (path : List Nat) : raw.part? (i :: path) = child.part? path := by
        rw [Json.part?, hchild, Option.bind_some]
      obtain ⟨child', hchild', -⟩ := h [i] child (hpart [])
      have hchild' : bound.children[i]? = some child' := by
        simpa [Json.part?] using hchild'
      refine ⟨child', hchild', (ih child (List.mem_of_getElem? hchild)).mpr ?_⟩
      intro path part hpath
      obtain ⟨part', hpart', hbinds⟩ := h (i :: path) part ((hpart path).trans hpath)
      rw [Json.part?, hchild', Option.bind_some] at hpart'
      exact ⟨part', hpart', hbinds⟩

mutual
theorem substitute_doubleDollars : (raw : Json) → a.substitute raw.doubleDollars = some raw
  | .str text => by
    rw [Json.doubleDollars, substitute]
    by_cases htext : StartsWithDollar text
    · rw [if_pos htext, substituteText_escaped htext]
    · rw [if_neg htext, substituteText_plain htext]
  | .arr items => by
    have hitems := substituteItems_doubleDollars items
    rw [Json.doubleDollars, substitute, hitems, Option.map_some]
  | .obj members => by
    have hmembers := substituteMembers_doubleDollars members
    rw [Json.doubleDollars, substitute, hmembers, Option.map_some]
  | .null => rfl
  | .bool _ => rfl
  | .num _ => rfl

theorem substituteItems_doubleDollars : (items : List Json) →
    a.substituteItems (Json.doubleDollarsOfItems items) = some items
  | [] => rfl
  | item :: items => by
    have hitem := substitute_doubleDollars item
    have hitems := substituteItems_doubleDollars items
    rw [Json.doubleDollarsOfItems, substituteItems, hitem, hitems]
    rfl

theorem substituteMembers_doubleDollars : (members : List (String × Json)) →
    a.substituteMembers (Json.doubleDollarsOfMembers members) = some members
  | [] => rfl
  | (key, value) :: members => by
    have hvalue := substitute_doubleDollars value
    have hmembers := substituteMembers_doubleDollars members
    rw [Json.doubleDollarsOfMembers, substituteMembers, hvalue, hmembers]
    rfl
end

/-- Attributes are put in once, at every position, or not at all. A name that does not resolve
anywhere in a value fails it as a whole. Otherwise the outcome has at each position what belongs
there, and no text of an attribute's value is taken for a name again. So a value that is escaped
first is itself the outcome. -/
theorem substitute_exact (a : Actor) (raw : Json) :
    (a.substitute raw = none ↔ ∃ path name, raw.part? path = some (.str ("$" ++ name)) ∧
        ¬StartsWithDollar name ∧ ∀ value, ¬a.Resolves name value) ∧
      (∀ bound, a.substitute raw = some bound ↔ ∀ path part, raw.part? path = some part →
        ∃ part', bound.part? path = some part' ∧ a.Binds part part') ∧
      a.substitute raw.doubleDollars = some raw := by
  refine ⟨?_, fun bound => substitute_eq_some_iff, substitute_doubleDollars raw⟩
  rw [substitute_eq_none_iff]
  constructor
  · rintro ⟨path, part, hpart, name, rfl, hname, h⟩
    exact ⟨path, name, hpart, hname, h⟩
  · rintro ⟨path, name, hpart, hname, h⟩
    exact ⟨path, _, hpart, name, rfl, hname, h⟩

/-- A claim whose text looks like a name is put in as it is. -/
example : (anonymous.withClaim "tags" (.arr [.str "$session", .str "$$"])).substitute
      (.obj [("in", .str "$claim.tags"), ("not", .str "$$claim.tags")]) =
    some (.obj [("in", .arr [.str "$session", .str "$$"]), ("not", .str "$claim.tags")]) := rfl

end Actor
end RowPolicy
