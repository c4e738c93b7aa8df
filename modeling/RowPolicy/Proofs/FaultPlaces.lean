import RowPolicy.Proofs.Faults
import RowPolicy.Proofs.QueryGrammar
import RowPolicy.Proofs.SealedSchema

/-!
Where a query is at fault. A query is made of parts, each read as a query, a filter, an include or a
sort clause over some model, and steps lead from a part to those within. Main statement: when a
query on a sealed schema is refused, the path of the error leads to a part that has the defect it is
refused for, at this place of the part.
-/
namespace RowPolicy

def Fault.OnKnown (f : Fault) : Prop := ∀ model, f.defect ≠ .unknownModel model

theorem Fault.OnKnown.reason_ne {f : Fault} (h : f.OnKnown) : f.defect.reason ≠ .unknownModel := by
  obtain ⟨path, defect⟩ := f
  intro hreason
  cases defect with
  | unknownModel model => exact h model rfl
  | _ => cases hreason

/-- What a part of a query is read as, and over which model. Filters are counted from the outermost
one, includes from the query that is nested in none; each counts itself. -/
inductive Part where
  | query (model : String) (depth : Nat)
  | filter (m : Model) (depth : Nat)
  | inclusion (m : Model) (depth : Nat)
  | clause (m : Model)

/-- A name that is written in a value, and where: `cut` takes it from a text, and an object has it
under a key. -/
inductive Json.Names (key : String) (cut : String → String) : Json → List Step → String → Prop
  | text (text : String) : Names key cut (.str text) [] (cut text)
  | member (members : List (String × Json)) (name : String)
    (h : Table.get? members key = some (.str name)) : Names key cut (.obj members) [.key key] name

namespace Schema

/-- The steps from a part of a query to a part within it. -/
inductive Follows (s : Schema) : Part → Json → List Step → Part → Json → Prop
  | filters {model : String} {m : Model} {depth : Nat} {members : List (String × Json)} {raw : Json}
    (hm : s.model? model = some m) (h : Table.get? members "filters" = some raw) :
    Follows s (.query model depth) (.obj members) [.key "filters"] (.filter m 1) raw
  | includes {model : String} {m : Model} {depth i : Nat} {members : List (String × Json)}
    {items : List Json} {raw : Json} (hm : s.model? model = some m)
    (h : Table.get? members "include" = some (.arr items)) (hitem : items[i]? = some raw) :
    Follows s (.query model depth) (.obj members) [.key "include", .index i]
      (.inclusion m (depth + 1)) raw
  | sort {model : String} {m : Model} {depth i : Nat} {members : List (String × Json)}
    {items : List Json} {raw : Json} (hm : s.model? model = some m)
    (h : Table.get? members "sort" = some (.arr items)) (hitem : items[i]? = some raw) :
    Follows s (.query model depth) (.obj members) [.key "sort", .index i] (.clause m) raw
  | combined {m : Model} {depth i : Nat} {members : List (String × Json)} {items : List Json}
    {raw : Json} (k : Filter.Connective) (h : Table.get? members k.key = some (.arr items))
    (hitem : items[i]? = some raw) : Follows s (.filter m depth) (.obj members)
      [.key k.key, .index i] (.filter m (depth + 1)) raw
  | negated {m : Model} {depth : Nat} {members : List (String × Json)} {raw : Json}
    (h : Table.get? members "not" = some raw) :
    Follows s (.filter m depth) (.obj members) [.key "not"] (.filter m (depth + 1)) raw
  | nested {m : Model} {depth : Nat} {members : List (String × Json)} {name : String}
    {r : Relation} {raw : Json} (hname : Table.get? members "relation" = some (.str name))
    (hr : m.relation? name = some r) (h : Table.get? members "query" = some raw) :
    Follows s (.inclusion m depth) (.obj members) [.key "query"] (.query r.target depth) raw

inductive Leads (s : Schema) : Part → Json → List Step → Part → Json → Prop
  | here (p : Part) (raw : Json) : Leads s p raw [] p raw
  | step {p q t : Part} {raw part sub : Json} {steps path : List Step}
    (h : s.Follows p raw steps q part) (hrest : s.Leads q part path t sub) :
    Leads s p raw (steps ++ path) t sub

/-- What a part of a query is refused for, and the place in the part where it is so. A name that
nothing has, an operator that is none or is not permitted, and a level that is one too deep are told
apart; the rest is in the form of what is written. -/
inductive Shows (s : Schema) (limits : QueryLimits) : Part → Json → List Step → Defect → Prop
  | form {p : Part} {raw : Json} {place : List Step} {d : Defect} (hplace : raw.HasPlace place)
    (hform : d.isOfForm = true) : Shows s limits p raw place d
  | unknownModel {model : String} {depth : Nat} {raw : Json} (hm : s.model? model = none) :
    Shows s limits (.query model depth) raw [] (.unknownModel model)
  | filterTooDeep {m : Model} {raw : Json} :
    Shows s limits (.filter m (limits.filterDepth.toNat + 1)) raw []
      (.filterTooDeep limits.filterDepth.toNat)
  | unknownField {m : Model} {depth : Nat} {members : List (String × Json)} {name : String}
    (hname : Table.get? members "field" = some (.str name)) (hf : m.field? name = none) :
    Shows s limits (.filter m depth) (.obj members) [.key "field"] (.unknownField m.name name)
  | unknownOperator {m : Model} {depth : Nat} {members : List (String × Json)} {name key : String}
    {f : Field} {written : Json} (hname : Table.get? members "field" = some (.str name))
    (hf : m.field? name = some f) (hkey : key ∈ ["op", "operator"])
    (hwritten : Table.get? members key = some written)
    (h : ∀ op : Operator, written ≠ .str op.name) :
    Shows s limits (.filter m depth) (.obj members) [.key key] (.unknownOperator written)
  | notPermitted {m : Model} {depth : Nat} {members : List (String × Json)} {name key : String}
    {f : Field} {op : Operator} (hname : Table.get? members "field" = some (.str name))
    (hf : m.field? name = some f) (hkey : key ∈ ["op", "operator"])
    (hwritten : Table.get? members key = some (.str op.name))
    (h : f.permitted.contains op = false) :
    Shows s limits (.filter m depth) (.obj members) [.key key]
      (.notPermitted op f.decl.type f.decl.name)
  | includeTooDeep {m : Model} {raw : Json} :
    Shows s limits (.inclusion m (limits.includeDepth.toNat + 1)) raw []
      (.includeTooDeep limits.includeDepth.toNat)
  | unknownRelation {m : Model} {depth : Nat} {raw : Json} {place : List Step} {name : String}
    (hname : raw.Names "relation" id place name) (hr : m.relation? name = none) :
    Shows s limits (.inclusion m depth) raw place (.unknownRelation m.name name)
  | unknownSortField {m : Model} {raw : Json} {place : List Step} {name : String}
    (hname : raw.Names "field" (fun text => (cutAtDot text).1) place name)
    (hf : m.field? name = none) : Shows s limits (.clause m) raw place (.unknownField m.name name)
  | notSortable {m : Model} {f : Field} {raw : Json} {place : List Step} {name : String}
    (hname : raw.Names "field" (fun text => (cutAtDot text).1) place name)
    (hf : m.field? name = some f) (h : f.decl.sortable = false) :
    Shows s limits (.clause m) raw place (.notSortable name)

/-- A fault of a part: its path leads to a part within that shows the defect at the place which the
path ends with. -/
def Explains (s : Schema) (limits : QueryLimits) (p : Part) (raw : Json) (f : Fault) : Prop :=
  ∃ path place q part, f.path = path ++ place ∧ s.Leads p raw path q part ∧
    s.Shows limits q part place f.defect

variable {s : Schema} {limits : QueryLimits} {p q : Part} {raw part : Json}
  {path steps place : List Step} {d : Defect}

theorem Follows.at? (h : s.Follows p raw steps q part) : raw.at? steps = some part := by
  cases h with
  | filters hm h => simp [h]
  | includes hm h hitem => simp [h, hitem]
  | sort hm h hitem => simp [h, hitem]
  | combined k h hitem => simp [h, hitem]
  | negated h => simp [h]
  | nested hname hr h => simp [h]

theorem Leads.at? (h : s.Leads p raw path q part) : raw.at? path = some part := by
  induction h with
  | here => exact Json.at?_nil
  | step h hrest ih => rw [Json.at?_append, h.at?, Option.bind_some, ih]

theorem hasPlace_of_names {key name : String} {cut : String → String}
    (h : raw.Names key cut place name) : raw.HasPlace place := by
  cases h with
  | text => exact Json.hasPlace_nil
  | member members name h => exact Json.hasPlace_key h

theorem Shows.hasPlace (h : s.Shows limits p raw place d) : raw.HasPlace place := by
  cases h with
  | form hplace hform => exact hplace
  | unknownModel | filterTooDeep | includeTooDeep => exact Json.hasPlace_nil
  | unknownField hname => exact Json.hasPlace_key hname
  | unknownOperator _ _ _ hwritten | notPermitted _ _ _ hwritten =>
    exact Json.hasPlace_key hwritten
  | unknownRelation hname | unknownSortField hname | notSortable hname =>
    exact hasPlace_of_names hname

section Steps

variable {α : Type} {r : Reading α}

theorem explains_of_shows {f : Fault} (h : s.Shows limits p raw f.path f.defect) :
    s.Explains limits p raw f :=
  ⟨[], f.path, p, raw, rfl, .here p raw, h⟩

theorem explains_fault_behind (h : s.Shows limits p raw place d) :
    FailsWith (fun f => s.Explains limits p raw ⟨place ++ f.path, f.defect⟩)
      (fault d : Reading α) :=
  failsWith_fault.mpr (explains_of_shows (by simpa using h))

theorem explains_fault (h : s.Shows limits p raw [] d) :
    FailsWith (s.Explains limits p raw) (fault d : Reading α) :=
  explains_fault_behind h

theorem explains_fault_under {key : String} (h : s.Shows limits p raw [.key key] d) :
    FailsWith (s.Explains limits p raw) (under (.key key) (fault d) : Reading α) :=
  failsWith_under.mpr (failsWith_fault.mpr (explains_of_shows h))

theorem explains_of_inFormOf (h : FailsWith (Fault.InFormOf raw) r) :
    FailsWith (s.Explains limits p raw) r :=
  h.mono fun _ hf => explains_of_shows (.form hf.1 hf.2)

theorem Follows.explains (h : s.Follows p raw steps q part)
    (hr : FailsWith (s.Explains limits q part) r) :
    FailsWith (fun f => s.Explains limits p raw ⟨steps ++ f.path, f.defect⟩) r := by
  refine hr.mono fun f hf => ?_
  obtain ⟨path, place, t, sub, hpath, hleads, hshows⟩ := hf
  exact ⟨steps ++ path, place, t, sub, by simp [hpath], .step h hleads, hshows⟩

end Steps

section Filters

variable {m : Model} {depth : Nat} {members : List (String × Json)}

theorem explains_readField : FailsWith (s.Explains limits (.filter m depth) (.obj members))
    (readField m members) := by
  unfold readField
  split
  · exact explains_of_inFormOf (inFormOf_member (by decide) (inFormOf_fault rfl))
  · rename_i name hname
    split
    · exact explains_fault_under (.unknownField (get?_eq_str_iff.mp hname) ‹_›)
    · exact failsWith_ok _

theorem explains_readPermitted {f : Field} {name key : String} {written : Json}
    (hname : Table.get? members "field" = some (.str name)) (hf : m.field? name = some f)
    (hkey : key ∈ ["op", "operator"]) (hwritten : Table.get? members key = some written) :
    FailsWith (s.Explains limits (.filter m depth) (.obj members))
      (under (.key key) (readPermitted f written)) := by
  unfold readPermitted
  split
  · rename_i hnone
    refine explains_fault_under (.unknownOperator hname hf hkey hwritten fun op hop => ?_)
    rw [bind_ofName?_eq_some_iff.mpr hop] at hnone
    cases hnone
  · rename_i op hop
    split
    · exact failsWith_ok op
    · rename_i hpermitted
      rw [bind_ofName?_eq_some_iff.mp hop] at hwritten
      exact explains_fault_under
        (.notPermitted hname hf hkey hwritten (by simpa using hpermitted))

theorem explains_readOperator {f : Field} {name : String}
    (hname : Table.get? members "field" = some (.str name)) (hf : m.field? name = some f) :
    FailsWith (s.Explains limits (.filter m depth) (.obj members)) (readOperator f members) := by
  unfold readOperator
  split
  · exact explains_readPermitted hname hf (by decide) ‹_›
  · exact explains_readPermitted hname hf (by decide) ‹_›
  · exact explains_of_inFormOf (inFormOf_fault rfl)
  · exact explains_of_inFormOf (inFormOf_member (by decide) (inFormOf_fault rfl))

theorem explains_readCondition :
    FailsWith (s.Explains limits (.filter m depth) (.obj members)) (readCondition m members) := by
  simp only [readCondition, failsWith_bind]
  refine ⟨explains_of_inFormOf (inFormOf_expectKeys _ _), fun _ _ => ⟨explains_readField, ?_⟩⟩
  intro f hfield
  obtain ⟨name, hname, hf⟩ := readField_eq_ok_iff.mp hfield
  refine ⟨explains_readOperator (get?_eq_str_iff.mp hname) hf, fun op _ => ⟨?_, ?_⟩⟩
  · exact explains_of_inFormOf (inFormOf_member (by decide) (inFormOf_readOperand f.decl op))
  · exact fun operand _ => failsWith_pure _

theorem explains_readAlone {α : Type} {combinator : String} {r : Reading α}
    (h : FailsWith (s.Explains limits p (.obj members)) (under (.key combinator) r)) :
    FailsWith (s.Explains limits p (.obj members)) (readAlone combinator members r) := by
  unfold readAlone
  split
  · exact h
  · exact explains_of_inFormOf (inFormOf_fault rfl)

theorem explains_readParts {α : Type} {k : Filter.Connective} {read : Json → Reading α}
    (hbody : Table.get? members k.key = some raw)
    (h : ∀ item, FailsWith (s.Explains limits (.filter m (depth + 1)) item) (read item)) :
    FailsWith (s.Explains limits (.filter m depth) (.obj members))
      (under (.key k.key) (readParts read raw)) := by
  rw [failsWith_under]
  unfold readParts
  split
  · refine failsWith_readItems fun i item hitem => ?_
    rw [Nat.zero_add]
    exact (Follows.combined k hbody hitem).explains (h item)
  · exact explains_fault_behind (.form (Json.hasPlace_key hbody) rfl)

/-- A filter is at fault at a part that is. The depth at which it stands and the levels it may still
have below make up all the levels and the one that is too deep. -/
theorem explains_readFilter {levels : Nat} (h : depth + levels = limits.filterDepth.toNat + 1) :
    FailsWith (s.Explains limits (.filter m depth) raw)
      (RowPolicy.readFilter m limits.filterDepth.toNat levels raw) := by
  induction levels generalizing depth raw with
  | zero =>
    obtain rfl : depth = limits.filterDepth.toNat + 1 := h
    exact explains_fault .filterTooDeep
  | succ levels ih =>
    have hparts (raw : Json) : FailsWith (s.Explains limits (.filter m (depth + 1)) raw)
        (RowPolicy.readFilter m limits.filterDepth.toNat levels raw) := ih (by omega)
    cases raw with
    | obj members =>
      unfold RowPolicy.readFilter
      split
      · exact failsWith_map.mpr (explains_readAlone (explains_readParts (k := .all) ‹_› hparts))
      · exact failsWith_map.mpr (explains_readAlone (explains_readParts (k := .any) ‹_› hparts))
      · refine failsWith_map.mpr (explains_readAlone (failsWith_under.mpr ?_))
        exact (Follows.negated ‹_›).explains (hparts _)
      · exact failsWith_map.mpr explains_readCondition
    | _ => exact explains_of_inFormOf (inFormOf_fault rfl)

end Filters

section Sorting

variable {m : Model}

theorem explains_readSortable {name : String}
    (hname : raw.Names "field" (fun text => (cutAtDot text).1) place name) :
    FailsWith (fun f => s.Explains limits (.clause m) raw ⟨place ++ f.path, f.defect⟩)
      (readSortable m name) := by
  unfold readSortable
  split
  · exact explains_fault_behind (.unknownSortField hname ‹_›)
  · rename_i f hf
    split
    · exact failsWith_ok _
    · rename_i hsortable
      exact explains_fault_behind (.notSortable hname hf (by simpa using hsortable))

theorem explains_readSortClause :
    FailsWith (s.Explains limits (.clause m) raw) (readSortClause m raw) := by
  unfold readSortClause
  split
  · rename_i text
    simp only [failsWith_bind]
    refine ⟨explains_of_inFormOf (inFormOf_readDirection _), fun direction _ => ⟨?_, ?_⟩⟩
    · exact explains_readSortable (.text text)
    · exact fun _ _ => failsWith_pure _
  · rename_i members
    rw [failsWith_bind]
    refine ⟨explains_of_inFormOf (inFormOf_expectKeys _ _), fun _ _ => ?_⟩
    split
    · rename_i name hname
      simp only [failsWith_bind]
      refine ⟨explains_of_inFormOf (inFormOf_readOptional fun raw => ?_), fun _ _ => ⟨?_, ?_⟩⟩
      · split
        · exact inFormOf_readDirection _
        · exact inFormOf_fault rfl
      · exact failsWith_under.mpr
          (explains_readSortable (.member members name (get?_eq_str_iff.mp hname)))
      · exact fun _ _ => failsWith_pure _
    · exact explains_of_inFormOf (inFormOf_member (by decide) (inFormOf_fault rfl))
  · exact explains_of_inFormOf (inFormOf_fault rfl)

end Sorting

section Includes

variable {m : Model} {depth : Nat} {read : String → Json → Reading Query} {seen : List String}

theorem explains_readRelation {name : String} (hname : raw.Names "relation" id place name) :
    FailsWith (fun f => s.Explains limits (.inclusion m depth) raw ⟨place ++ f.path, f.defect⟩)
      (readRelation m seen name) := by
  unfold readRelation
  split
  · exact explains_fault_behind (.unknownRelation hname ‹_›)
  · split
    · exact explains_fault_behind (.form (hasPlace_of_names hname) rfl)
    · exact failsWith_ok _

/-- An include is at fault itself or in its query, if the query that stands for a missing one is not
at fault. -/
theorem explains_readInclude (hnull : ∀ r ∈ m.relations, Succeeds (read r.target .null))
    (hread : ∀ r ∈ m.relations, ∀ raw,
      FailsWith (s.Explains limits (.query r.target depth) raw) (read r.target raw)) :
    FailsWith (s.Explains limits (.inclusion m depth) raw) (readInclude read m seen raw) := by
  have hmem {name : String} {r : Relation} (h : readRelation m seen name = .ok r) :
      m.relation? name = some r ∧ r ∈ m.relations := by
    have hr := (readRelation_eq_ok_iff.mp h).1
    exact ⟨hr, List.mem_of_find?_eq_some hr⟩
  -- No fault is reported behind a missing `query`, which is no place: null stands for it.
  have hmissing {P : Fault → Prop} {r : Relation} (hr : r ∈ m.relations) :
      FailsWith P (read r.target .null) := by
    obtain ⟨q, hq⟩ := hnull r hr
    rw [hq]
    exact failsWith_ok q
  unfold readInclude
  split
  · rename_i name
    simp only [failsWith_bind]
    refine ⟨explains_readRelation (.text name), fun r hr => ⟨?_, fun _ _ => failsWith_pure _⟩⟩
    exact failsWith_under.mpr (hmissing (hmem hr).2)
  · rename_i members
    simp only [failsWith_bind]
    refine ⟨explains_of_inFormOf (inFormOf_expectKeys _ _), fun _ _ => ⟨?_, ?_⟩⟩
    · split
      · exact explains_of_inFormOf (inFormOf_member (by decide) (inFormOf_fault rfl))
      · rename_i name hname
        exact failsWith_under.mpr
          (explains_readRelation (.member members name (get?_eq_str_iff.mp hname)))
    · intro r hr
      refine ⟨failsWith_under.mpr ?_, fun _ _ => failsWith_pure _⟩
      rw [under_eq_ok_iff] at hr
      split at hr
      · cases hr
      · rename_i name hname
        obtain ⟨hrelation, hr⟩ := hmem hr
        cases hquery : Table.get? members "query" with
        | none => exact hmissing hr
        | some raw =>
          exact (Follows.nested (get?_eq_str_iff.mp hname) hrelation hquery).explains
            (hread r hr raw)
  · exact explains_of_inFormOf (inFormOf_fault rfl)

end Includes

section Queries

variable {model : String} {depth : Nat}

theorem explains_readQueryWith {item : Model → List String → Json → Reading (Include Query)}
    (hitem : ∀ m ∈ s.models, ∀ seen raw,
      FailsWith (s.Explains limits (.inclusion m (depth + 1)) raw) (item m seen raw)) :
    FailsWith (s.Explains limits (.query model depth) raw)
      (readQueryWith s limits item model raw) := by
  rw [readQueryWith, failsWith_bind]
  constructor
  · unfold readModel
    split
    · exact failsWith_ok _
    · exact explains_fault (.unknownModel ‹_›)
  intro m hmodel
  have hm := readModel_eq_ok_iff.mp hmodel
  split
  · exact failsWith_pure _
  · rename_i members
    simp only [failsWith_bind]
    refine ⟨explains_of_inFormOf (inFormOf_expectKeys _ _), fun _ _ => ⟨?_, fun _ _ => ⟨?_,
      fun _ _ => ⟨?_, fun _ _ => ⟨?_, fun _ _ => failsWith_pure _⟩⟩⟩⟩⟩
    · refine failsWith_readOptional fun raw hraw => ?_
      exact (Follows.filters hm hraw).explains (explains_readFilter (Nat.add_comm _ _))
    · refine failsWith_readOptional fun raw hraw => ?_
      unfold readIncludeList
      split
      · refine failsWith_readIncludes fun seen k raw hitem' => ?_
        rw [Nat.zero_add]
        exact (Follows.includes hm hraw hitem').explains
          (hitem m (List.mem_of_find?_eq_some hm) seen raw)
      · exact explains_fault_behind (.form (Json.hasPlace_key hraw) rfl)
    · refine failsWith_readOptional fun raw hraw => ?_
      unfold readSort
      split
      · refine failsWith_readItems fun k raw hitem' => ?_
        rw [Nat.zero_add]
        exact (Follows.sort hm hraw hitem').explains explains_readSortClause
      · exact explains_fault_behind (.form (Json.hasPlace_key hraw) rfl)
    · exact explains_of_inFormOf (inFormOf_readOptional fun raw => inFormOf_readPage _)
  · exact explains_of_inFormOf (inFormOf_fault rfl)

/-- Where relations lead to registered models, a query is at fault at a part that is. The includes
above it and the levels it may still have below make up all the levels. -/
theorem explains_readQuery
    (htarget : ∀ m ∈ s.models, ∀ r ∈ m.relations, s.contains r.target = true) {levels : Nat}
    (h : depth + levels = limits.includeDepth.toNat) :
    FailsWith (s.Explains limits (.query model depth) raw)
      (readQuery s limits levels model raw) := by
  induction levels generalizing depth model raw with
  | zero =>
    obtain rfl : depth = limits.includeDepth.toNat := h
    exact explains_readQueryWith fun m _ seen raw => explains_fault .includeTooDeep
  | succ levels ih =>
    refine explains_readQueryWith fun m hm seen raw => explains_readInclude (fun r hr => ?_) ?_
    · obtain ⟨n, hn⟩ := Option.isSome_iff_exists.mp (htarget m hm r hr)
      exact (succeeds_readQuery levels).mpr (by cases levels <;> exact .null n hn)
    · exact fun r _ raw => ih (by omega)

theorem startsPlainly_readOptional {α : Type} {key : String} {members : List (String × Json)}
    {missing : α} {read : Json → Reading α} (hkey : key ≠ "") :
    FailsWith (fun f => StartsPlainly f.path) (readOptional key members missing read) := by
  refine failsWith_readOptional fun raw _ f _ rest h => ?_
  cases h
  exact absurd rfl hkey

theorem startsPlainly_expectKeys (expected : List String) (members : List (String × Json)) :
    FailsWith (fun f => StartsPlainly f.path) (expectKeys expected members) := by
  induction members with
  | nil => exact failsWith_ok ()
  | cons p members ih =>
    rw [expectKeys]
    split
    · exact ih
    · refine failsWith_under.mpr (failsWith_fault.mpr fun rest h => ?_)
      exact (List.cons.inj h).2.symm

theorem startsPlainly_readQueryWith
    {item : Model → List String → Json → Reading (Include Query)} :
    FailsWith (fun f => StartsPlainly f.path) (readQueryWith s limits item model raw) := by
  rw [readQueryWith, failsWith_bind]
  constructor
  · unfold readModel
    split
    · exact failsWith_ok _
    · exact failsWith_fault.mpr startsPlainly_nil
  intro m _
  split
  · exact failsWith_pure _
  · simp only [failsWith_bind]
    refine ⟨startsPlainly_expectKeys _ _, fun _ _ => ⟨?_, fun _ _ => ⟨?_, fun _ _ => ⟨?_,
      fun _ _ => ⟨?_, fun _ _ => failsWith_pure _⟩⟩⟩⟩⟩
    all_goals exact startsPlainly_readOptional (by decide)
  · exact failsWith_fault.mpr startsPlainly_nil

theorem startsPlainly_readQuery {levels : Nat} :
    FailsWith (fun f => StartsPlainly f.path) (readQuery s limits levels model raw) := by
  cases levels <;> exact startsPlainly_readQueryWith

end Queries

section Known

variable {model : String}

def Registers (s : Schema) : Part → Prop
  | .query model _ => s.contains model = true
  | .inclusion m _ => m ∈ s.models
  | .filter _ _ | .clause _ => True

theorem Leads.registers (h : s.Leads p raw path q part)
    (htarget : ∀ m ∈ s.models, ∀ r ∈ m.relations, s.contains r.target = true)
    (hp : s.Registers p) : s.Registers q := by
  induction h with
  | here => exact hp
  | step h hrest ih =>
    refine ih ?_
    cases h with
    | filters | sort | combined | negated => trivial
    | includes hm => exact List.mem_of_find?_eq_some hm
    | nested hname hr => exact htarget _ hp _ (List.mem_of_find?_eq_some hr)

theorem onKnown_readQuery
    (htarget : ∀ m ∈ s.models, ∀ r ∈ m.relations, s.contains r.target = true)
    (hmodel : s.contains model = true) (raw : Json) :
    FailsWith Fault.OnKnown (readQuery s limits limits.includeDepth.toNat model raw) := by
  intro f hf
  obtain ⟨path, place, q, part, -, hleads, hshows⟩ :=
    explains_readQuery htarget (Nat.zero_add _) f hf
  have hq : s.Registers q := hleads.registers htarget hmodel
  intro unknown hd
  rw [hd] at hshows
  cases hshows with
  | form hplace hform => cases hform
  | unknownModel hm => simp [Registers, Schema.contains, hm] at hq

theorem readQuery_of_unknown (hmodel : s.contains model = false) (depth : Nat) (raw : Json) :
    readQuery s limits depth model raw = fault (.unknownModel model) := by
  have hnone : s.model? model = none := by simpa [Schema.contains] using hmodel
  cases depth <;> simp [readQuery, readQueryWith, Schema.readModel, hnone, fault]

end Known

/-- A query on a sealed schema that is refused is refused at a place that it has. The path to this
place leads through the parts of the query to one that shows there what the error says. -/
theorem parse_fault {calls : List Call} {e : ParseError} {model : String}
    (hsealed : (run {} calls).isSealed = true)
    (h : (run {} calls).parse limits model raw = .error e) :
    ∃ path place d q part, e = ⟨writePath (path ++ place), d.reason, d.detail⟩ ∧
      raw.HasPlace (path ++ place) ∧ (run {} calls).Leads (.query model 0) raw path q part ∧
        (run {} calls).Shows limits q part place d := by
  obtain ⟨-, hsound, -⟩ := sealed_run hsealed
  obtain ⟨⟨path, d⟩, hf, rfl⟩ := Result.mapError_eq_error_iff.mp h
  -- An unexpected key may be empty, but then it is all of the path.
  have hstart := startsPlainly_readQuery _ hf
  obtain ⟨path, place, q, part, rfl, hleads, hshows⟩ :=
    explains_readQuery (fun m hm => (hsound m hm).linked.target) (Nat.zero_add _) _ hf
  refine ⟨path, place, d, q, part, ?_, .within hshows.hasPlace hleads.at?, hleads, hshows⟩
  rw [Fault.toParseError, renderPath_eq_writePath hstart]

/-- The customers with their orders that have a cost; what orders have is a total. -/
def costedOrders : Json :=
  .obj [("include", .arr [.obj [("query", .obj [("filters", .obj [("and", .arr [.obj [("not",
    .obj [("field", .str "cost"), ("op", .str "is")])]])])]), ("relation", .str "orders")]])]

theorem hastyCalls_parse_costedOrders :
    (run {} hastyCalls).parse {} "customer" costedOrders =
      .error ⟨"include[0].query.filters.and[0].not.field", .unknownField,
        "model 'order' has no field 'cost'"⟩ ∧
    ∃ path place d q part, writePath (path ++ place) =
        "include[0].query.filters.and[0].not.field" ∧ d.reason = .unknownField ∧
      (run {} hastyCalls).Leads (.query "customer" 0) costedOrders path q part ∧
        (run {} hastyCalls).Shows {} q part place d := by
  have hsealed : (run {} hastyCalls).isSealed = true := by rfl
  have hparse : (run {} hastyCalls).parse {} "customer" costedOrders =
      .error ⟨"include[0].query.filters.and[0].not.field", .unknownField,
        "model 'order' has no field 'cost'"⟩ := by rfl
  obtain ⟨path, place, d, q, part, he, -, hleads, hshows⟩ := parse_fault hsealed hparse
  have hpath := congrArg ParseError.path he
  have hreason := congrArg ParseError.reason he
  exact ⟨hparse, path, place, d, q, part, hpath.symm, hreason.symm, hleads, hshows⟩

end Schema

end RowPolicy
